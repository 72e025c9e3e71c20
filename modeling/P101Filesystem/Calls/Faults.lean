import P101Filesystem.Calls.Guards
import P101Filesystem.Effect.Numbers
import P101Filesystem.Effect.Typestate
import P101Filesystem.Source.Readings

/-!
# Injected faults

Every call of a wrapper that takes an error object consults the injector once, under its own
name and right after its entry trace. A nonzero answer is raised, and the call is over:
nothing native ran, nothing was recorded, and errno is as the hooks left it.
-/
namespace P101Filesystem

open Effect

variable {π : Platform} {heap : Word → Word} {cfg : Config}

/-- Operations that run hooks of the environment. -/
def Op.hooked : Op → Bool
  | .traceEntry _ | .traceExit _ | .checkFault _ => true
  | _ => false

/-! ## One call -/

/-- What the events of a call say about its consultation. -/
structure Consulting (f : Api) (domain : Domain) (es : List Event) : Prop where
  starts : (es.take 2).map Event.op <+: [.traceEntry f, .checkFault f]
  once : ∀ e ∈ es.drop 2, e.op.consults = false
  ended : ∀ check, es[1]? = some check → check.answer ≠ 0 →
    (es.drop 2).map Event.op <+: [.raise domain none check.answer, .traceExit f]

section
variable {f : Api} {domain : Domain} {failure : Word → Word} {p : Code Word} {es : List Event}

theorem consulting_of_follows {q : Code Word} (hp : Faultable f domain failure p)
    (h : Follows p es q) : Consulting f domain es := by
  obtain ⟨body, rfl, hbody⟩ := hp
  cases es with
  | nil => exact ⟨by simp, by simp, by simp⟩
  | cons entry es =>
  obtain ⟨hentry, h⟩ := h
  cases es with
  | nil => exact ⟨by simp [hentry], by simp, by simp⟩
  | cons check es =>
  obtain ⟨hcheck, h⟩ := h
  by_cases hfault : check.answer = 0
  · simp only [hfault, ne_eq, not_true_eq_false, if_false] at h
    refine ⟨by simp [hentry, hcheck], fun e he => ?_, fun c hc hne => ?_⟩
    · simpa using (h.avoids hbody).1 e he
    · obtain rfl : check = c := by simpa using hc
      exact absurd hfault hne
  · simp only [hfault, ne_eq, not_false_eq_true, if_true] at h
    have hops : es.map Event.op <+: [.raise domain none check.answer, .traceExit f] := by
      cases es with
      | nil => exact List.nil_prefix
      | cons raise es =>
      obtain ⟨hraise, h⟩ := h
      cases es with
      | nil => simp [hraise]
      | cons exit es =>
      obtain ⟨hexit, h⟩ := h
      cases es with
      | nil => simp [hraise, hexit]
      | cons e es => exact absurd h Follows.done_cons
    refine ⟨by simp [hentry, hcheck], fun e he => ?_, fun c hc _ => ?_⟩
    · have hmem : e.op ∈ [Op.raise domain none check.answer, .traceExit f] :=
        hops.subset (List.mem_map.mpr ⟨e, by simpa using he, rfl⟩)
      simp only [List.mem_cons, List.not_mem_nil, or_false] at hmem
      rcases hmem with ho | ho
      · rw [ho]
        rfl
      · rw [ho]
        rfl
    · obtain rfl : check = c := by simpa using hc
      exact hops

theorem faultOf_of_not_consults {e : Event} (h : e.op.consults = false) : faultOf e = none := by
  unfold faultOf
  cases ho : e.op with
  | checkFault g =>
    rw [ho] at h
    cases h
  | _ => rfl

theorem consulted_of_none {es : List Event} (h : ∀ e ∈ es, e.op.consults = false) :
    consulted es = [] :=
  List.filterMap_eq_nil_iff.mpr fun e he => faultOf_of_not_consults (h e he)

namespace Consulting

/-- A call has consulted the injector under its own name, or has not come to it yet. -/
theorem consulted_eq (h : Consulting f domain es) :
    consulted es = (es[1]?.map fun check => (f, check.answer)).toList := by
  rcases es with _ | ⟨entry, _ | ⟨check, es⟩⟩
  · rfl
  · have hentry : entry.op = .traceEntry f := by simpa using h.starts
    simp [faultOf, hentry]
  · have hstart : entry.op = .traceEntry f ∧ check.op = .checkFault f := by simpa using h.starts
    have hrest : consulted es = [] := consulted_of_none h.once
    simp [faultOf, hstart, hrest]

/-- The operations of a faulted call. -/
theorem faulted (h : Consulting f domain es) {c : Word} (hc : (f, c) ∈ consulted es) (h0 : c ≠ 0) :
    es.map Event.op <+: [.traceEntry f, .checkFault f, .raise domain none c, .traceExit f] := by
  rw [h.consulted_eq] at hc
  obtain ⟨check, hcheck, hpair⟩ : ∃ check, es[1]? = some check ∧ (f, check.answer) = (f, c) := by
    simpa using hc
  obtain ⟨-, rfl⟩ := Prod.mk.inj hpair
  have hended := h.ended check hcheck h0
  rcases es with _ | ⟨entry, _ | ⟨check', es⟩⟩
  · simp at hcheck
  · simp at hcheck
  · obtain rfl : check' = check := by simpa using hcheck
    have hstart : entry.op = .traceEntry f ∧ check'.op = .checkFault f := by simpa using h.starts
    simpa [hstart] using hended

end Consulting

end

/-- A call that was faulted with `c` has done nothing but raise `c`. While the hooks leave
errno alone, it stays what it was. -/
structure Faulted (domain : Domain) (c : Word) (act : Activation) : Prop where
  natives : natives act.past = []
  callbacks : callbacks act.past = []
  recorded : recorded act.past = []
  raised : raised act.past <+: [(domain, c)]
  errno : (∀ e ∈ act.past, e.op.hooked = true → e.after.errno = e.before.errno) →
    ∀ e ∈ act.past, e.after.errno = act.start.errno

/-- Operations that leave errno alone pass it on along a call. -/
theorem errno_of_chained {l l' : Local} {es : List Event} (hc : Chained l es l')
    (h : ∀ e ∈ es, e.after.errno = e.before.errno) : ∀ e ∈ es, e.after.errno = l.errno := by
  induction es generalizing l with
  | nil => simp
  | cons d es ih =>
    obtain ⟨rfl, hc⟩ := hc
    have hd : d.after.errno = d.before.errno := h d (by simp)
    intro e he
    rcases List.mem_cons.mp he with rfl | he
    · exact hd
    · exact (ih hc (fun e he => h e (by simp [he])) e he).trans hd

theorem faulted_of_ops {f : Api} {domain : Domain} {c : Word} {act : Activation} {rest : Code Word}
    {now : Local} (hs : act.Sound (system π) rest now)
    (h : act.past.map Event.op <+: [.traceEntry f, .checkFault f, .raise domain none c,
      .traceExit f]) : Faulted domain c act := by
  have hops : ∀ e ∈ act.past, e.op.hooked = true ∨ e.op = .raise domain none c := by
    intro e he
    have hmem : e.op ∈ [Op.traceEntry f, .checkFault f, .raise domain none c, .traceExit f] :=
      h.subset (List.mem_map.mpr ⟨e, he, rfl⟩)
    simp only [List.mem_cons, List.not_mem_nil, or_false] at hmem
    rcases hmem with ho | ho | ho | ho
    · exact .inl (by rw [ho]; rfl)
    · exact .inl (by rw [ho]; rfl)
    · exact .inr ho
    · exact .inl (by rw [ho]; rfl)
  have nothing : ∀ {B : Type} (reading : Event → Option B),
      (∀ e : Event, e.op.hooked = true ∨ e.op = .raise domain none c → reading e = none) →
      act.past.filterMap reading = [] :=
    fun reading hr => List.filterMap_eq_nil_iff.mpr fun e he => hr e (hops e he)
  constructor
  · refine nothing nativeOf fun e he => ?_
    unfold nativeOf
    rcases he with he | he
    · cases ho : e.op <;> first | rfl | (rw [ho] at he; cases he)
    · rw [he]
  · refine nothing callbackOf fun e he => ?_
    unfold callbackOf
    rcases he with he | he
    · cases ho : e.op <;> first | rfl | (rw [ho] at he; cases he)
    · rw [he]
  · refine nothing recordOf fun e he => ?_
    unfold recordOf
    rcases he with he | he
    · cases ho : e.op <;> first | rfl | (rw [ho] at he; cases he)
    · rw [he]
  · rw [raised_eq_raises]
    exact h.filterMap _
  · intro hooks
    refine errno_of_chained hs.chained fun e he => ?_
    rcases hops e he with ho | ho
    · exact hooks e he ho
    · obtain ⟨a, s, s', hrun⟩ := hs.answers e he (by rw [ho]; rfl)
      rw [ho] at hrun
      simp only [system, Op.run, Option.some.injEq, Prod.mk.injEq] at hrun
      rw [hrun.2.2]

/-! ## Runs -/

/-- The consultations of thread `t`'s call `id`. -/
structure FaultsAtomic (cfg : Config) (t id : Nat) : Prop where
  called : ∀ c base, (t, .call id c base) ∈ cfg.log →
    ∃ act, cfg.Activated t id act ∧ act.entry = c ∧ eventsOf cfg.log t id = act.past
  unguarded : ∀ act, cfg.Activated t id act → act.entry.guard = none → consulted act.past = []
  guarded : ∀ act f domain failure, cfg.Activated t id act →
    act.entry.guard = some (f, domain, failure) → Consulting f domain act.past ∧
      ∀ c, c ≠ 0 → (f, c) ∈ consulted act.past → Faulted domain c act
  returned : ∀ act f domain failure v, (t, .exit id act v) ∈ cfg.log →
    act.entry.guard = some (f, domain, failure) → ∃ c, consulted act.past = [(f, c)] ∧
      (c ≠ 0 → raised act.past = [(domain, c)] ∧ v = failure c)
  consultations : ∀ e f, (t, .event id e) ∈ cfg.log → e.op = .checkFault f →
    ∃ act, cfg.Activated t id act ∧ act.entry.api = some f ∧ f.guard.isSome

/-- A finished call has consulted the injector, and returns the failure value of a fault. -/
theorem consulted_of_done {f : Api} {domain : Domain} {failure : Word → Word} {p : Code Word}
    {es : List Event} {v : Word} (hp : Faultable f domain failure p) (h : Follows p es (.done v)) :
    ∃ c, consulted es = [(f, c)] ∧ (c ≠ 0 → raised es = [(domain, c)] ∧ v = failure c) := by
  have hconsulted := (consulting_of_follows hp h).consulted_eq
  obtain ⟨body, rfl, hbody⟩ := hp
  obtain ⟨entry, check, rest, rfl, hentry, hcheck, h⟩ := guarded_done h
  refine ⟨check.answer, by simpa using hconsulted, fun hfault => ?_⟩
  rcases h with ⟨-, hv, raise, exit, rfl, hraise, hexit⟩ | ⟨h0, -⟩
  · exact ⟨by simp [raiseOf, hentry, hcheck, hraise, hexit], hv⟩
  · exact absurd h0 hfault

/-- In every run, nested calls and other threads included, each call consults the injector
once or, without an error object, never, and an injected fault is all that a call does. -/
theorem faults_atomic {legal : Config → Nat → Move → Prop}
    (h : Effect.Config.Reach (system π) legal (startConfig heap) cfg) (t id : Nat) :
    FaultsAtomic cfg t id where
  called := by
    intro c base hcall
    obtain ⟨act, hact, hentry, -⟩ := h.accounted.called t id c base hcall
    exact ⟨act, hact, hentry, h.eventsOf hact⟩
  unguarded := by
    intro act hact hguard
    obtain ⟨rest, now, hs⟩ := h.accounted.activation hact
    refine consulted_of_none fun e he => ?_
    simpa using (hs.follows.avoids (code_unguarded act.base hguard)).1 e he
  guarded := by
    intro act f domain failure hact hguard
    obtain ⟨rest, now, hs⟩ := h.accounted.activation hact
    have hcon := consulting_of_follows (code_faultable act.base hguard) hs.follows
    exact ⟨hcon, fun c h0 hc => faulted_of_ops hs (hcon.faulted hc h0)⟩
  returned := by
    intro act f domain failure v hexit hguard
    obtain ⟨now, hs⟩ := h.accounted.returned t id act v hexit
    exact consulted_of_done (code_faultable act.base hguard) hs.follows
  consultations := by
    intro e f he hop
    obtain ⟨act, hact, hpast⟩ := h.accounted.happened t id e he
    obtain ⟨rest, now, hs⟩ := h.accounted.activation hact
    have hmem : (f, e.answer) ∈ consulted act.past :=
      List.mem_filterMap.mpr ⟨e, hpast, by simp [faultOf, hop]⟩
    refine ⟨act, hact, ?_⟩
    cases hguard : act.entry.guard with
    | none =>
      have hnone : consulted act.past = [] := consulted_of_none fun d hd => by
        simpa using (hs.follows.avoids (code_unguarded act.base hguard)).1 d hd
      rw [hnone] at hmem
      cases hmem
    | some g =>
      obtain ⟨f', domain, failure⟩ := g
      have hcon := consulting_of_follows (code_faultable act.base hguard) hs.follows
      rw [hcon.consulted_eq] at hmem
      obtain ⟨check, -, hpair⟩ : ∃ check, act.past[1]? = some check ∧
          (f', check.answer) = (f, e.answer) := by simpa using hmem
      obtain ⟨rfl, -⟩ := Prod.mk.inj hpair
      obtain ⟨f₀, hapi, hmap⟩ := Option.bind_eq_some_iff.mp hguard
      obtain ⟨g, hg, hpair⟩ := Option.map_eq_some_iff.mp hmap
      obtain ⟨rfl, -⟩ := Prod.mk.inj hpair
      exact ⟨hapi, by simp [hg]⟩

/-- Answers 12 when the injector is asked. -/
def injecting : Answer := ⟨12, 0, []⟩

/-- A scandir whose selector calls a faulted closedir, and then umask. -/
def faultedInside : List (Nat × Move) :=
  [(0, .call (.scandir 9 8 7 0) 0 calm₀)] ++ runs 0 3 ++
    [(0, .hand), (0, .invoke (.user 7 [6]) calm₀), (0, .call (.closedir 5) 0 calm₀),
      (0, .op calm₀), (0, .op injecting), (0, .op calm₀), (0, .op calm₀), (0, .exit),
      (0, .call (.umask 0) 0 calm₀)] ++ runs 0 2 ++ answers 0 18 ++ runs 0 1 ++
    [(0, .exit), (0, .back 0 calm₀), (0, .back (-1) calm₀)] ++ runs 0 3 ++ [(0, .exit)]

/-- Item of the return of that closedir. -/
def Item.insideReturn : Nat × Item → Bool
  | (t, .exit id act v) =>
    t = 0 ∧ id = 6 ∧ act.entry = .closedir 5 ∧ raised act.past = [(.errno, 12)] ∧ v = -1
  | _ => false

theorem faults_atomic_inside :
    ∃ cfg, (startConfig fun _ => 0).run (system linux) (fun _ _ _ => True) faultedInside =
        some cfg ∧ cfg.log.any Item.insideReturn = true ∧ ∀ t id, FaultsAtomic cfg t id := by
  have hrun : ((startConfig fun _ => 0).run (system linux) (fun _ _ _ => True)
      faultedInside).map (fun cfg => cfg.log.any Item.insideReturn) = some true := by
    decide +kernel
  obtain ⟨cfg, hcfg, hinside⟩ := Option.map_eq_some_iff.mp hrun
  exact ⟨cfg, hcfg, hinside, faults_atomic (Effect.Config.Reach.of_run .init hcfg)⟩

end P101Filesystem
