import P101Filesystem.Calls.Failing
import P101Filesystem.Calls.Faults
import P101Filesystem.Walk.Contexts

/-!
# Injected faults look like failures

An injected errno code cannot be told from a native call that fails with it. For every run
with injected codes there is one in which nothing is injected and some native calls fail
instead; its threads make the same calls, raise and record the same, and get the same answers.
-/
namespace P101Filesystem

open Effect

variable {π : Platform} {heap : Word → Word}

/-! ## Injected codes -/

/-- The call that a move injects a code into. -/
def injected (th : Thread) (m : Move) : Option Call :=
  match m, th.stack with
  | .op a, .code _ running (.perform (.checkFault _) _) :: _ =>
    if a.word = 0 then none else some running.entry
  | _, _ => none

/-- Codes are injected into calls with `p` only. -/
def injectsInto (p : Call → Bool) (cfg : Config) (t : Nat) (m : Move) : Prop :=
  ∀ c ∈ injected (cfg.threads t) m, p c = true

instance (p : Call → Bool) (cfg : Config) (t : Nat) (m : Move) :
    Decidable (injectsInto p cfg t m) :=
  inferInstanceAs (Decidable (∀ c ∈ injected (cfg.threads t) m, p c = true))

/-- Nothing is injected. -/
abbrev spared : Config → Nat → Move → Prop := injectsInto fun _ => false

theorem injected_unnumbered (th : Thread) (m : Move) : injected th.unnumbered m = injected th m := by
  obtain ⟨l, stack⟩ := th
  cases m with
  | op a =>
    cases stack with
    | nil => rfl
    | cons f below =>
      cases f with
      | outside => rfl
      | code id act rest =>
        cases rest with
        | done => rfl
        | perform o next => cases o <;> rfl
  | _ => rfl

theorem injected_alike {th th' : Thread} (h : th'.unnumbered = th.unnumbered) (m : Move) :
    injected th' m = injected th m := by
  rw [← injected_unnumbered, h, injected_unnumbered]

theorem injected_eq_some {th : Thread} {m : Move} {c : Call} (h : injected th m = some c) :
    ∃ a id act f next below, m = .op a ∧ a.word ≠ 0 ∧ act.entry = c ∧
      th.stack = .code id act (.perform (.checkFault f) next) :: below := by
  unfold injected at h
  split at h
  · next a id act f next below hstack =>
    split at h
    · cases h
    · next hne => exact ⟨a, id, act, f, next, below, rfl, hne, Option.some.inj h, hstack⟩
  · cases h

/-- In a spared run the injector always answers 0. -/
theorem spared_answers {cfg : Config}
    (h : Effect.Config.Reach (system π) spared (startConfig heap) cfg) :
    ∀ t id e f, (t, Item.event id e) ∈ cfg.log → e.op = .checkFault f → e.answer = 0 := by
  induction h with
  | init => simp [startConfig, Effect.Config.init]
  | @step cfg cfg' u m hr hl hs ih =>
    obtain ⟨s, th, i, hst, rfl⟩ := Config.stepped hs
    intro t id e f hmem hop
    simp only [List.mem_append, List.mem_singleton, Prod.mk.injEq] at hmem
    rcases hmem with hmem | ⟨rfl, rfl⟩
    · exact ih t id e f hmem hop
    · have hsound := hr.accounted.sound t
      have hnone : ∀ c, injected (cfg.threads t) m ≠ some c := fun c hc => by cases hl c hc
      generalize cfg.threads t = old at hst hsound hnone
      cases hst with
      | back =>
        have hparty := hsound.1 _ rfl
        simp only at hop
        simp [Awaits, hop, system, Op.party] at hparty
      | @op l _ act o next below a v s' l' hp hrun =>
        obtain rfl : o = .checkFault f := hop
        obtain ⟨rfl, -⟩ := Prod.mk.inj (Option.some.inj hrun)
        by_contra hne
        have hne : ¬ a.word = 0 := hne
        exact hnone act.entry (by simp [injected, hne])

/-! ## The consultation -/

/-- What is left of a wrapper after its entry trace. -/
def checking (f : Api) (failure : Word → Word) (body : Code Word) : Code Word :=
  .perform (.checkFault f) fun fault =>
    if fault ≠ 0 then .perform (.raise .errno none fault) fun _ => exiting f (failure fault)
    else body

/-- A wrapper that is about to consult the injector has done nothing but trace its entry. -/
theorem checking_of_follows {f g : Api} {failure : Word → Word} {body : Code Word}
    {es : List Event} {next : Word → Code Word}
    (hp : Faultable f .errno failure (guarded f .errno failure body))
    (h : Follows (guarded f .errno failure body) es (.perform (.checkFault g) next)) :
    ∃ entry, es = [entry] ∧ .perform (.checkFault g) next = checking f failure body := by
  set consultation : Event := ⟨.checkFault g, [], 0, quietLocal, quietLocal⟩
  have hcon := consulting_of_follows hp (h.snoc (e := consultation) rfl)
  rcases es with _ | ⟨entry, _ | ⟨check, rest⟩⟩
  · have hstart : consultation.op = .traceEntry f := by simpa using hcon.starts
    cases hstart
  · exact ⟨entry, rfl, h.2.symm⟩
  · have honce : consultation.op.consults = false := hcon.once consultation (by simp)
    cases honce

/-- A frame's own context is in scope. -/
theorem frame_context {legal : Config → Nat → Move → Prop} {cfg : Config} {t id : Nat}
    {act : Activation} {rest : Code Word} {below : List Frame}
    (h : Effect.Config.Reach (system π) legal (startConfig heap) cfg)
    (hstack : (cfg.threads t).stack = .code id act rest :: below) :
    ∀ w, act.entry.walk = some w → ∃ x, cfg.shared.context w.1 act.base = some x := by
  intro w hw
  have hst := (stacks_of_reach h).stacked t
  rw [hstack] at hst
  cases hst with
  | code hbelow hk hh hn hb =>
    rw [Call.walk_of_role.mpr hw] at hh
    exact hh.own.2

/-! ## Refused calls -/

/-- What is left of a call that was refused with `k`, and what it has told. -/
inductive Leaving (f : Api) (v k : Word) : Code Word → List Op → Prop
  | raising : Leaving f v k (.perform (.raise .errno none k) fun _ => exiting f v) []
  | exiting : Leaving f v k (exiting f v) [.raise .errno none k]
  | returning : Leaving f v k (.done v) [.raise .errno none k]

/-- A thread that is in a refused call, and one that is still about to consult the injector. -/
inductive Lags (π : Platform) : Thread → Thread → List Notice → Prop
  | intro {l l' id id' act act' rest f v k failure body ops below below'} :
      Leaving f v k rest ops → k ≠ 0 → (f, k) ∈ consulted act.past →
      FailsWith π act.entry act.base body k v →
      act'.entry = act.entry → act'.base = act.base → l'.active = l.active →
      below'.map Frame.unnumbered = below.map Frame.unnumbered →
      Lags π ⟨l, .code id act rest :: below⟩ ⟨l', .code id' act' (checking f failure body) :: below'⟩
        (ops.map .told)

theorem unnumbered_code {f : Frame} {id : Nat} {act : Activation} {rest : Code Word}
    (h : f.unnumbered = Frame.unnumbered (.code id act rest)) : ∃ id', f = .code id' act rest := by
  cases f with
  | code id' act' rest' =>
    obtain ⟨-, rfl, rfl⟩ := Frame.code.inj h
    exact ⟨id', rfl⟩
  | outside => cases h

theorem unnumbered_outside {f : Frame} {g : Party} {heard : List Word} {since : Local}
    (h : f.unnumbered = Frame.unnumbered (.outside g heard since)) : f = .outside g heard since := by
  cases f with
  | code => cases h
  | outside => exact h

/-- The thread that is injected a code falls behind. -/
theorem lags_of_injected {legal : Config → Nat → Move → Prop} {cfg : Config} {t : Nat} {m : Move}
    {s : Shared} {th th' : Thread} {i : Item} {c : Call}
    (h : Effect.Config.Reach (system π) legal (startConfig heap) cfg)
    (hc : injected (cfg.threads t) m = some c) (himitable : c.imitable = true)
    (halike : th'.unnumbered = (cfg.threads t).unnumbered)
    (hs : Thread.Stepped (system π) cfg.log.length cfg.shared (cfg.threads t) m s th i) :
    s = cfg.shared ∧ Lags π th th' (i.report noticed) := by
  obtain ⟨a, id, act, g, next, below, rfl, hword, rfl, hstack⟩ := injected_eq_some hc
  have hsound := h.accounted.sound t
  generalize cfg.threads t = old at hstack hs halike hsound
  obtain ⟨l, stack⟩ := old
  obtain rfl : stack = _ := hstack
  obtain ⟨l', stack'⟩ := th'
  obtain ⟨rfl, hframes⟩ := Thread.mk.inj halike
  obtain ⟨top, below', rfl, htop, hbelow⟩ := List.map_eq_cons_iff.mp hframes
  obtain ⟨id', rfl⟩ := unnumbered_code htop
  obtain ⟨f, failure, hguard, body, hcode, hfails⟩ := code_fails (π := π) act.base himitable
  have hfaultable := code_faultable (π := π) act.base hguard
  have hfollows : Follows (act.entry.code π act.base) act.past (.perform (.checkFault g) next) :=
    hsound.1.follows
  rw [hcode] at hfaultable hfollows
  obtain ⟨entry, -, hnext⟩ := checking_of_follows hfaultable hfollows
  obtain ⟨hop, rfl⟩ := Program.perform.inj hnext
  obtain rfl := Op.checkFault.inj hop
  rw [hnext]
  cases hs with
  | op hp hrun =>
    obtain ⟨rfl, hlocal⟩ := Prod.mk.inj (Option.some.inj hrun)
    obtain ⟨rfl, rfl⟩ := Prod.mk.inj hlocal
    dsimp only
    rw [if_pos hword]
    exact ⟨rfl, .intro .raising hword (by simp [faultOf]) (hfails _ hword) rfl rfl rfl hbelow⟩

theorem spared_op {cfg : Config} {t id : Nat} {act : Activation} {o : Op} {next : Word → Code Word}
    {below : List Frame} {a : Answer}
    (hstack : (cfg.threads t).stack = .code id act (.perform o next) :: below) (ha : o.spares a) :
    spared cfg t (.op a) := by
  intro c hc
  obtain ⟨b, id', act', f, next', below', hm, hne, -, hstack'⟩ := injected_eq_some hc
  obtain rfl := Effect.Move.op.inj hm
  rw [hstack'] at hstack
  obtain ⟨hframe, -⟩ := List.cons.inj hstack
  obtain ⟨-, -, hcode⟩ := Frame.code.inj hframe
  obtain ⟨rfl, -⟩ := Program.perform.inj hcode
  exact absurd ha hne

/-- A refused call goes on, or it returns and the one that lagged behind has failed. -/
theorem lags_step {cfg cfg' : Config} {t : Nat} {m : Move} {s : Shared} {th : Thread} {i : Item}
    {notices : List Notice} (h : Effect.Config.Reach (system π) spared (startConfig heap) cfg')
    (hshared : cfg'.shared = cfg.shared) (hl : Lags π (cfg.threads t) (cfg'.threads t) notices)
    (hs : Thread.Stepped (system π) cfg.log.length cfg.shared (cfg.threads t) m s th i) :
    (s = cfg.shared ∧ Lags π th (cfg'.threads t) (notices ++ i.report noticed)) ∨
      ∃ th' cfg'', Taken (system π) spared noticed t cfg' s th' (notices ++ i.report noticed)
        cfg'' ∧ th'.unnumbered = th.unnumbered := by
  generalize hth : cfg.threads t = old at hl hs
  generalize hth' : cfg'.threads t = old' at hl
  obtain @⟨l, l', id, id', act, act', rest, f, v, k, failure, body, ops, below, below', hleaving, hk,
    hconsulted, hfails, hentry, hbase, hactive, hbelow⟩ := hl
  have hkept : ∀ {act : Activation} {e : Event} {f : Api} {k : Word}, (f, k) ∈ consulted act.past →
      (f, k) ∈ consulted (act.push e).past := by
    intro act e f k hmem
    simp only [Effect.Activation.push_past, consulted, List.filterMap_append, List.mem_append]
    exact .inl hmem
  cases hleaving with
  | raising =>
    cases hs with
    | op hp hrun =>
      obtain ⟨rfl, hlocal⟩ := Prod.mk.inj (Option.some.inj hrun)
      obtain ⟨rfl, rfl⟩ := Prod.mk.inj hlocal
      exact .inl ⟨rfl, .intro .exiting hk (hkept hconsulted) hfails hentry hbase hactive hbelow⟩
    | hand hp => cases hp
  | exiting =>
    cases hs with
    | op hp hrun =>
      obtain ⟨rfl, hlocal⟩ := Prod.mk.inj (Option.some.inj hrun)
      obtain ⟨rfl, rfl⟩ := Prod.mk.inj hlocal
      exact .inl ⟨rfl, .intro .returning hk (hkept hconsulted) hfails hentry hbase hactive hbelow⟩
    | hand hp => cases hp
  | returning =>
    cases hs with
    | @exit _ _ _ _ g heard since below =>
      obtain ⟨top, callers, rfl, htop, hcallers⟩ := List.map_eq_cons_iff.mp hbelow
      obtain rfl := unnumbered_outside htop
      have hcontext := frame_context h (congrArg Effect.Thread.stack hth')
      rw [hentry, hbase] at hcontext
      obtain ⟨s', hs', hleave⟩ := hfails cfg'.shared ⟨0, l'.active⟩ l.errno hcontext
      have hfailing : Completes π (checking f failure body) cfg'.shared l' [.raise .errno none k] v s'
          ⟨l.errno, l'.active⟩ :=
        completes_op calm₀ rfl rfl rfl rfl hs'
      obtain ⟨cfg'', ht⟩ := hfailing.taken (spared_op (t := t)) (fun _ _ hc => by cases hc)
        (fun _ _ _ _ hc => by cases hc) (fun _ _ hc => by cases hc) rfl hth'
      have hleft : (system π).leave act'.entry act'.base s' =
          (system π).leave act.entry act.base cfg.shared := by
        rw [hentry, hbase, ← hshared]
        exact hleave
      rw [hleft, hactive, hentry] at ht
      exact .inr ⟨_, cfg'', ht, by simp [Effect.Thread.unnumbered, Effect.Frame.unnumbered, hcallers]⟩

/-- Calls that fail imitate calls that are refused. -/
def failures (π : Platform) (heap : Word → Word) :
    Imitation (system π) (injectsInto Call.imitable) spared (startConfig heap) noticed where
  Lags := Lags π
  alike := by
    intro cfg cfg' t m s th i hr _ hl halike hs
    cases hc : injected (cfg.threads t) m with
    | none =>
      refine .inl fun c hc' => ?_
      rw [injected_alike halike, hc] at hc'
      cases hc'
    | some c => exact .inr (lags_of_injected hr hc (hl c hc) halike hs)
  lagging := lags_step

/-! ## Whole runs -/

/-- The calls of thread `t`, what they raised and recorded, and what they returned. -/
def noticesOf (log : List (Nat × Item)) (t : Nat) : List Notice := reports noticed log t

/-- The call on top has been refused and is on its way out. -/
def refusing (th : Thread) : Bool :=
  match th.stack with
  | .code _ refused _ :: _ => (consulted refused.past).any fun c => c.2 ≠ 0
  | _ => false

theorem refusing_of_lags {th th' : Thread} {notices : List Notice} (h : Lags π th th' notices) :
    refusing th = true := by
  obtain ⟨-, hk, hconsulted, -⟩ := h
  exact List.any_eq_true.mpr ⟨_, hconsulted, by simpa using hk⟩

/-- In `cfg'` nothing was injected, and but for calls on their way out all is as in `cfg`. -/
structure Imitates (cfg' cfg : Config) : Prop where
  spared : ∀ t id e f, (t, Item.event id e) ∈ cfg'.log → e.op = .checkFault f → e.answer = 0
  shared : cfg'.shared = cfg.shared
  threads : ∀ t, refusing (cfg.threads t) = false →
    (cfg'.threads t).unnumbered = (cfg.threads t).unnumbered ∧
      noticesOf cfg'.log t = noticesOf cfg.log t
  callers : ∀ t, (cfg'.threads t).stack.tail.map Frame.unnumbered =
    (cfg.threads t).stack.tail.map Frame.unnumbered

/-- Every run in which codes are injected into imitable calls has one that imitates it: their
native functions fail with these codes instead. -/
theorem faults_imitated {cfg : Config}
    (h : Effect.Config.Reach (system π) (injectsInto Call.imitable) (startConfig heap) cfg) :
    ∃ cfg', Effect.Config.Reach (system π) spared (startConfig heap) cfg' ∧ Imitates cfg' cfg := by
  obtain ⟨cfg', hm⟩ := (failures π heap).run h
  refine ⟨cfg', hm.reach, spared_answers hm.reach, hm.shared, fun t ht => ?_, fun t => ?_⟩
  · obtain ⟨notices, hf, hnotices⟩ := hm.threads t
    cases hf with
    | alike halike => exact ⟨halike, by simpa [noticesOf] using hnotices.symm⟩
    | lags hl => simp [refusing_of_lags hl] at ht
  · obtain ⟨notices, hf, -⟩ := hm.threads t
    cases hf with
    | alike halike =>
      have hstack := congrArg Effect.Thread.stack halike
      simpa [Effect.Thread.unnumbered, List.map_tail] using congrArg List.tail hstack
    | lags hl =>
      generalize cfg.threads t = th, cfg'.threads t = th' at hl
      obtain ⟨-, -, -, -, -, -, -, hbelow⟩ := hl
      exact hbelow

/-- A call that is refused with `k`. -/
def refused (t : Nat) (c : Call) (b k : Word) : List (Nat × Move) :=
  [(t, .call c b calm₀), (t, .op calm₀), (t, .op ⟨k, 0, []⟩), (t, .op calm₀), (t, .op calm₀),
    (t, .exit)]

/-- A walk whose callback starts another walk and closes a directory, both refused, while
another thread is about to be refused. -/
def refusedInside : List (Nat × Move) :=
  opening 0 (.nftw 1 7 5 0) 100 ++ [(0, .call (.callNftwCallback 3 4 0 5) 110 calm₀)] ++
    runs 0 2 ++ [(0, .hand)] ++ refused 0 (.ftw 2 8 3) 120 12 ++
    (refused 1 (.opendir 6) 200 24).take 4 ++ refused 0 (.closedir 5) 0 9

/-- What thread 0 shows of it. -/
def refusedNotices : List Notice :=
  [.made (.nftw 1 7 5 0), .made (.callNftwCallback 3 4 0 5), .made (.ftw 2 8 3),
    .told (.raise .errno none 12), .got (.ftw 2 8 3) (-1), .made (.closedir 5),
    .told (.raise .errno none 9), .got (.closedir 5) (-1)]

/-- The same in a run without injected codes. -/
theorem faults_imitated_inside :
    ∃ cfg cfg', (startConfig fun _ => 0).run (system linux) (injectsInto Call.imitable)
        refusedInside = some cfg ∧ Imitates cfg' cfg ∧
      noticesOf cfg'.log 0 = refusedNotices := by
  have hrun : ((startConfig fun _ => 0).run (system linux) (injectsInto Call.imitable)
      refusedInside).map (fun cfg => (refusing (cfg.threads 0), noticesOf cfg.log 0)) =
      some (false, refusedNotices) := by decide +kernel
  obtain ⟨cfg, hcfg, hstate⟩ := Option.map_eq_some_iff.mp hrun
  obtain ⟨hfree, hnotices⟩ := Prod.mk.inj hstate
  obtain ⟨cfg', -, himitates⟩ := faults_imitated (Effect.Config.Reach.of_run .init hcfg)
  exact ⟨cfg, cfg', hcfg, himitates, ((himitates.threads 0 hfree).2).trans hnotices⟩

end P101Filesystem
