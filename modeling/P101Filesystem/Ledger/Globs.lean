import P101Filesystem.Ledger.Balance

/-!
# The ledger of glob results

A glob_t owns a path list after result 0, and the paths matched so far after GLOB_ABORTED
and GLOB_NOSPACE. The wrapper records an acquire for result 0 alone, whether the object
owned a list before or not. The ledger is right as long as both come to the same.
-/
namespace P101Filesystem

open Effect Ledger Protocol

variable {π : Platform} {heap : Word → Word} {cfg : Config}

/-! ## Phases -/

inductive GlobPhase where
  | idle | gotten (pglob : Word) | freeing (pglob : Word) | freed (pglob : Word)
  deriving DecidableEq, Repr

def Op.globResult : Op → Option (String × Bool)
  | .record r => r.globResult
  | _ => none

inductive GlobStep (π : Platform) : GlobPhase → Op → Word → GlobPhase → Prop
  | inert {ph o v} : o.party = none → o.globResult = none → GlobStep π ph o v ph
  | other {f args v} : f ≠ .glob → f ≠ .globfree → GlobStep π .idle (.native f args) v .idle
  | callback {fn args v} : GlobStep π .idle (.callback fn args) v .idle
  | glob {pattern flags errfunc pglob} :
      GlobStep π .idle (.native .glob [pattern, flags, errfunc, pglob]) 0 (.gotten pglob)
  | globFailed {pattern flags errfunc pglob v} : v ≠ 0 →
      GlobStep π .idle (.native .glob [pattern, flags, errfunc, pglob]) v .idle
  | noteAcquire {pglob size label v} : GlobStep π (.gotten pglob)
      (.record (.acquire .globResult (π.pointerResourceId pglob) size label)) v .idle
  | free {pglob v} : GlobStep π (.freeing pglob) (.native .globfree [pglob]) v (.freed pglob)
  | noteRelease {pglob v} : GlobStep π (.freed pglob)
      (.record (.release .globResult (π.pointerResourceId pglob))) v .idle

def globProtocol (π : Platform) : Protocol Op Word GlobPhase :=
  ⟨GlobStep π, fun ph _ => ph = .idle⟩

def Call.globPhase : Call → GlobPhase
  | .globfree pglob => .freeing pglob
  | _ => .idle

/-- The wrappers that fill and free the objects. -/
def Api.globs (f : Api) : Bool := f = .glob ∨ f = .globfree

theorem glob_concerns (π : Platform) : Concerns (globProtocol π) .idle Api.globs where
  routine := by
    intro ph o v ho
    cases o with
    | native | callback | load | record => cases ho
    | _ => exact .inert rfl rfl
  load := .inert rfl rfl
  callback := .callback
  native := by
    intro f args v hf
    simp only [Api.globs, decide_eq_false_iff_not, not_or] at hf
    exact .other hf.1 hf.2
  record := by
    intro f r v hf hr
    simp only [Api.globs, decide_eq_false_iff_not, not_or] at hf
    refine .inert rfl ?_
    cases r with
    | openFd | closeFd | alloc => rfl
    | acquire cls | release cls =>
      cases cls with
      | directoryStream => rfl
      | globResult => simp [Record.madeBy, hf] at hr
  final := rfl
  dirfd := rfl

theorem glob_keeps (pattern flags errfunc pglob : Word) :
    (globProtocol π).Keeps .idle (p101Glob π pattern flags errfunc pglob) := by
  have hg := glob_concerns π
  rw [p101Glob_eq]
  refine hg.guarded (fun _ => rfl) (hg.pass rfl fun _ => fun retVal => ?_)
  by_cases h0 : retVal = 0
  · subst h0
    refine ⟨.gotten pglob, .glob, ?_⟩
    simp only [ne_eq, not_true_eq_false, false_and, if_false, if_true]
    exact keeps_step (fun _ => .idle) (fun _ => .noteAcquire) fun _ => hg.exiting rfl
  · refine ⟨.idle, .globFailed h0, keeps_ite ?_ ?_⟩
    · exact hg.pass rfl fun _ => hg.exiting rfl
    · simp only [h0, if_false]
      exact hg.exiting rfl

theorem globfree_keeps (pglob : Word) :
    (globProtocol π).Keeps (.freeing pglob) (p101Globfree π pglob) := by
  have hg := glob_concerns π
  rw [p101Globfree_eq]
  refine hg.pass rfl fun _ => hg.pass rfl fun _ => ?_
  refine keeps_step (fun _ => .freed pglob) (fun _ => .free) fun _ => ?_
  exact keeps_step (fun _ => .idle) (fun _ => .noteRelease) fun _ => hg.exiting rfl

theorem globCode_keeps (c : Call) (b : Word) :
    (globProtocol π).Keeps c.globPhase (c.code π b) := by
  cases c with
  | glob => exact glob_keeps _ _ _ _
  | globfree => exact globfree_keeps _
  | _ => exact (glob_concerns π).code (fun f hf => by cases hf <;> rfl) b

def globTypestate (π : Platform) : Typestate (system π) GlobPhase where
  protocol := globProtocol π
  idle := .idle
  first := fun c _ => c.globPhase
  reentrant := Party.reentrant
  keeps := globCode_keeps
  permits := reentrant_of_permits
  invokes := reentrant_of_invokes
  acts := reentrant_of_acts
  hands := by
    intro ph o v ph' g hs hp hg
    cases hs with
    | inert hn => exact absurd (hn.symm.trans hp) (by simp)
    | other | callback | glob | globFailed => rfl
    | free =>
      obtain rfl := Option.some.inj hp
      simp [Party.reentrant] at hg
    | noteAcquire | noteRelease => cases hp

/-! ## Ownership -/

/-- The results after which POSIX lets the object own a list. -/
def Platform.globKeeps (π : Platform) (v : Word) : Bool :=
  v = 0 ∨ v = π.globAborted ∨ v = π.globNospace

def globOwner (π : Platform) (owns : Word → Bool) : Nat × Item → Word → Bool
  | (_, .event _ e) =>
    match e.op with
    | .native .glob [_, _, _, pglob] =>
      if π.globKeeps e.answer then Function.update owns pglob true else owns
    | .native .globfree [pglob] => Function.update owns pglob false
    | _ => owns
  | _ => owns

/-- The objects that own a list after a log. -/
def globOwners (π : Platform) (log : List (Nat × Item)) : Word → Bool :=
  log.foldl (globOwner π) fun _ => false

/-- Callers reuse an object that owns a list with GLOB_APPEND only, and free what is owned. -/
def GlobCaller (appends : Word → Bool) (owns : Word → Bool) : Item → Prop
  | .call _ (.glob _ flags _ pglob) _ => owns pglob = true → appends flags = true
  | .call _ (.globfree pglob) _ => owns pglob = true
  | _ => True

/-- Result 0 finds an object that owns nothing, and a partial result one that owns a list. -/
def GlobFits (π : Platform) (owns : Word → Bool) : Item → Prop
  | .event _ e =>
    match e.op with
    | .native .glob [_, _, _, pglob] =>
      if e.answer = 0 then owns pglob = false
      else e.answer = π.globAborted ∨ e.answer = π.globNospace → owns pglob = true
    | _ => True
  | _ => True

instance (appends owns : Word → Bool) (i : Item) : Decidable (GlobCaller appends owns i) := by
  unfold GlobCaller
  split <;> exact inferInstance

instance (owns : Word → Bool) (i : Item) : Decidable (GlobFits π owns i) :=
  match i with
  | .event _ ⟨op, _, answer, _, _⟩ => by
    dsimp only [GlobFits]
    split <;> exact inferInstance
  | .call .. | .invoke _ | .act _ | .returned _ | .hand .. | .exit .. => instDecidableTrue

def globCallers (π : Platform) (appends : Word → Bool) (log : List (Nat × Item)) (t : Nat)
    (i : Item) : Prop :=
  t = 0 ∧ GlobCaller appends (globOwners π log) i

instance (appends : Word → Bool) (log : List (Nat × Item)) (t : Nat) (i : Item) :
    Decidable (globCallers π appends log t i) :=
  inferInstanceAs (Decidable (_ ∧ _))

/-- Runs of thread 0 in which every glob fits. -/
def globFitting (π : Platform) (appends : Word → Bool) (log : List (Nat × Item)) (t : Nat)
    (i : Item) : Prop :=
  globCallers π appends log t i ∧ GlobFits π (globOwners π log) i

instance (appends : Word → Bool) (log : List (Nat × Item)) (t : Nat) (i : Item) :
    Decidable (globFitting π appends log t i) :=
  inferInstanceAs (Decidable (_ ∧ _))

@[simp] theorem globOwners_snoc (log : List (Nat × Item)) (i : Nat × Item) :
    globOwners π (log ++ [i]) = globOwner π (globOwners π log) i := by
  simp [globOwners]

/-! ## One step -/

def GlobPhase.opening (π : Platform) : GlobPhase → List String
  | .gotten pglob => [π.pointerResourceId pglob]
  | _ => []

def GlobPhase.closing (π : Platform) : GlobPhase → List String
  | .freed pglob => [π.pointerResourceId pglob]
  | _ => []

def Owned (π : Platform) (owns : Word → Bool) (id : String) : Prop :=
  ∃ pglob, owns pglob = true ∧ π.pointerResourceId pglob = id

def globAccount (π : Platform) (owns : Word → Bool) (ph : GlobPhase) : Account String Unit where
  live := Owned π owns
  opening := fun _ => ph.opening π
  closing := fun _ => ph.closing π
  lost := fun _ => 0

structure GlobBooks (π : Platform) (owns : Word → Bool) (marks : String → List Bool)
    (ph : GlobPhase) : Prop where
  holds : ∀ pglob, ph = .freeing pglob → owns pglob = true
  agrees : (globAccount π owns ph).Agrees marks

theorem owned_acquire {owns : Word → Bool} {pglob : Word} (id : String) :
    Owned π (Function.update owns pglob true) id ↔
      Owned π owns id ∨ id ∈ [π.pointerResourceId pglob] := by
  constructor
  · rintro ⟨q, hq, rfl⟩
    by_cases hqp : q = pglob
    · exact .inr (by simp [hqp])
    · rw [Function.update_of_ne hqp] at hq
      exact .inl ⟨q, hq, rfl⟩
  · rintro (⟨q, hq, rfl⟩ | hid)
    · by_cases hqp : q = pglob
      · exact ⟨pglob, by simp, by rw [hqp]⟩
      · exact ⟨q, by rwa [Function.update_of_ne hqp], rfl⟩
    · exact ⟨pglob, by simp, (List.mem_singleton.mp hid).symm⟩

theorem owned_release {owns : Word → Bool} {pglob : Word} (id : String) :
    Owned π (Function.update owns pglob false) id ↔
      Owned π owns id ∧ id ∉ [π.pointerResourceId pglob] := by
  constructor
  · rintro ⟨q, hq, rfl⟩
    have hqp : q ≠ pglob := by
      rintro rfl
      simp at hq
    rw [Function.update_of_ne hqp] at hq
    refine ⟨⟨q, hq, rfl⟩, fun hm => hqp ?_⟩
    exact π.pointerResourceId_injective (List.mem_singleton.mp hm)
  · rintro ⟨⟨q, hq, rfl⟩, hm⟩
    have hqp : q ≠ pglob := by
      rintro rfl
      exact hm (by simp)
    exact ⟨q, by rwa [Function.update_of_ne hqp], rfl⟩

theorem not_owned {owns : Word → Bool} {pglob : Word} (h : owns pglob = false) :
    ¬ Owned π owns (π.pointerResourceId pglob) := by
  rintro ⟨q, hq, hid⟩
  rw [π.pointerResourceId_injective hid, h] at hq
  cases hq

theorem GlobBooks.moved {owns' : Word → Bool} {marks : String → List Bool} {ph' : GlobPhase}
    {A : Account String Unit} (ha : A.Agrees marks)
    (hh : ∀ pglob, ph' = .freeing pglob → owns' pglob = true)
    (hl : ∀ id, Owned π owns' id ↔ A.live id) (ho : ph'.opening π = A.opening ())
    (hc : ph'.closing π = A.closing ()) (hx : ∀ id, A.lost id = 0) : GlobBooks π owns' marks ph' where
  holds := hh
  agrees := ha.congr hl (funext fun _ => ho) (funext fun _ => hc) fun id => (hx id).symm

/-- A glob that fails leaves with its object what it had. -/
theorem globOwner_failed {owns : Word → Bool} {t id : Nat} {pattern flags errfunc pglob v : Word}
    {heard : List Word} {before after : Local} (h0 : v ≠ 0)
    (hfit : v = π.globAborted ∨ v = π.globNospace → owns pglob = true) :
    globOwner π owns (t, .event id ⟨.native .glob [pattern, flags, errfunc, pglob], heard, v, before,
      after⟩) = owns := by
  have h0' : ¬ v = 0 := h0
  simp only [globOwner, Platform.globKeeps, h0', false_or]
  split
  · next hk =>
    have howned := hfit (of_decide_eq_true hk)
    rw [← howned]
    exact Function.update_eq_self _ _
  · rfl

theorem GlobBooks.step {owns : Word → Bool} {marks : String → List Bool} {ph ph' : GlobPhase}
    {appends : Word → Bool} {t : Nat} {i : Item} (hb : GlobBooks π owns marks ph)
    (hcaller : GlobCaller appends owns i) (hfits : GlobFits π owns i)
    (hadv : (globTypestate π).Advance ph i ph') :
    GlobBooks π (globOwner π owns (t, i))
      (marked marks (Item.mark Record.globResult (fun _ => none) (t, i))) ph' := by
  have still : ∀ {ph₁ : GlobPhase}, (∀ pglob, ph₁ = .freeing pglob → owns pglob = true) →
      ph₁.opening π = ph.opening π → ph₁.closing π = ph.closing π → GlobBooks π owns marks ph₁ :=
    fun hh ho hc => .moved hb.agrees hh (fun _ => Iff.rfl) ho hc fun _ => rfl
  cases hadv with
  | @call id c base =>
    cases c with
    | globfree pglob =>
      refine still (fun q hq => ?_) rfl rfl
      cases hq
      exact hcaller
    | _ => exact still (fun q hq => by cases hq) rfl rfl
  | @event _ _ id e hstep =>
    obtain ⟨o, heard, v, before, after⟩ := e
    cases hstep with
    | inert hp hd =>
      have howner : globOwner π owns (t, .event id ⟨o, heard, v, before, after⟩) = owns := by
        cases o <;> first | rfl | cases hp
      have hmark : Item.mark Record.globResult (fun _ => none)
          (t, .event id ⟨o, heard, v, before, after⟩) = none := by
        cases o <;> first | rfl | exact hd
      rw [howner, hmark]
      exact hb
    | @other f args _ h1 h2 =>
      have howner : globOwner π owns (t, .event id ⟨.native f args, heard, v, before, after⟩) =
          owns := by
        cases f <;> first | rfl | exact absurd rfl h1 | exact absurd rfl h2
      rw [howner]
      exact hb
    | callback => exact hb
    | @glob _ _ _ pglob =>
      have hnew : owns pglob = false := hfits
      have hopen := hb.agrees.open () [π.pointerResourceId pglob] rfl
        (fun k hk => ⟨List.mem_singleton.mp hk ▸ not_owned hnew, fun u hu => by cases hu⟩) (by simp)
      exact .moved hopen (fun q hq => by cases hq) (fun k => owned_acquire k) rfl rfl fun _ => rfl
    | @globFailed pattern flags errfunc pglob _ h0 =>
      have hfit : v = π.globAborted ∨ v = π.globNospace → owns pglob = true := by
        simpa [GlobFits, h0] using hfits
      rw [globOwner_failed h0 hfit]
      exact hb
    | noteAcquire =>
      have htake := hb.agrees.take () _ [] rfl
      exact .moved htake (fun q hq => by cases hq) (fun _ => Iff.rfl) rfl rfl fun _ => rfl
    | @free pglob =>
      have hown : owns pglob = true := hb.holds pglob rfl
      have hclose := hb.agrees.close () [π.pointerResourceId pglob] rfl
        (fun k hk => ⟨⟨pglob, hown, (List.mem_singleton.mp hk).symm⟩, fun u hu => by cases hu⟩)
        (by simp)
      exact .moved hclose (fun q hq => by cases hq) (fun k => owned_release k) rfl rfl fun _ => rfl
    | noteRelease =>
      have hgive := hb.agrees.give () _ [] rfl
      exact .moved hgive (fun q hq => by cases hq) (fun _ => Iff.rfl) rfl rfl fun _ => rfl
  | exit hfinal =>
    have hidle : ph = .idle := hfinal
    subst hidle
    exact hb
  | act | invoke | returned | hand => exact hb

theorem globBooks_of_traced {appends : Word → Bool} {log : List (Nat × Item)}
    {phases : Nat → GlobPhase} (h : (globTypestate π).Traced (globFitting π appends) log phases) :
    GlobBooks π (globOwners π log) (globMarks log) (phases 0) := by
  induction h with
  | nil =>
    have hnone : ∀ id, ¬ Owned π (globOwners π []) id := by
      rintro id ⟨q, hq, -⟩
      cases hq
    exact .moved Account.agrees_nothing (fun q hq => by cases hq)
      (fun id => iff_false_intro (hnone id)) rfl rfl fun _ => rfl
  | @snoc log phases t i ph' _ ho hadv ih =>
    obtain rfl : t = 0 := ho.1.1
    have hmarks : globMarks (log ++ [(0, i)]) = marked (globMarks log)
        (Item.mark Record.globResult (fun _ => none) (0, i)) := marks_snoc _ log (0, i)
    rw [hmarks, globOwners_snoc, Function.update_self]
    exact ih.step ho.1.2 ho.2 hadv

/-- In runs in which every glob fits, the records of every object alternate, and after
every call the ledger holds exactly the objects that own a list. -/
theorem glob_balance {appends : Word → Bool}
    (h : Effect.Config.Reach (system π) (Config.admits (system π) (globFitting π appends))
      (startConfig heap) cfg) :
    (∀ id, Alternates (globMarks cfg.log id)) ∧
      (UserRuns cfg 0 → ∀ id, held (globMarks cfg.log id) = true ↔
        ∃ pglob, globOwners π cfg.log pglob = true ∧ π.pointerResourceId pglob = id) := by
  obtain ⟨phases, htr, hph⟩ := h.traced (globTypestate π)
  have hb := globBooks_of_traced htr
  refine ⟨fun id => hb.agrees.alternates id rfl, fun hu id => ?_⟩
  have hidle : phases 0 = .idle := idle_of_userRuns (fun _ hg => hg) (hph 0) hu
  have hsettled := hb.agrees.settled (fun _ => by simp [globAccount, hidle, GlobPhase.opening])
    (fun _ => by simp [globAccount, hidle, GlobPhase.closing]) id
  simpa [globAccount, Owned] using hsettled

/-! ## What does not fit -/

/-- glob on the object at `pglob` with these flags, which answers `v`; `n` operations
follow the native call. -/
def globs (flags pglob v : Word) (n : Nat) : List (Nat × Move) :=
  (0, .call (.glob 9 flags 0 pglob) 0 calm₀) :: runs 0 3 ++ answers 0 v ++ runs 0 n ++ [(0, .exit)]

def globfrees (pglob : Word) : List (Nat × Move) :=
  (0, .call (.globfree pglob) 0 calm₀) :: runs 0 2 ++ answers 0 0 ++ runs 0 2 ++ [(0, .exit)]

/-- GLOB_APPEND of glibc. -/
def glibcAppend (flags : Word) : Bool := flags / 32 % 2 = 1

/-- Appending to an object that owns a list acquires it again; a partial result on an empty
object is owned without being recorded. -/
theorem glob_misfits :
    (∃ cfg, (startConfig fun _ => 0).run (system linux)
        (Config.admits (system linux) (globCallers linux glibcAppend))
        (globs 0 1 0 2 ++ globs 32 1 0 2) = some cfg ∧
      ¬ Alternates (globMarks cfg.log (linux.pointerResourceId 1))) ∧
    ∃ cfg, (startConfig fun _ => 0).run (system linux)
        (Config.admits (system linux) (globCallers linux glibcAppend))
        (globs 0 1 linux.globAborted 2) = some cfg ∧ UserRuns cfg 0 ∧
      globOwners linux cfg.log 1 = true ∧
      held (globMarks cfg.log (linux.pointerResourceId 1)) = false := by
  constructor
  · have hrun : ((startConfig fun _ => 0).run (system linux)
        (Config.admits (system linux) (globCallers linux glibcAppend))
        (globs 0 1 0 2 ++ globs 32 1 0 2)).map
        (fun cfg => globMarks cfg.log (linux.pointerResourceId 1)) = some [true, true] := by decide
    obtain ⟨cfg, hcfg, hmarks⟩ := Option.map_eq_some_iff.mp hrun
    refine ⟨cfg, hcfg, ?_⟩
    rw [hmarks]
    intro halt
    have hsecond := halt 1 true rfl
    simp at hsecond
  · have hrun : ((startConfig fun _ => 0).run (system linux)
        (Config.admits (system linux) (globCallers linux glibcAppend))
        (globs 0 1 linux.globAborted 2)).map
        (fun cfg => (decide (UserRuns cfg 0), globOwners linux cfg.log 1,
          held (globMarks cfg.log (linux.pointerResourceId 1)))) = some (true, true, false) := by
      decide
    obtain ⟨cfg, hcfg, hstate⟩ := Option.map_eq_some_iff.mp hrun
    obtain ⟨hu, hrest⟩ := Prod.mk.inj hstate
    obtain ⟨hown, hheld⟩ := Prod.mk.inj hrest
    exact ⟨cfg, hcfg, of_decide_eq_true hu, hown, hheld⟩

/-- Two objects are filled and freed, one of them with a failing glob in between. -/
theorem glob_balance_two :
    ∃ cfg, (startConfig fun _ => 0).run (system linux)
        (Config.admits (system linux) (globFitting linux glibcAppend))
        (globs 0 1 0 2 ++ globs 0 2 0 2 ++ globs 32 1 linux.globAborted 2 ++ globfrees 1 ++
          globs 0 1 linux.globNomatch 1 ++ globs 32 1 0 2) = some cfg ∧
      ∀ id, held (globMarks cfg.log id) = true ↔
        ∃ pglob, globOwners linux cfg.log pglob = true ∧ linux.pointerResourceId pglob = id := by
  have hrun : ((startConfig fun _ => 0).run (system linux)
      (Config.admits (system linux) (globFitting linux glibcAppend))
      (globs 0 1 0 2 ++ globs 0 2 0 2 ++ globs 32 1 linux.globAborted 2 ++ globfrees 1 ++
        globs 0 1 linux.globNomatch 1 ++ globs 32 1 0 2)).map
      (fun cfg => decide (UserRuns cfg 0)) = some true := by decide
  obtain ⟨cfg, hcfg, hu⟩ := Option.map_eq_some_iff.mp hrun
  have hreach := Effect.Config.Reach.of_run .init hcfg
  exact ⟨cfg, hcfg, (glob_balance hreach).2 (of_decide_eq_true hu)⟩

end P101Filesystem
