import P101Filesystem.Walk.Play
import Mathlib.Algebra.Order.BigOperators.Group.List
import Mathlib.Algebra.Order.Ring.Nat

/-!
# The trampolines are transparent

A program of walks is run twice against the same environment: through the wrappers, and
with the native walks calling the callbacks themselves. The callbacks decide from what has
been observed so far, a native walk also from its own arguments and from what it has heard
from the function it was given. So the two runs agree if the wrappers pass all of it on.
-/
namespace P101Filesystem

open Effect

/-- What the callbacks and the callers of walks see. -/
inductive Obs where
  | started (c : Call)
  | invoked (fn : Word) (args : List Word)
  | answered (v : Word)
  | returned (v : Word)
  deriving DecidableEq, Repr

inductive UserMove where
  | walk (w : WalkCall) (valid : ¬ w.Rejected)
  | answer (v : Word)

inductive NativeMove where
  | visit (v : Visit)
  | finish (v : Word)

/-- The callbacks with the main program, and the native walks. A native walk knows its
arguments and what its calls of the function it was given have returned. -/
structure Environment where
  user : List Obs → UserMove
  native (k : Kind) (args heard : List Word) (log : List Obs) : NativeMove

/-! ## Without the wrappers -/

inductive Control where
  | user
  | native (w : WalkCall) (heard : List Word)

/-- A native walk whose callback is running. -/
structure Visiting where
  walk : WalkCall
  heard : List Word
  visit : Visit

/-- Who is in control, and the walks that wait for their callbacks, innermost first. -/
structure Direct where
  control : Control
  visiting : List Visiting
  log : List Obs

def Direct.start (d : Direct) (w : WalkCall) : Direct :=
  ⟨.native w [], d.visiting, d.log ++ [.started w.call]⟩

/-- A callback returns to the walk that called it. -/
def Direct.answer (d : Direct) (v : Word) : Direct :=
  match d.visiting with
  | x :: rest => ⟨.native x.walk (x.heard ++ [v]), rest, d.log ++ [.answered v]⟩
  | [] => d

/-- A native walk calls the function it was given. -/
def Direct.step (env : Environment) (d : Direct) : Direct :=
  match d.control with
  | .native w heard =>
    match env.native w.kind w.args heard d.log with
    | .visit v => ⟨.user, ⟨w, heard, v⟩ :: d.visiting, d.log ++ [.invoked w.fn (v.args w.kind)]⟩
    | .finish v => ⟨.user, d.visiting, d.log ++ [.returned v]⟩
  | .user =>
    match env.user d.log with
    | .walk w _ => d.start w
    | .answer v => d.answer v

def Visiting.levels (x : Visiting) : List Level :=
  [.callback x.walk.fn (x.visit.args x.walk.kind), .walk x.walk]

/-- The walks called and not returned, with the callbacks they wait for. -/
def Direct.levels (d : Direct) : List Level :=
  match d.control with
  | .native w _ => .walk w :: d.visiting.flatMap Visiting.levels
  | .user => d.visiting.flatMap Visiting.levels

/-- What each of these walks has heard. -/
def Direct.heards (d : Direct) : List (List Word) :=
  match d.control with
  | .native _ heard => heard :: d.visiting.map Visiting.heard
  | .user => d.visiting.map Visiting.heard

def direct (env : Environment) : Nat → Direct
  | 0 => ⟨.user, [], []⟩
  | n + 1 => (direct env n).step env

/-! ## Through the wrappers -/

def observe : Item → Option Obs
  | .call _ c _ => if c.walk.isSome then some (.started c) else none
  | .hand _ (.callback fn args) => some (.invoked fn args)
  | .event _ e => (callbackOf e).map fun _ => .answered e.answer
  | .exit _ act v => if act.entry.walk.isSome then some (.returned v) else none
  | _ => none

def observed (log : List Item) : List Obs := log.filterMap observe

/-- What the environment does not decide: the answers of the p101_env hooks, which inject
nothing, what a party leaves in errno and memory, and where a frame is put. -/
structure Surroundings where
  answer : Solo → Answer
  silent : ∀ σ, (answer σ).word = 0
  left : Solo → Answer
  place : Solo → Word
  place_ne_null : ∀ σ, place σ ≠ NULL
  place_fresh : ∀ σ, place σ ∉ bases σ.thread.stack

/-- There is always room for another frame. -/
instance : Inhabited Surroundings where
  default :=
    { answer := fun _ => ⟨0, 0, []⟩
      silent := fun _ => rfl
      left := fun _ => ⟨0, 0, []⟩
      place := fun σ => (((bases σ.thread.stack).map Int.natAbs).sum + 1 : Nat)
      place_ne_null := by
        intro σ
        exact Int.natCast_ne_zero.mpr (Nat.succ_ne_zero _)
      place_fresh := by
        intro σ hm
        have hmap : (((bases σ.thread.stack).map Int.natAbs).sum + 1) ∈
            (bases σ.thread.stack).map Int.natAbs := List.mem_map.mpr ⟨_, hm, Int.natAbs_natCast _⟩
        have hle := List.single_le_sum (fun _ _ => Nat.zero_le _) _ hmap
        omega }

section
variable (π : Platform) (env : Environment) (sur : Surroundings)

def start (w : WalkCall) (σ : Solo) : Option Solo :=
  σ.play (system π) sur.answer (.call w.call (sur.place σ) (sur.left σ))

def reply (v : Word) (σ : Solo) : Option Solo :=
  σ.play (system π) sur.answer (.back v (sur.left σ))

def nativeTurn (k : Kind) (args : List Word) (σ : Solo) : Option Solo :=
  match env.native k args σ.thread.heard (observed σ.log) with
  | .visit v => σ.play (system π) sur.answer (.call (v.call k) (sur.place σ) (sur.left σ))
  | .finish v => reply π sur v σ

def wrappedStep (σ : Solo) : Option Solo :=
  match σ.thread.party with
  | some (.native .ftw args) => nativeTurn π env sur .ftw args σ
  | some (.native .nftw args) => nativeTurn π env sur .nftw args σ
  | some (.user _ _) =>
    match env.user (observed σ.log) with
    | .walk w _ => start π sur w σ
    | .answer v => reply π sur v σ
  | some .main =>
    match env.user (observed σ.log) with
    | .walk w _ => start π sur w σ
    | .answer _ => some σ
  | _ => none

def wrapped (heap : Word → Word) : Nat → Option Solo
  | 0 => some (startSolo heap)
  | n + 1 => (wrapped heap n).bind (wrappedStep π env sur)

end

/-! ## They agree -/

@[simp] theorem observed_append (log log' : List Item) :
    observed (log ++ log') = observed log ++ observed log' := List.filterMap_append

theorem observed_events {es : List Event} (id : Nat) (h : callbacks es = []) :
    observed (es.map (.event id)) = [] := by
  induction es with
  | nil => rfl
  | cons e es ih =>
    rw [callbacks_cons, List.append_eq_nil_iff] at h
    obtain ⟨he, hes⟩ := h
    have hnone : callbackOf e = none := by simpa using he
    have htail := ih hes
    unfold observed at htail ⊢
    simp [observe, hnone, htail]

/-- Each stretch of library code is observed at its two ends only. -/
theorem observed_stretch {es : List Event} (log : List Item) (i j : Item) (id : Nat)
    (h : callbacks es = []) :
    observed (log ++ [i] ++ es.map (.event id) ++ [j]) =
      observed log ++ (observe i).toList ++ (observe j).toList := by
  have hmid := observed_events id h
  rw [observed_append, observed_append, observed_append, hmid, List.append_nil]
  congr 2

/-- The wrapped run stands where the direct run does, with native walks that have heard the
same, and has been observed alike. -/
structure Mirrors (π : Platform) (σ : Solo) (d : Direct) : Prop where
  standing : ∃ bs, Standing π σ bs d.levels
  heards : nativeHeard σ.thread.stack = d.heards
  alike : observed σ.log = d.log

variable {π : Platform} {sur : Surroundings} {σ : Solo} {visiting : List Visiting} {log : List Obs}

/-- Nothing is injected, so a walk with valid arguments is not refused. -/
theorem Surroundings.not_refused (sur : Surroundings) {w : WalkCall} (hv : ¬ w.Rejected)
    (c code : Word) : ¬ Refused π sur.answer w c code := by
  intro hr
  cases hr with
  | faulted hne => exact hne (sur.silent _)
  | rejected hw => exact hv hw

theorem Mirrors.party {d : Direct} (h : Mirrors π σ d) :
    σ.thread.party = some (partyOf d.levels) := by
  obtain ⟨bs, hst⟩ := h.standing
  exact hst.party

/-- A native walk in control has heard what it has in the direct run. -/
theorem Mirrors.heard {w : WalkCall} {heard : List Word}
    (h : Mirrors π σ ⟨.native w heard, visiting, log⟩) : σ.thread.heard = heard := by
  obtain ⟨rest, hrest⟩ := nativeHeard_of_party h.party
  exact (List.cons.inj (hrest.symm.trans h.heards)).1

/-- Between moves of native walks, main or a callback is in control. -/
theorem permits_of_user (visiting : List Visiting) (log : List Obs) (w : WalkCall) :
    (partyOf (Direct.mk .user visiting log).levels).permits w.call = true := by
  cases visiting with
  | nil => exact Nest.permits_main w
  | cons x rest => exact Nest.permits_user w _ _

theorem Mirrors.start {w : WalkCall} (h : Mirrors π σ ⟨.user, visiting, log⟩)
    (hv : ¬ w.Rejected) :
    ∃ σ', P101Filesystem.start π sur w σ = some σ' ∧
      Mirrors π σ' (Direct.start ⟨.user, visiting, log⟩ w) := by
  obtain ⟨⟨bs, hst⟩, hheards, halike⟩ := h
  have hfresh : σ.shared.cells (sur.place σ) = none := by
    by_contra hc
    exact sur.place_fresh σ (hst.nest.subset_bases _ (hst.inScope _ hc))
  obtain ⟨σ', hplay, hout⟩ := play_start sur.answer (sur.left σ) hst
    (permits_of_user visiting log w) (sur.place_ne_null σ) hfresh
  refine ⟨σ', hplay, ?_⟩
  rcases hout with ⟨es, c, code, l₀, hr, -⟩ | ⟨es, -, hes, hst', -, hheards', hlog⟩
  · exact absurd hr (sur.not_refused hv c code)
  · refine ⟨⟨_, hst'⟩, ?_, ?_⟩
    · rw [hheards', hheards]
      rfl
    · rw [hlog, observed_stretch _ _ _ _ hes.callbacks, halike, Direct.start]
      simp [observe]

theorem Mirrors.visit {w : WalkCall} {heard : List Word} {v : Visit}
    (h : Mirrors π σ ⟨.native w heard, visiting, log⟩) :
    ∃ σ', σ.play (system π) sur.answer (.call (v.call w.kind) (sur.place σ) (sur.left σ)) =
        some σ' ∧
      Mirrors π σ' ⟨.user, ⟨w, heard, v⟩ :: visiting, log ++ [.invoked w.fn (v.args w.kind)]⟩ := by
  obtain ⟨⟨bs, hst⟩, hheards, halike⟩ := h
  obtain ⟨σ', hplay, hst', -, hheards', es, hes, hlog⟩ :=
    play_visit sur.answer v (sur.place σ) (sur.left σ) hst
  refine ⟨σ', hplay, ⟨_, hst'⟩, hheards'.trans hheards, ?_⟩
  rw [hlog, observed_stretch _ _ _ _ hes.callbacks, halike]
  simp [observe]

/-- What a callback answers is what its native walk hears. -/
theorem Mirrors.answer {x : Visiting} {v : Word} (h : Mirrors π σ ⟨.user, x :: visiting, log⟩) :
    ∃ σ', reply π sur v σ = some σ' ∧
      Mirrors π σ' ⟨.native x.walk (x.heard ++ [v]), visiting, log ++ [.answered v]⟩ := by
  obtain ⟨⟨bs, hst⟩, hheards, halike⟩ := h
  obtain ⟨σ', hplay, hst', ⟨heard, rest, hbefore, hafter, -⟩, id, e, es, act, hop, ha, hes, hw,
    hlog⟩ := play_answer sur.answer v (sur.left σ) hst
  obtain ⟨rfl, rfl⟩ := List.cons.inj (hbefore.symm.trans hheards)
  refine ⟨σ', hplay, ⟨_, hst'⟩, hafter, ?_⟩
  rw [hlog, observed_stretch _ _ _ _ hes.callbacks, halike]
  simp [observe, callbackOf, hop, ha, hw]

theorem Mirrors.finish {w : WalkCall} {heard : List Word} {v : Word}
    (h : Mirrors π σ ⟨.native w heard, visiting, log⟩) :
    ∃ σ', reply π sur v σ = some σ' ∧ Mirrors π σ' ⟨.user, visiting, log ++ [.returned v]⟩ := by
  obtain ⟨⟨bs, hst⟩, hheards, halike⟩ := h
  obtain ⟨σ', bs', hplay, hst', hbefore, -, id, e, past, es, act, hop, -, -, -, -, hes, -, hact, -,
    hlog⟩ := play_finish sur.answer v (sur.left σ) hst
  refine ⟨σ', hplay, ⟨_, hst'⟩, (List.cons.inj (hbefore.symm.trans hheards)).2, ?_⟩
  rw [hlog, observed_stretch _ _ _ _ hes.callbacks, halike]
  simp [observe, callbackOf, hop, hact]

variable (sur) (env : Environment)

theorem wrappedStep_native {k : Kind} {args : List Word}
    (h : σ.thread.party = some (.native k.api args)) :
    wrappedStep π env sur σ = nativeTurn π env sur k args σ := by
  unfold wrappedStep
  rw [h]
  cases k <;> rfl

/-- One move of the environment keeps the two runs together. -/
theorem Mirrors.step {d : Direct} (h : Mirrors π σ d) :
    ∃ σ', wrappedStep π env sur σ = some σ' ∧ Mirrors π σ' (d.step env) := by
  obtain ⟨control, visiting, log⟩ := d
  cases control with
  | native w heard =>
    rw [wrappedStep_native sur env h.party]
    simp only [nativeTurn, Direct.step, h.heard, h.alike]
    cases env.native w.kind w.args heard log with
    | visit v => exact h.visit
    | finish v => exact h.finish
  | user =>
    cases visiting with
    | nil =>
      simp only [wrappedStep, Direct.step, show σ.thread.party = some .main from h.party, h.alike]
      cases env.user log with
      | walk w hv => exact h.start hv
      | answer v => exact ⟨σ, rfl, h⟩
    | cons x rest =>
      have hparty : σ.thread.party = some (.user x.walk.fn (x.visit.args x.walk.kind)) := h.party
      simp only [wrappedStep, Direct.step, hparty, h.alike]
      cases env.user log with
      | walk w hv => exact h.start hv
      | answer v => exact h.answer

/-- The wrapped run is a run of the machine. -/
theorem wrapped_reach {heap : Word → Word} {n : Nat} (h : wrapped π env sur heap n = some σ) :
    Effect.Solo.Reach (system π) (fun _ _ => True) (startSolo heap) σ := by
  induction n generalizing σ with
  | zero =>
    rw [wrapped, Option.some.injEq] at h
    exact h ▸ .init
  | succ n ih =>
    obtain ⟨mid, hmid, hstep⟩ := Option.bind_eq_some_iff.mp h
    have hr := ih hmid
    have plays : ∀ m, mid.play (system π) sur.answer m = some σ →
        Effect.Solo.Reach (system π) (fun _ _ => True) (startSolo heap) σ := fun m hm =>
      hr.play (fun _ _ => trivial) (fun _ => trivial) (fun _ => trivial) trivial hm
    have turn : ∀ k args, nativeTurn π env sur k args mid = some σ →
        Effect.Solo.Reach (system π) (fun _ _ => True) (startSolo heap) σ := by
      intro k args hk
      unfold nativeTurn at hk
      split at hk <;> exact plays _ hk
    unfold wrappedStep at hstep
    split at hstep
    · exact turn .ftw _ hstep
    · exact turn .nftw _ hstep
    · split at hstep <;> exact plays _ hstep
    · split at hstep
      · exact plays _ hstep
      · rw [Option.some.injEq] at hstep
        exact hstep ▸ hr
    · cases hstep

/-- After any number of moves the wrapped run has done nothing undefined, and every
callback invocation, callback result and walk result is the one of the direct run. Who is in
control and with which arguments is the same, and so is what each open native walk has heard. -/
theorem walks_transparent (π : Platform) (env : Environment) (sur : Surroundings)
    (heap : Word → Word) (n : Nat) :
    ∃ σ, wrapped π env sur heap n = some σ ∧
      Effect.Solo.Reach (system π) (fun _ _ => True) (startSolo heap) σ ∧
      observed σ.log = (direct env n).log ∧
      σ.thread.party = some (partyOf (direct env n).levels) ∧
      nativeHeard σ.thread.stack = (direct env n).heards := by
  have mirrors : ∃ σ, wrapped π env sur heap n = some σ ∧ Mirrors π σ (direct env n) := by
    induction n with
    | zero => exact ⟨_, rfl, ⟨[], standing_start π heap⟩, rfl, rfl⟩
    | succ n ih =>
      obtain ⟨σ, hrun, hm⟩ := ih
      obtain ⟨σ', hstep, hm'⟩ := hm.step sur env
      exact ⟨σ', by rw [wrapped, hrun, Option.bind_some, hstep], hm'⟩
  obtain ⟨σ, hrun, hm⟩ := mirrors
  exact ⟨σ, hrun, wrapped_reach sur env hrun, hm.alike, hm.party, hm.heards⟩

end P101Filesystem
