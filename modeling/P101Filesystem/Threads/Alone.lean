import P101Filesystem.Effect.Separation
import P101Filesystem.Walk.Contexts

/-!
# Threads on their own

The pointers of ftw.c are thread-local, and its contexts live in the frames of the calls. So
threads that keep to their own memory do not disturb one another through the library: each
one goes through the run it would go through alone.
-/
namespace P101Filesystem

open Effect

/-! ## Memory of one's own -/

section
variable {owner : Word → Option Nat} {t u : Nat}

/-- An outside party writes memory of thread `t` only. -/
def Answer.within (owner : Word → Option Nat) (t : Nat) (a : Answer) : Bool :=
  a.writes.all fun w => owner w.1 = some t

/-- The word of ordinary memory an operation reads. -/
def Op.reads : Op → Option Word
  | .load p => some p
  | _ => none

/-- Thread `t` keeps to its own memory: there its outside parties write, its walks have their
frames, and its list of directory entries is. -/
def keepsTo (owner : Word → Option Nat) (t : Nat) (th : Thread) (m : Move) : Bool :=
  match m, th.stack with
  | .call c base a, _ => a.within owner t && (c.walk.isNone || owner base = some t)
  | .invoke _ a, _ => a.within owner t
  | .act _ a, _ => a.within owner t
  | .back _ a, _ => a.within owner t
  | .op _, .code _ _ (.perform o _) :: _ => o.reads.all fun p => owner p = some t
  | _, _ => true

/-- Both states are the same in the memory of thread `t`. -/
def Agrees (owner : Word → Option Nat) (t : Nat) (s s' : Shared) : Prop :=
  ∀ p, owner p = some t → s.cells p = s'.cells p ∧ s.heap p = s'.heap p

theorem Agrees.trans {s s' s'' : Shared} (h : Agrees owner t s s') (h' : Agrees owner t s' s'') :
    Agrees owner t s s'' :=
  fun p hp => ⟨(h p hp).1.trans (h' p hp).1, (h p hp).2.trans (h' p hp).2⟩

theorem written_alike {h h' : Word → Word} (writes : List (Word × Word)) {p : Word}
    (hp : h p = h' p) :
    writes.foldl (fun h w => Function.update h w.1 w.2) h p =
      writes.foldl (fun h w => Function.update h w.1 w.2) h' p := by
  induction writes generalizing h h' with
  | nil => exact hp
  | cons w writes ih =>
    refine ih ?_
    by_cases hw : p = w.1
    · simp [hw]
    · simp [Function.update_of_ne hw, hp]

theorem written_elsewhere {h : Word → Word} {writes : List (Word × Word)} {p : Word}
    (hp : ∀ w ∈ writes, p ≠ w.1) :
    writes.foldl (fun h w => Function.update h w.1 w.2) h p = h p := by
  induction writes generalizing h with
  | nil => rfl
  | cons w writes ih =>
    have hrest : ∀ w' ∈ writes, p ≠ w'.1 := fun w' hw' => hp w' (by simp [hw'])
    rw [List.foldl_cons, ih hrest, Function.update_of_ne (hp w (by simp))]

theorem Agrees.write {s s' : Shared} (h : Agrees owner t s s') (writes : List (Word × Word)) :
    Agrees owner t (s.write writes) (s'.write writes) :=
  fun p hp => ⟨(h p hp).1, written_alike writes (h p hp).2⟩

theorem Agrees.put {s s' : Shared} (h : Agrees owner t s s') (p : Word) (c : Option Context) :
    Agrees owner t (s.put p c) (s'.put p c) := by
  intro q hq
  refine ⟨?_, (h q hq).2⟩
  by_cases hqp : q = p
  · simp [hqp]
  · simp [Function.update_of_ne hqp, (h q hq).1]

/-- Writes of one thread are no business of another. -/
theorem agrees_written {a : Answer} (ha : a.within owner t = true) (hu : u ≠ t) (s : Shared) :
    Agrees owner u s (s.write a.writes) := by
  intro p hp
  refine ⟨rfl, (written_elsewhere fun w hw hpw => ?_).symm⟩
  simp only [Answer.within, List.all_eq_true, decide_eq_true_eq] at ha
  have hown := ha w hw
  rw [← hpw, hp] at hown
  exact hu (Option.some.inj hown)

theorem agrees_put {p : Word} (hp : owner p = some t) (hu : u ≠ t) (s : Shared)
    (c : Option Context) : Agrees owner u s (s.put p c) := by
  intro q hq
  have hqp : q ≠ p := by
    rintro rfl
    exact hu (Option.some.inj (hq.symm.trans hp))
  simp [Function.update_of_ne hqp]

end

/-! ## One step -/

section
variable {π : Platform} {owner : Word → Option Nat} {t u : Nat} {s s' : Shared} {l : Local}

/-- An operation does the same in both states when what it touches is the thread's. -/
theorem run_agrees {o : Op} (a : Answer) (h : Agrees owner t s s')
    (hread : ∀ p ∈ o.reads, owner p = some t)
    (hcontext : ∀ k p, o.context = some (k, p) → owner p = some t) :
    Option.Rel (fun r₁ r => (r₁.1 = r.1 ∧ r₁.2.2 = r.2.2) ∧ Agrees owner t r₁.2.1 r.2.1)
      (o.run a s l) (o.run a s' l) := by
  have same : ∀ k p, o.context = some (k, p) → s.context k p = s'.context k p := by
    intro k p hc
    rw [Shared.context, Shared.context, (h p (hcontext k p hc)).1]
  cases o with
  | native | callback => exact .none
  | load p =>
    have hp := (h p (hread p rfl)).2
    exact .some ⟨⟨hp, rfl⟩, h⟩
  | loadField k p f =>
    simp only [Op.run, same k p rfl]
    cases s'.context k p with
    | none => exact .none
    | some c => exact .some ⟨⟨rfl, rfl⟩, h⟩
  | storeField k p f v =>
    simp only [Op.run, same k p rfl]
    cases s'.context k p with
    | none => exact .none
    | some c => exact .some ⟨⟨rfl, rfl⟩, h.put p _⟩
  | _ => exact .some ⟨⟨rfl, rfl⟩, h⟩

theorem enter_agrees (c : Call) (base : Word) (a : Answer) (h : Agrees owner t s s')
    (hb : c.walk.isNone = true ∨ owner base = some t) :
    Option.Rel (Agrees owner t) (enterFrame c base a s) (enterFrame c base a s') := by
  cases hw : c.walk with
  | none =>
    simp only [enterFrame, hw]
    exact .some h
  | some w =>
    obtain ⟨k, fn⟩ := w
    have hbase : owner base = some t := by simpa [hw] using hb
    simp only [enterFrame, hw, (h base hbase).1]
    split
    · exact .some (h.put base _)
    · exact .none

theorem leave_agrees (c : Call) (base : Word) (h : Agrees owner t s s') :
    Agrees owner t (leaveFrame c base s) (leaveFrame c base s') := by
  unfold leaveFrame
  split
  · exact h
  · exact h.put base none

theorem step_agrees {th : Thread} {m : Move} {n : Nat} (h : Agrees owner t s s')
    (hl : keepsTo owner t th m = true)
    (hcontext : ∀ id act o next below k p, th.stack = .code id act (.perform o next) :: below →
      o.context = some (k, p) → owner p = some t) :
    Option.Rel (fun r₁ r => r₁.2 = r.2 ∧ Agrees owner t r₁.1 r.1)
      (th.step (system π) n s m) (th.step (system π) n s' m) := by
  obtain ⟨l, stack⟩ := th
  cases stack with
  | nil => cases m <;> exact .none
  | cons f below =>
    cases f with
    | outside g heard since =>
      cases m with
      | call c base a =>
        simp only [keepsTo, Bool.and_eq_true, Bool.or_eq_true, decide_eq_true_eq] at hl
        have henter : Option.Rel (Agrees owner t)
            ((system π).enter c base a ((system π).disturb a s l).1)
            ((system π).enter c base a ((system π).disturb a s' l).1) :=
          enter_agrees c base a (h.write a.writes) hl.2
        simp only [Thread.step]
        by_cases hp : (system π).permits g c = true
        · rw [if_pos hp, if_pos hp]
          generalize (system π).enter c base a ((system π).disturb a s l).1 = r₁ at henter ⊢
          generalize (system π).enter c base a ((system π).disturb a s' l).1 = r at henter ⊢
          cases henter with
          | none => exact .none
          | some hs => exact .some ⟨rfl, hs⟩
        · rw [if_neg hp, if_neg hp]
          exact .none
      | invoke g' a =>
        simp only [Thread.step]
        by_cases hi : (system π).invokes g g' = true
        · rw [if_pos hi, if_pos hi]
          exact .some ⟨rfl, h.write a.writes⟩
        · rw [if_neg hi, if_neg hi]
          exact .none
      | act x a =>
        simp only [Thread.step]
        by_cases ha : (system π).acts g x = true
        · rw [if_pos ha, if_pos ha]
          exact .some ⟨rfl, h.write a.writes⟩
        · rw [if_neg ha, if_neg ha]
          exact .none
      | back v a =>
        cases below with
        | nil => exact .none
        | cons f below =>
          cases f with
          | outside g' heard' since' => exact .some ⟨rfl, h.write a.writes⟩
          | code id act rest =>
            cases rest with
            | done v => exact .none
            | perform o next => exact .some ⟨rfl, h.write a.writes⟩
      | op | hand | exit => exact .none
    | code id act rest =>
      cases rest with
      | done v =>
        cases m with
        | exit =>
          cases below with
          | nil => exact .none
          | cons f below =>
            cases f with
            | outside g heard since => exact .some ⟨rfl, leave_agrees act.entry act.base h⟩
            | code => exact .none
        | _ => exact .none
      | perform o next =>
        cases m with
        | op a =>
          have hread : ∀ p ∈ o.reads, owner p = some t := by
            simpa [keepsTo, Option.all_eq_true] using hl
          have hrun : Option.Rel (fun r₁ r => (r₁.1 = r.1 ∧ r₁.2.2 = r.2.2) ∧
              Agrees owner t r₁.2.1 r.2.1) ((system π).run o a s l) ((system π).run o a s' l) :=
            run_agrees a h hread fun k p hc => hcontext id act o next below k p rfl hc
          simp only [Thread.step]
          cases (system π).party o with
          | some g => exact .none
          | none =>
            generalize (system π).run o a s l = r₁ at hrun ⊢
            generalize (system π).run o a s' l = r at hrun ⊢
            cases hrun with
            | none => exact .none
            | @some r₁ r hr =>
              obtain ⟨v₁, s₁, l₁⟩ := r₁
              obtain ⟨v, s₂, l₂⟩ := r
              obtain ⟨⟨rfl, rfl⟩, hs⟩ := hr
              exact .some ⟨rfl, hs⟩
        | hand =>
          simp only [Thread.step]
          cases (system π).party o with
          | none => exact .none
          | some g => exact .some ⟨rfl, h⟩
        | _ => exact .none

/-- A step touches nothing that belongs to another thread. -/
theorem step_elsewhere {th th' : Thread} {m : Move} {n : Nat} {i : Item}
    (h : Effect.Thread.Stepped (system π) n s th m s' th' i) (hl : keepsTo owner t th m = true)
    (hframes : ∀ p ∈ contexts th.stack, owner p = some t)
    (hcontext : ∀ id act o next below k p, th.stack = .code id act (.perform o next) :: below →
      o.context = some (k, p) → owner p = some t) (hu : u ≠ t) : Agrees owner u s s' := by
  cases h with
  | @call l _ g heard since below c base a hp he =>
    simp only [keepsTo, Bool.and_eq_true, Bool.or_eq_true, decide_eq_true_eq] at hl
    have hwritten := agrees_written hl.1 hu s
    have henter : enterFrame c base a (s.write a.writes) = some s' := he
    cases hw : c.walk with
    | none =>
      simp only [enterFrame, hw, Option.some.injEq] at henter
      exact henter ▸ hwritten
    | some w =>
      obtain ⟨k, fn⟩ := w
      have hbase : owner base = some t := by simpa [hw] using hl.2
      simp only [enterFrame, hw, Option.ite_none_right_eq_some, Option.some.injEq] at henter
      obtain ⟨-, rfl⟩ := henter
      exact hwritten.trans (agrees_put hbase hu _ _)
  | invoke | act | back | backOutside => exact agrees_written hl hu s
  | @op l id act o next below a v _ l' hp hr =>
    have hrun : o.run a s l = some (v, s', l') := hr
    cases o with
    | storeField k p f w =>
      obtain ⟨c, hc, hk, rfl, -⟩ := storeField_run hrun
      exact agrees_put (hcontext id act _ next below k p rfl rfl) hu _ _
    | loadField k p f =>
      obtain ⟨c, hc, hk, -, rfl, -⟩ := loadField_run hrun
      exact fun _ _ => ⟨rfl, rfl⟩
    | native | callback => cases hrun
    | _ =>
      simp only [Op.run, Option.some.injEq, Prod.mk.injEq] at hrun
      obtain ⟨-, rfl, -⟩ := hrun
      exact fun _ _ => ⟨rfl, rfl⟩
  | hand => exact fun _ _ => ⟨rfl, rfl⟩
  | @exit l id act v g heard since below =>
    cases hw : act.entry.walk with
    | none =>
      have hleave : (system π).leave act.entry act.base s = s := by
        simp [system, leaveFrame, hw]
      rw [hleave]
      exact fun _ _ => ⟨rfl, rfl⟩
    | some w =>
      have hleave : (system π).leave act.entry act.base s = s.put act.base none := by
        simp [system, leaveFrame, hw]
      rw [hleave]
      exact agrees_put (hframes act.base (by simp [contexts, hw])) hu _ _

/-- The frames of a thread's walks stay in its memory. -/
theorem step_frames {th th' : Thread} {m : Move} {n : Nat} {i : Item}
    (h : Effect.Thread.Stepped (system π) n s th m s' th' i) (hl : keepsTo owner t th m = true)
    (hframes : ∀ p ∈ contexts th.stack, owner p = some t) :
    ∀ p ∈ contexts th'.stack, owner p = some t := by
  cases h with
  | @call l _ g heard since below c base a hp he =>
    simp only [keepsTo, Bool.and_eq_true, Bool.or_eq_true, decide_eq_true_eq] at hl
    intro p hp
    cases hw : c.walk with
    | none => exact hframes p (by simpa [contexts, hw] using hp)
    | some w =>
      simp only [contexts, hw, Option.isSome_some, if_true, List.mem_cons] at hp
      rcases hp with rfl | hp
      · simpa [hw] using hl.2
      · exact hframes p hp
  | @exit l id act v g heard since below =>
    intro p hp
    refine hframes p ?_
    cases hw : act.entry.walk with
    | none => simpa [contexts, hw] using hp
    | some w =>
      simp only [contexts, hw, Option.isSome_some, if_true]
      exact List.mem_cons_of_mem _ hp
  | invoke | act | back | backOutside | op | hand => exact hframes

theorem keepsTo_unnumbered (th : Thread) (m : Move) :
    keepsTo owner t th.unnumbered m = keepsTo owner t th m := by
  obtain ⟨l, stack⟩ := th
  cases m with
  | op a =>
    cases stack with
    | nil => rfl
    | cons f below =>
      cases f with
      | outside => rfl
      | code id act rest => cases rest <;> rfl
  | _ => rfl

end

/-! ## Runs -/

section
variable (π : Platform) (owner : Word → Option Nat)

/-- What the steps of threads that keep to their memory maintain. -/
structure KeptApart (cfg : Config) : Prop where
  linked : Stacks cfg
  accounted : Config.Accounted (system π) cfg
  frames : ∀ t, ∀ p ∈ contexts (cfg.threads t).stack, owner p = some t

variable {π owner} {cfg cfg' : Config} {t : Nat} {m : Move}

/-- A context that is about to be used is in a frame of the thread. -/
theorem KeptApart.context (h : KeptApart π owner cfg) :
    ∀ id act o next below k p, (cfg.threads t).stack = .code id act (.perform o next) :: below →
      o.context = some (k, p) → owner p = some t := by
  intro id act o next below k p hstack ho
  have hholds := (h.linked.stacked t).walksHold (h.accounted.sound t)
  refine h.frames t p ?_
  obtain ⟨-, -, hwhere⟩ := hholds.defined id act o next below k p hstack ho
  rcases hwhere with ⟨hw, rfl⟩ | hmem
  · rw [hstack]
    simp [contexts, hw]
  · exact openWalks_subset k _ p hmem

theorem KeptApart.step (h : KeptApart π owner cfg)
    (hl : keepsTo owner t (cfg.threads t) m = true) (hs : cfg.step (system π) t m = some cfg') :
    KeptApart π owner cfg' := by
  refine ⟨h.linked.step h.accounted hs, h.accounted.step hs, fun u => ?_⟩
  obtain ⟨s, th, i, hst, rfl⟩ := Config.stepped hs
  by_cases hu : u = t
  · subst hu
    simpa using step_frames hst hl (h.frames u)
  · simpa [Function.update_of_ne hu] using h.frames u

variable (π owner) in
def memorySeparation : Separation (system π) where
  Legal := fun t th m => keepsTo owner t th m = true
  Sees := Agrees owner
  Good := KeptApart π owner
  legal := by
    intro t th th' m hth hl
    rw [← keepsTo_unnumbered, ← hth, keepsTo_unnumbered]
    exact hl
  good := fun h hl hs => h.step hl hs
  own := fun h hl hsees => step_agrees hsees hl h.context
  other := by
    intro cfg cfg' t u m s h hl hs hu hsees
    obtain ⟨s', th, i, hst, rfl⟩ := Config.stepped hs
    exact hsees.trans (step_elsewhere hst hl (h.frames t) h.context hu)

instance (t : Nat) (th : Thread) (m : Move) :
    Decidable ((memorySeparation π owner).Legal t th m) :=
  inferInstanceAs (Decidable (keepsTo owner t th m = true))

/-- A run of any number of threads that keep to their own memory is a run of each thread on its
own: whatever the others do and however they are scheduled, it does the same, calls and events
and results, and its memory is the same. And runs of threads on their own can be interleaved in
any order. -/
theorem threads_alone (π : Platform) (owner : Word → Option Nat) (heap : Word → Word)
    (moves : List (Nat × Move)) :
    (∀ cfg, (startConfig heap).run (system π)
        (fun cfg t m => keepsTo owner t (cfg.threads t) m = true) moves = some cfg →
      ∀ t, ∃ σ, (startSolo heap).run (system π) (fun σ m => keepsTo owner t σ.thread m = true)
          (ofThread t moves) = some σ ∧
        (memorySeparation π owner).Alone t σ cfg) ∧
    ((∀ t, ∃ σ, (startSolo heap).run (system π)
        (fun σ m => keepsTo owner t σ.thread m = true) (ofThread t moves) = some σ) →
      ∃ cfg, (startConfig heap).run (system π)
        (fun cfg t m => keepsTo owner t (cfg.threads t) m = true) moves = some cfg) := by
  have hstart : KeptApart π owner (startConfig heap) :=
    ⟨stacks_start heap, Config.accounted_init _ _ _ _, fun t p hp => by
      simp [startConfig, Effect.Config.init, contexts] at hp⟩
  have halone : ∀ t, (memorySeparation π owner).Alone t (startSolo heap) (startConfig heap) :=
    fun t => ⟨rfl, rfl, fun _ _ => ⟨rfl, rfl⟩⟩
  exact (memorySeparation π owner).run_alone moves hstart halone

end

/-- Thread 0 has the memory below 150 and thread 1 the rest. -/
def split150 (p : Word) : Option Nat := some (if p < 150 then 0 else 1)

/-- The walks of two threads, with frames on either side of 150. -/
theorem threads_alone_walks :
    ∃ cfg σ, (startConfig fun _ => 0).run (system linux)
        (fun cfg t m => keepsTo split150 t (cfg.threads t) m = true) twoThreads = some cfg ∧
      (startSolo fun _ => 0).run (system linux)
        (fun σ m => keepsTo split150 0 σ.thread m = true) (ofThread 0 twoThreads) = some σ ∧
      (memorySeparation linux split150).Alone 0 σ cfg := by
  have hrun : ((startConfig fun _ => 0).run (system linux)
      (fun cfg t m => keepsTo split150 t (cfg.threads t) m = true) twoThreads).isSome = true := by
    decide
  obtain ⟨cfg, hcfg⟩ := Option.isSome_iff_exists.mp hrun
  obtain ⟨σ, hσ, halone⟩ := (threads_alone linux split150 (fun _ => 0) twoThreads).1 cfg hcfg 0
  exact ⟨cfg, σ, hcfg, hσ, halone⟩

end P101Filesystem
