import P101Filesystem.Effect.Observation
import Mathlib.Data.Option.Basic

/-!
# Threads that keep apart

A thread sees a part of the shared state. When no thread touches what another one sees, a run
of many threads is nothing but their runs on their own: each thread goes through the same run
as if it were alone, but for the numbers of its calls, and runs of threads on their own can be
put together in any order.
-/
namespace P101Filesystem.Effect

variable {Op V G C A S L X : Type}

/-! ## Numbers -/

/-- Calls are numbered by their place in the log, so a thread alone numbers its calls
differently. -/
def Frame.unnumbered : Frame Op V G C L → Frame Op V G C L
  | .code _ act rest => .code 0 act rest
  | .outside g heard since => .outside g heard since

def Thread.unnumbered (th : Thread Op V G C L) : Thread Op V G C L :=
  ⟨th.loc, th.stack.map Frame.unnumbered⟩

def Item.unnumbered : Item Op V G C L X → Item Op V G C L X
  | .call _ c base => .call 0 c base
  | .event _ e => .event 0 e
  | .hand _ op => .hand 0 op
  | .exit _ done v => .exit 0 done v
  | .invoke g => .invoke g
  | .act x => .act x
  | .returned v => .returned v

@[simp] theorem Frame.unnumbered_idem :
    (Frame.unnumbered ∘ Frame.unnumbered : Frame Op V G C L → Frame Op V G C L) =
      Frame.unnumbered := by
  funext f
  cases f <;> rfl

/-- What a move leads to, but for numbers. -/
def stripped (r : S × Thread Op V G C L × Item Op V G C L X) :
    S × Thread Op V G C L × Item Op V G C L X :=
  (r.1, r.2.1.unnumbered, r.2.2.unnumbered)

/-- Numbers do not matter to a step. -/
theorem step_unnumbered (sys : System Op V G C A S L X) (fresh : Nat) (s : S)
    (th : Thread Op V G C L) (m : Move V G C A X) :
    (th.step sys fresh s m).map stripped = (th.unnumbered.step sys 0 s m).map stripped := by
  obtain ⟨l, stack⟩ := th
  cases stack with
  | nil => cases m <;> rfl
  | cons f below =>
    cases f with
    | outside g heard since =>
      cases m with
      | call c base a =>
        simp only [Thread.step, Thread.unnumbered, Frame.unnumbered, List.map_cons]
        split
        · simp only [Option.map_map]
          congr 1
          funext s'
          simp [stripped, Thread.unnumbered, Frame.unnumbered, Item.unnumbered]
        · rfl
      | invoke g' a =>
        simp only [Thread.step, Thread.unnumbered, Frame.unnumbered, List.map_cons]
        split
        · simp [stripped, Thread.unnumbered, Frame.unnumbered, Item.unnumbered]
        · rfl
      | act x a =>
        simp only [Thread.step, Thread.unnumbered, Frame.unnumbered, List.map_cons]
        split
        · simp [stripped, Thread.unnumbered, Frame.unnumbered, Item.unnumbered]
        · rfl
      | back v a =>
        cases below with
        | nil => rfl
        | cons f below =>
          cases f with
          | outside g' heard' since' =>
            simp [Thread.step, Thread.unnumbered, Frame.unnumbered, Item.unnumbered, stripped]
          | code id act rest =>
            cases rest with
            | done v => rfl
            | perform op next =>
              simp [Thread.step, Thread.unnumbered, Frame.unnumbered, Item.unnumbered, stripped]
      | op a => rfl
      | hand => rfl
      | exit => rfl
    | code id act rest =>
      cases rest with
      | done v =>
        cases m with
        | exit =>
          cases below with
          | nil => rfl
          | cons f below =>
            cases f with
            | outside g heard since =>
              simp [Thread.step, Thread.unnumbered, Frame.unnumbered, Item.unnumbered, stripped]
            | code => rfl
        | _ => rfl
      | perform op next =>
        cases m with
        | op a =>
          simp only [Thread.step, Thread.unnumbered, Frame.unnumbered, List.map_cons]
          split
          · rfl
          · simp only [Option.map_map]
            congr 1
            funext r
            simp [stripped, Thread.unnumbered, Frame.unnumbered, Item.unnumbered]
        | hand =>
          simp only [Thread.step, Thread.unnumbered, Frame.unnumbered, List.map_cons, Option.map_map]
          congr 1
          funext g
          simp [stripped, Thread.unnumbered, Frame.unnumbered, Item.unnumbered]
        | _ => rfl

theorem step_alike (sys : System Op V G C A S L X) {th₁ th : Thread Op V G C L}
    (h : th₁.unnumbered = th.unnumbered) (n fresh : Nat) (s : S) (m : Move V G C A X) :
    (th₁.step sys n s m).map stripped = (th.step sys fresh s m).map stripped := by
  rw [step_unnumbered, step_unnumbered sys fresh, h]

/-! ## Separation -/

/-- `Sees t s s'`: thread `t` sees the same of both states. What it does depends on what it
sees alone, and no other thread touches that. -/
structure Separation (sys : System Op V G C A S L X) where
  Legal : Nat → Thread Op V G C L → Move V G C A X → Prop
  Sees : Nat → S → S → Prop
  Good : Config Op V G C S L X → Prop
  legal : ∀ {t th th' m}, th.unnumbered = th'.unnumbered → Legal t th m → Legal t th' m
  good : ∀ {cfg cfg' t m}, Good cfg → Legal t (cfg.threads t) m →
    cfg.step sys t m = some cfg' → Good cfg'
  own : ∀ {cfg t m s}, Good cfg → Legal t (cfg.threads t) m → Sees t s cfg.shared →
    Option.Rel (fun r₁ r => r₁.2 = r.2 ∧ Sees t r₁.1 r.1)
      ((cfg.threads t).step sys cfg.log.length s m)
      ((cfg.threads t).step sys cfg.log.length cfg.shared m)
  other : ∀ {cfg cfg' t u m s}, Good cfg → Legal t (cfg.threads t) m →
    cfg.step sys t m = some cfg' → u ≠ t → Sees u s cfg.shared → Sees u s cfg'.shared

namespace Separation
variable {sys : System Op V G C A S L X} (sep : Separation sys)

/-- Thread `t` of a configuration is as it would be alone. -/
structure Alone (t : Nat) (σ : Solo Op V G C S L X) (cfg : Config Op V G C S L X) : Prop where
  thread : σ.thread.unnumbered = (cfg.threads t).unnumbered
  log : σ.log.map Item.unnumbered = (ofThread t cfg.log).map Item.unnumbered
  sees : sep.Sees t σ.shared cfg.shared

variable {sep} {t u : Nat} {σ σ' : Solo Op V G C S L X} {cfg cfg' : Config Op V G C S L X}
  {m : Move V G C A X}

theorem Alone.other (h : sep.Alone u σ cfg) (hg : sep.Good cfg) (hl : sep.Legal t (cfg.threads t) m)
    (hs : cfg.step sys t m = some cfg') (hu : u ≠ t) : sep.Alone u σ cfg' := by
  have hsees := sep.other hg hl hs hu h.sees
  simp only [Config.step, Option.map_eq_some_iff] at hs
  obtain ⟨r, -, rfl⟩ := hs
  refine ⟨by simpa [Function.update_of_ne hu] using h.thread, ?_, hsees⟩
  have hnone : ofThread u [(t, r.2.2)] = [] := ofThread_other (Ne.symm hu) [r.2.2]
  rw [ofThread_append, hnone, List.append_nil]
  exact h.log

/-- A move of the thread leads to the same in both. -/
theorem Alone.move (h : sep.Alone t σ cfg) (hg : sep.Good cfg)
    (hl : sep.Legal t (cfg.threads t) m) :
    Option.Rel (sep.Alone t) (σ.step sys m) (cfg.step sys t m) := by
  have hown := sep.own hg hl h.sees
  have halike := step_alike sys h.thread σ.log.length cfg.log.length σ.shared m
  unfold Solo.step Config.step
  generalize (cfg.threads t).step sys cfg.log.length cfg.shared m = r at hown ⊢
  generalize (cfg.threads t).step sys cfg.log.length σ.shared m = r₁ at hown halike
  generalize σ.thread.step sys σ.log.length σ.shared m = r₂ at halike ⊢
  cases hown with
  | none =>
    obtain rfl : r₂ = none := by simpa using halike
    exact .none
  | @some r₁ r hr =>
    obtain ⟨hsame, hsees⟩ := hr
    cases r₂ with
    | none => cases halike
    | some r₂ =>
      obtain ⟨hshared, hrest⟩ := Prod.mk.inj (Option.some.inj halike)
      obtain ⟨hthread, hitem⟩ := Prod.mk.inj hrest
      have hlast : ofThread t [(t, r.2.2)] = [r.2.2] := ofThread_same [r.2.2]
      refine .some ⟨?_, ?_, ?_⟩
      · dsimp only
        rw [Function.update_self, ← hsame]
        exact hthread
      · dsimp only
        rw [ofThread_append, hlast, List.map_append, List.map_append, h.log, ← hsame]
        exact congrArg (_ ++ [·]) hitem
      · dsimp only
        rw [hshared]
        exact hsees

variable (sep) in
/-- Runs of many threads are the runs of each thread on its own, put together in some order. -/
theorem run_alone [∀ t th m, Decidable (sep.Legal t th m)] (moves : List (Nat × Move V G C A X))
    {cfg : Config Op V G C S L X} {σs : Nat → Solo Op V G C S L X} (hg : sep.Good cfg)
    (h : ∀ t, sep.Alone t (σs t) cfg) :
    (∀ cfg', cfg.run sys (fun cfg t m => sep.Legal t (cfg.threads t) m) moves = some cfg' →
      ∀ t, ∃ σ', (σs t).run sys (fun σ m => sep.Legal t σ.thread m) (ofThread t moves) = some σ' ∧
        sep.Alone t σ' cfg') ∧
    ((∀ t, ∃ σ', (σs t).run sys (fun σ m => sep.Legal t σ.thread m) (ofThread t moves) =
        some σ') →
      ∃ cfg', cfg.run sys (fun cfg t m => sep.Legal t (cfg.threads t) m) moves = some cfg') := by
  induction moves generalizing cfg σs with
  | nil =>
    constructor
    · intro cfg' hrun t
      obtain rfl : cfg = cfg' := Option.some.inj hrun
      exact ⟨σs t, rfl, h t⟩
    · exact fun _ => ⟨cfg, rfl⟩
  | cons tm rest ih =>
    obtain ⟨t, m⟩ := tm
    -- Only thread `t` moves, so the runs of the others begin with what is left.
    have hother : ∀ u, u ≠ t → ofThread u ((t, m) :: rest) = ofThread u rest := by
      intro u hu
      simp [ofThread, Ne.symm hu]
    have hself : ofThread t ((t, m) :: rest) = m :: ofThread t rest := by simp [ofThread]
    have hlegal : sep.Legal t (σs t).thread m ↔ sep.Legal t (cfg.threads t) m :=
      ⟨sep.legal (h t).thread, sep.legal (h t).thread.symm⟩
    have next : ∀ {σ₁ cfg₁}, sep.Legal t (cfg.threads t) m → cfg.step sys t m = some cfg₁ →
        sep.Alone t σ₁ cfg₁ →
        ∀ u, sep.Alone u (Function.update σs t σ₁ u) cfg₁ := by
      intro σ₁ cfg₁ hl hs halone u
      by_cases hu : u = t
      · subst hu
        simpa using halone
      · rw [Function.update_of_ne hu]
        exact (h u).other hg hl hs hu
    constructor
    · intro cfg' hrun
      simp only [Config.run] at hrun
      split at hrun
      case isFalse => cases hrun
      case isTrue hl =>
      obtain ⟨cfg₁, hs, hrest⟩ := Option.bind_eq_some_iff.mp hrun
      have hmove := (h t).move hg hl
      rw [hs] at hmove
      generalize hσ : (σs t).step sys m = o at hmove
      cases hmove with
      | @some σ₁ _ halone =>
      intro u
      obtain ⟨σ', hσ', halone'⟩ := (ih (sep.good hg hl hs) (next hl hs halone)).1 cfg' hrest u
      refine ⟨σ', ?_, halone'⟩
      by_cases hu : u = t
      · subst hu
        rw [Function.update_self] at hσ'
        rw [hself]
        simp only [Solo.run, hlegal.mpr hl, if_true, hσ, Option.bind_some]
        exact hσ'
      · rw [Function.update_of_ne hu] at hσ'
        rw [hother u hu]
        exact hσ'
    · intro hruns
      obtain ⟨σ', hσ'⟩ := hruns t
      rw [hself] at hσ'
      simp only [Solo.run] at hσ'
      split at hσ'
      case isFalse => cases hσ'
      case isTrue hl =>
      obtain ⟨σ₁, hσ₁, hσ'⟩ := Option.bind_eq_some_iff.mp hσ'
      have hl := hlegal.mp hl
      have hmove := (h t).move hg hl
      rw [hσ₁] at hmove
      generalize hs : cfg.step sys t m = o at hmove
      cases hmove with
      | @some _ cfg₁ halone =>
      obtain ⟨cfg', hcfg'⟩ := (ih (sep.good hg hl hs) (next hl hs halone)).2 fun u => by
        by_cases hu : u = t
        · subst hu
          exact ⟨σ', by simpa using hσ'⟩
        · obtain ⟨σ'', hσ''⟩ := hruns u
          rw [hother u hu] at hσ''
          exact ⟨σ'', by simpa [Function.update_of_ne hu] using hσ''⟩
      refine ⟨cfg', ?_⟩
      simp only [Config.run, hl, if_true, hs, Option.bind_some]
      exact hcfg'

end Separation

end P101Filesystem.Effect
