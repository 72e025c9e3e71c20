import P101Filesystem.Effect.Numbers

/-!
# Output in batches

An event may put something out. Code that hands control to a party which may come back into
the library has put nothing out yet. Then only the innermost call of a thread has output that
is still to be completed, and what a thread puts out is what its calls put out, one call after
the other in the order in which they return.
-/
namespace P101Filesystem.Effect

variable {Op V G C A S L X B : Type}

/-- What thread `t` has put out. -/
def outputs (out : Event Op V L → List B) (log : List (Nat × Item Op V G C L X)) (t : Nat) :
    List B :=
  log.flatMap fun
    | (u, .event _ e) => if u = t then out e else []
    | _ => []

/-- The calls of thread `t` that have returned, in this order. -/
def finished (log : List (Nat × Item Op V G C L X)) (t : Nat) : List (Activation Op V C L) :=
  log.filterMap fun
    | (u, .exit _ act _) => if u = t then some act else none
    | _ => none

section
variable {out : Event Op V L → List B} {log : List (Nat × Item Op V G C L X)} {t u id : Nat}
  {i : Item Op V G C L X}

theorem outputs_event (e : Event Op V L) : outputs out (log ++ [(t, .event id e)]) t =
    outputs out log t ++ out e := by
  simp [outputs]

theorem outputs_quiet (h : ∀ id e, i ≠ .event id e) :
    outputs out (log ++ [(u, i)]) t = outputs out log t := by
  cases i with
  | event id e => exact absurd rfl (h id e)
  | _ => simp [outputs]

theorem outputs_other (hu : u ≠ t) : outputs out (log ++ [(u, i)]) t = outputs out log t := by
  cases i with
  | event id e => simp [outputs, hu]
  | _ => exact outputs_quiet (by simp)

theorem finished_exit (act : Activation Op V C L) (v : V) :
    finished (log ++ [(t, .exit id act v)]) t = finished log t ++ [act] := by
  simp [finished]

theorem finished_quiet (h : ∀ id act v, i ≠ .exit id act v) :
    finished (log ++ [(u, i)]) t = finished log t := by
  cases i with
  | exit id act v => exact absurd rfl (h id act v)
  | _ => simp [finished]

theorem finished_other (hu : u ≠ t) : finished (log ++ [(u, i)]) t = finished log t := by
  cases i with
  | exit id act v => simp [finished, hu]
  | _ => exact finished_quiet (by simp)

end

/-- `silent`: nothing is put out before control goes to a party that may come back. -/
structure Batching (sys : System Op V G C A S L X) (out : Event Op V L → List B) where
  reentrant : G → Prop
  permits : ∀ {g c}, sys.permits g c = true → reentrant g
  invokes : ∀ {g g'}, sys.invokes g g' = true → reentrant g
  silent : ∀ {c b es op next g}, Follows (sys.code c b) es (.perform op next) →
    sys.party op = some g → reentrant g → es.flatMap out = []

namespace Batching
variable {sys : System Op V G C A S L X} {out : Event Op V L → List B} (bat : Batching sys out)

/-- A frame over which library code may run. -/
def Reenterable : Frame Op V G C L → Prop
  | .outside g _ _ => bat.reentrant g
  | .code _ _ (.perform op _) => ∃ g, sys.party op = some g ∧ bat.reentrant g
  | .code _ _ (.done _) => False

theorem reenterable_of_awaits {g : G} {f : Frame Op V G C L} (hg : bat.reentrant g)
    (h : Awaits sys g f) : bat.Reenterable f := by
  cases f with
  | outside g' heard since => exact bat.invokes h
  | code id act rest =>
    cases rest with
    | done v => exact h.elim
    | perform op next => exact ⟨g, h, hg⟩

theorem reenterable_of_permitted {c : C} {f : Frame Op V G C L} (h : Permitted sys c f) :
    bat.Reenterable f := by
  cases f with
  | outside g heard since => exact bat.permits h
  | code => exact h.elim

/-- Calls under a reentrant party have put nothing out. -/
theorem waiting_silent {stack : List (Frame Op V G C L)} {now : L} (h : StackSound sys now stack)
    (hr : ∀ f ∈ stack.head?, bat.Reenterable f) :
    ∀ c ∈ codes stack, c.2.past.flatMap out = [] := by
  induction stack generalizing now with
  | nil => simp
  | cons f below ih =>
    have hf := hr f rfl
    cases f with
    | outside g heard since =>
      obtain ⟨hawaits, hbelow⟩ := h
      exact ih hbelow fun f hmem => bat.reenterable_of_awaits hf (hawaits f hmem)
    | code id act rest =>
      obtain ⟨hact, ⟨f, tail, rfl, hperm⟩, hbelow⟩ := h
      have hrest := ih hbelow fun f' hmem => by
        obtain rfl : f = f' := Option.some.inj hmem
        exact bat.reenterable_of_permitted hperm
      intro c hc
      rw [codes_code] at hc
      rcases List.mem_cons.mp hc with rfl | hc
      · cases rest with
        | done v => exact hf.elim
        | perform op next =>
          obtain ⟨g, hg, hre⟩ := hf
          exact bat.silent hact.follows hg hre
      · exact hrest c hc

/-- So do the calls under one that runs. -/
theorem below_silent (bat : Batching sys out) {id : Nat} {act : Activation Op V C L}
    {rest : Program Op V V} {now : L} {below : List (Frame Op V G C L)}
    (h : StackSound sys now (.code id act rest :: below)) :
    ((codes below).flatMap fun c => c.2.past.flatMap out) = [] := by
  obtain ⟨-, ⟨f, tail, rfl, hperm⟩, hbelow⟩ := h
  refine List.flatMap_eq_nil_iff.mpr fun c hc => bat.waiting_silent hbelow ?_ c hc
  intro f' hmem
  obtain rfl : f = f' := Option.some.inj hmem
  exact bat.reenterable_of_permitted hperm

end Batching

namespace Config

/-- What a thread has put out at any time. -/
theorem Reach.batched {sys : System Op V G C A S L X} {out : Event Op V L → List B}
    (bat : Batching sys out) {legal} {main : G} {s : S} {l : L} {cfg : Config Op V G C S L X}
    (h : Reach sys legal (Config.init main s l) cfg) (t : Nat) :
    outputs out cfg.log t = ((finished cfg.log t).flatMap fun act => act.past.flatMap out) ++
      (codes (cfg.threads t).stack).flatMap fun c => c.2.past.flatMap out := by
  induction h with
  | init => rfl
  | @step cfg cfg' u m hr _ hs ih =>
    have hsound := (hr.accounted.sound t)
    obtain ⟨s', th, i, hst, rfl⟩ := stepped hs
    by_cases hut : u = t
    case neg =>
      simp only [Function.update_of_ne (Ne.symm hut), outputs_other hut, finished_other hut]
      exact ih
    subst hut
    simp only [Function.update_self]
    generalize hth : cfg.threads u = old at hst hsound ih
    cases hst with
    | call =>
      rw [outputs_quiet (by simp), finished_quiet (by simp), ih]
      simp
    | @back l g heard since id act op next below v a =>
      have hbelow := bat.below_silent hsound.2
      rw [outputs_event, finished_quiet (by simp), ih]
      simp [hbelow]
    | @op l id act op next below a v s' l' =>
      have hbelow := bat.below_silent hsound
      rw [outputs_event, finished_quiet (by simp), ih]
      simp [hbelow]
    | exit =>
      have hbelow := bat.below_silent hsound
      rw [outputs_quiet (by simp), finished_exit, ih]
      simp only [codes_code, codes_outside] at hbelow ⊢
      simp [hbelow]
    | invoke | act | backOutside | hand =>
      rw [outputs_quiet (by simp), finished_quiet (by simp)]
      exact ih

end Config

end P101Filesystem.Effect
