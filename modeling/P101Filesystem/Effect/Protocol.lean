import P101Filesystem.Effect.Program

/-!
# Programs that keep to a protocol

A protocol is an automaton over operations and their answers. A program keeps to it from a
phase if every operation it performs is one the phase allows, whatever is answered, and
it returns what the last phase promises.
-/
namespace P101Filesystem.Effect

variable {Op V Ph L : Type}

structure Protocol (Op V Ph : Type) where
  next : Ph → Op → V → Ph → Prop
  final : Ph → V → Prop

def Protocol.Keeps (pr : Protocol Op V Ph) : Ph → Program Op V V → Prop
  | ph, .done v => pr.final ph v
  | ph, .perform op cont => ∀ v, ∃ ph', pr.next ph op v ph' ∧ pr.Keeps ph' (cont v)

/-- The phases that events lead through. -/
inductive Protocol.Path (pr : Protocol Op V Ph) : Ph → List (Event Op V L) → Ph → Prop
  | nil {ph} : Path pr ph [] ph
  | cons {ph ph' ph'' e es} : pr.next ph e.op e.answer ph' → Path pr ph' es ph'' →
      Path pr ph (e :: es) ph''

namespace Protocol
variable {pr : Protocol Op V Ph} {ph : Ph}

theorem Path.snoc {ph' ph'' : Ph} {es : List (Event Op V L)} {e : Event Op V L}
    (h : pr.Path ph es ph') (hn : pr.next ph' e.op e.answer ph'') : pr.Path ph (es ++ [e]) ph'' := by
  induction h with
  | nil => exact .cons hn .nil
  | cons hs _ ih => exact .cons hs (ih hn)

@[simp] theorem keeps_done {v : V} : pr.Keeps ph (.done v) ↔ pr.final ph v := Iff.rfl

theorem keeps_perform {op : Op} {cont : V → Program Op V V} :
    pr.Keeps ph (.perform op cont) ↔
      ∀ v, ∃ ph', pr.next ph op v ph' ∧ pr.Keeps ph' (cont v) := Iff.rfl

/-- An operation that leads to the phase `f v` when it answers `v`. -/
theorem keeps_step {op : Op} {cont : V → Program Op V V} (f : V → Ph)
    (hn : ∀ v, pr.next ph op v (f v)) (h : ∀ v, pr.Keeps (f v) (cont v)) :
    pr.Keeps ph (.perform op cont) := fun v => ⟨f v, hn v, h v⟩

theorem keeps_ite {c : Prop} [Decidable c] {p q : Program Op V V} (hp : pr.Keeps ph p)
    (hq : pr.Keeps ph q) : pr.Keeps ph (if c then p else q) := by
  split
  · exact hp
  · exact hq

/-- Programs that avoid what a phase forbids stay in that phase. -/
theorem keeps_of_avoids {P : Op → Prop} {p : Program Op V V} (hp : p.Avoids P)
    (hn : ∀ op v, ¬ P op → pr.next ph op v ph) (hf : ∀ v, pr.final ph v) : pr.Keeps ph p := by
  induction p with
  | done v => exact hf v
  | perform op cont ih => exact fun v => ⟨ph, hn op v hp.1, ih v (hp.2 v)⟩

/-- A run of a program that keeps to a protocol is a path of it. -/
theorem Keeps.path {p q : Program Op V V} {es : List (Event Op V L)} (h : pr.Keeps ph p)
    (hf : Follows p es q) : ∃ ph', pr.Path ph es ph' ∧ pr.Keeps ph' q := by
  induction es generalizing p ph with
  | nil =>
    rw [Follows.nil_iff] at hf
    exact ⟨ph, .nil, hf ▸ h⟩
  | cons e es ih =>
    cases p with
    | done v => exact absurd hf Follows.done_cons
    | perform op cont =>
      obtain ⟨he, hrest⟩ := hf
      obtain ⟨ph', hnext, hk⟩ := h e.answer
      obtain ⟨ph'', hpath, hq⟩ := ih hk hrest
      exact ⟨ph'', .cons (he.symm ▸ hnext) hpath, hq⟩

end Protocol

end P101Filesystem.Effect
