import Mathlib.Logic.Basic
import Mathlib.Data.List.Basic

/-!
# Programs over an operation signature

A program performs operations one at a time and goes on with the value each one
answers. Nothing here fixes what an operation does: a run is recorded as the list
of events the program goes through, and `Follows` says which lists those are.
-/
namespace P101Filesystem.Effect

inductive Program (Op V α : Type) where
  | done (a : α)
  | perform (op : Op) (next : V → Program Op V α)

namespace Program
variable {Op V α β γ : Type}

def bind (p : Program Op V α) (f : α → Program Op V β) : Program Op V β :=
  match p with
  | .done a => f a
  | .perform op next => .perform op fun v => (next v).bind f

instance : Monad (Program Op V) where
  pure := .done
  bind := bind

/-- The one-operation program that returns what the operation answers. -/
def op (o : Op) : Program Op V V := .perform o .done

@[simp] theorem pure_def (a : α) : (pure a : Program Op V α) = .done a := rfl

@[simp] theorem bind_def (p : Program Op V α) (f : α → Program Op V β) :
    p >>= f = p.bind f := rfl

@[simp] theorem done_bind (a : α) (f : α → Program Op V β) : (done a).bind f = f a := rfl

@[simp] theorem perform_bind (o : Op) (next : V → Program Op V α) (f : α → Program Op V β) :
    (perform o next).bind f = .perform o fun v => (next v).bind f := rfl

@[simp] theorem op_bind (o : Op) (f : V → Program Op V β) : (op o).bind f = .perform o f := rfl

theorem bind_assoc (p : Program Op V α) (f : α → Program Op V β) (g : β → Program Op V γ) :
    (p.bind f).bind g = p.bind fun a => (f a).bind g := by
  induction p with
  | done a => rfl
  | perform o next ih =>
    simp only [perform_bind]
    congr 1
    funext v
    exact ih v

@[simp] theorem ite_bind (c : Prop) [Decidable c] (p q : Program Op V α)
    (f : α → Program Op V β) : (if c then p else q).bind f = if c then p.bind f else q.bind f := by
  split <;> rfl

/-- No operation the program can reach satisfies `P`. -/
def Avoids (P : Op → Prop) : Program Op V α → Prop
  | .done _ => True
  | .perform o next => ¬ P o ∧ ∀ v, (next v).Avoids P

@[simp] theorem avoids_done (P : Op → Prop) (a : α) :
    (done a : Program Op V α).Avoids P := trivial

@[simp] theorem avoids_perform (P : Op → Prop) (o : Op) (next : V → Program Op V α) :
    (perform o next).Avoids P ↔ ¬ P o ∧ ∀ v, (next v).Avoids P := Iff.rfl

theorem Avoids.bind {P : Op → Prop} {p : Program Op V α} {f : α → Program Op V β}
    (hp : p.Avoids P) (hf : ∀ a, (f a).Avoids P) : (p.bind f).Avoids P := by
  induction p with
  | done a => exact hf a
  | perform o next ih => exact ⟨hp.1, fun v => ih v (hp.2 v)⟩

theorem Avoids.mono {P Q : Op → Prop} {p : Program Op V α} (h : p.Avoids P) (hQ : ∀ o, Q o → P o) :
    p.Avoids Q := by
  induction p with
  | done a => trivial
  | perform o next ih => exact ⟨fun ho => h.1 (hQ o ho), fun v => ih v (h.2 v)⟩

@[simp] theorem avoids_ite {P : Op → Prop} {c : Prop} [Decidable c] {p q : Program Op V α} :
    (if c then p else q).Avoids P ↔ (c → p.Avoids P) ∧ (¬ c → q.Avoids P) := by
  split <;> simp [*]

end Program

/-- One operation as it happened: what the outside party heard from its own calls
while it was in control, the answer, and the local state around it. -/
structure Event (Op V L : Type) where
  op : Op
  heard : List V
  answer : V
  before : L
  after : L

variable {Op V L α β : Type}

/-- `Follows p es q`: the events `es` lead from `p` to what is left of it, `q`. -/
def Follows : Program Op V α → List (Event Op V L) → Program Op V α → Prop
  | p, [], q => p = q
  | .done _, _ :: _, _ => False
  | .perform o next, e :: es, q => e.op = o ∧ Follows (next e.answer) es q

namespace Follows

@[simp] theorem nil_iff {p q : Program Op V α} :
    Follows p ([] : List (Event Op V L)) q ↔ p = q := by
  cases p <;> rfl

@[simp] theorem done_cons {a : α} {e : Event Op V L} {es : List (Event Op V L)}
    {q : Program Op V α} : ¬ Follows (.done a) (e :: es) q := id

@[simp] theorem perform_cons {o : Op} {next : V → Program Op V α} {e : Event Op V L}
    {es : List (Event Op V L)} {q : Program Op V α} :
    Follows (.perform o next) (e :: es) q ↔ e.op = o ∧ Follows (next e.answer) es q := Iff.rfl

theorem snoc {p : Program Op V α} {es : List (Event Op V L)} {o : Op}
    {next : V → Program Op V α} (h : Follows p es (.perform o next)) {e : Event Op V L}
    (he : e.op = o) : Follows p (es ++ [e]) (next e.answer) := by
  induction es generalizing p with
  | nil =>
    rw [nil_iff] at h
    subst h
    exact ⟨he, nil_iff.mpr rfl⟩
  | cons d es ih =>
    cases p with
    | done a => exact absurd h done_cons
    | perform o' next' => exact ⟨h.1, ih h.2⟩

/-- A finished run from a program that starts with an operation begins with that
operation's event. -/
theorem perform_done {o : Op} {next : V → Program Op V α} {es : List (Event Op V L)} {a : α}
    (h : Follows (.perform o next) es (.done a)) :
    ∃ e rest, es = e :: rest ∧ e.op = o ∧ Follows (next e.answer) rest (.done a) := by
  cases es with
  | nil => simp at h
  | cons e rest => exact ⟨e, rest, rfl, h.1, h.2⟩

/-- A run that has come to another operation has gone through the first one. -/
theorem perform_ne {o o' : Op} {next next' : V → Program Op V α} {es : List (Event Op V L)}
    (h : Follows (.perform o next) es (.perform o' next')) (hne : o ≠ o') :
    ∃ e rest, es = e :: rest ∧ e.op = o ∧ Follows (next e.answer) rest (.perform o' next') := by
  cases es with
  | nil =>
    rw [nil_iff] at h
    exact absurd (Program.perform.inj h).1 hne
  | cons e rest => exact ⟨e, rest, rfl, h.1, h.2⟩

theorem done_done {a b : α} {es : List (Event Op V L)}
    (h : Follows (.done a : Program Op V α) es (.done b)) : es = [] ∧ a = b := by
  cases es with
  | nil =>
    rw [nil_iff] at h
    exact ⟨rfl, Program.done.inj h⟩
  | cons e rest => exact absurd h done_cons

theorem avoids {P : Op → Prop} {p q : Program Op V α} {es : List (Event Op V L)}
    (h : Follows p es q) (hp : p.Avoids P) : (∀ e ∈ es, ¬ P e.op) ∧ q.Avoids P := by
  induction es generalizing p with
  | nil =>
    rw [nil_iff] at h
    subst h
    exact ⟨by simp, hp⟩
  | cons e es ih =>
    cases p with
    | done a => exact absurd h done_cons
    | perform o next =>
      obtain ⟨htail, hq⟩ := ih h.2 (hp.2 e.answer)
      refine ⟨?_, hq⟩
      intro d hd
      rcases List.mem_cons.mp hd with rfl | hd
      · rw [h.1]
        exact hp.1
      · exact htail d hd

/-- A run that avoids an operation does not come to it. -/
theorem not_perform {P : Op → Prop} {p : Program Op V α} {o : Op} {next : V → Program Op V α}
    {es : List (Event Op V L)} (h : Follows p es (.perform o next)) (hp : p.Avoids P) : ¬ P o :=
  (h.avoids hp).2.1

end Follows

/-- Each event starts in the local state the one before it left. -/
def Chained : L → List (Event Op V L) → L → Prop
  | l, [], l' => l = l'
  | l, e :: es, l' => e.before = l ∧ Chained e.after es l'

namespace Chained

@[simp] theorem nil_iff {l l' : L} : Chained l ([] : List (Event Op V L)) l' ↔ l = l' := Iff.rfl

@[simp] theorem cons_iff {l l' : L} {e : Event Op V L} {es : List (Event Op V L)} :
    Chained l (e :: es) l' ↔ e.before = l ∧ Chained e.after es l' := Iff.rfl

theorem snoc {l l' : L} {es : List (Event Op V L)} (h : Chained l es l') {e : Event Op V L}
    (he : e.before = l') : Chained l (es ++ [e]) e.after := by
  induction es generalizing l with
  | nil =>
    rw [nil_iff] at h
    subst h
    exact ⟨he, rfl⟩
  | cons d es ih => exact ⟨h.1, ih h.2⟩

theorem append_iff {l l' : L} {es fs : List (Event Op V L)} :
    Chained l (es ++ fs) l' ↔ ∃ m, Chained l es m ∧ Chained m fs l' := by
  induction es generalizing l with
  | nil => simp
  | cons d es ih => simp [ih, and_assoc]

end Chained

end P101Filesystem.Effect
