import Mathlib.Data.List.Basic

/-!
# Named brackets

A word of brackets is scanned with a stack of the names that are open. Where the scan ends
with nothing open, every bracket is closed by one of its own name and what lies between the
two is balanced itself.
-/
namespace P101Filesystem.Effect

variable {N : Type}

inductive Bracket (N : Type) where
  | opens (n : N)
  | closes (n : N)
  deriving DecidableEq, Repr

inductive Balanced : List (Bracket N) → Prop
  | nil : Balanced []
  | nest {n inner rest} : Balanced inner → Balanced rest →
      Balanced (.opens n :: inner ++ .closes n :: rest)

/-- The names open after a word, the latest first; `none` once a bracket is closed that is not
the latest open one. -/
def scan [DecidableEq N] : List N → List (Bracket N) → Option (List N)
  | pending, [] => some pending
  | pending, .opens n :: word => scan (n :: pending) word
  | [], .closes _ :: _ => none
  | m :: pending, .closes n :: word => if m = n then scan pending word else none

/-- Closes `pending` name by name, with balanced words between. -/
inductive Unwinds : List N → List (Bracket N) → Prop
  | last {word} : Balanced word → Unwinds [] word
  | close {n pending inner rest} : Balanced inner → Unwinds pending rest →
      Unwinds (n :: pending) (inner ++ .closes n :: rest)

section
variable [DecidableEq N] {n : N} {pending pending' : List N} {word rest : List (Bracket N)}

@[simp] theorem scan_nil : scan pending ([] : List (Bracket N)) = some pending := by
  cases pending <;> rfl

@[simp] theorem scan_opens : scan pending (.opens n :: word) = scan (n :: pending) word := by
  cases pending <;> rfl

@[simp] theorem scan_closes : scan (n :: pending) (.closes n :: word) = scan pending word := by
  simp [scan]

theorem scan_append (h : scan pending word = some pending') :
    scan pending (word ++ rest) = scan pending' rest := by
  induction word generalizing pending with
  | nil =>
    rw [scan_nil, Option.some.injEq] at h
    rw [h]
    rfl
  | cons b word ih =>
    cases b with
    | opens n =>
      rw [scan_opens] at h
      simpa using ih h
    | closes n =>
      cases pending with
      | nil => cases h
      | cons m pending =>
        simp only [scan] at h
        split at h
        · next hmn =>
          subst hmn
          simpa using ih h
        · cases h

end

theorem Unwinds.nest {n : N} {pending : List N} {inner rest : List (Bracket N)}
    (hi : Balanced inner) (h : Unwinds pending rest) :
    Unwinds pending (.opens n :: inner ++ .closes n :: rest) := by
  cases h with
  | last hb => exact .last (.nest hi hb)
  | @close m pending inner' rest hb hr =>
    have hnest : Balanced (.opens n :: inner ++ .closes n :: inner') := .nest hi hb
    simpa using Unwinds.close hnest hr

theorem unwinds_of_scan [DecidableEq N] {pending : List N} {word : List (Bracket N)}
    (h : scan pending word = some []) : Unwinds pending word := by
  induction word generalizing pending with
  | nil =>
    rw [scan_nil, Option.some.injEq] at h
    subst h
    exact .last .nil
  | cons b word ih =>
    cases b with
    | opens n =>
      rw [scan_opens] at h
      cases ih h with
      | close hi hr => exact hr.nest hi
    | closes n =>
      cases pending with
      | nil => cases h
      | cons m pending =>
        simp only [scan] at h
        split at h
        · next hmn =>
          subst hmn
          exact .close .nil (ih h)
        · cases h

/-- A scan that leaves nothing open is over a balanced word. -/
theorem balanced_of_scan [DecidableEq N] {word : List (Bracket N)} (h : scan [] word = some []) :
    Balanced word := by
  cases unwinds_of_scan h with
  | last hb => exact hb

end P101Filesystem.Effect
