import P101Filesystem.Ledger.Account
import P101Filesystem.Effect.Observation
import Mathlib.Data.List.Perm.Basic

/-!
# Marks that come late

A thing may be given back some time before the ledger is told. Beside the ledger there is the
one that is told at once, and a list of what each thread still owes. Once nothing is owed, both
have the same marks, though not in the same order.
-/
namespace P101Filesystem.Ledger

open Effect

variable {K : Type} [DecidableEq K]

/-- The late marks are the timely ones but for the gives that are owed. -/
structure Behind (late timely : K → List Bool) (owed : List (Nat × K)) : Prop where
  takes : ∀ k, (late k).count true = (timely k).count true
  gives : ∀ k, (late k).count false + (owed.map Prod.snd).count k = (timely k).count false

theorem count_marked (marks : K → List Bool) (j k : K) (b c : Bool) :
    (marked marks (some (j, b)) k).count c =
      (marks k).count c + if k = j ∧ b = c then 1 else 0 := by
  by_cases hk : k = j
  · subst hk
    by_cases hb : b = c
    · simp [marked, hb]
    · simp [marked, hb]
  · simp [marked, hk]

theorem ofThread_erase (t u : Nat) (k : K) (owed : List (Nat × K)) :
    ofThread u (owed.erase (t, k)) =
      if u = t then (ofThread u owed).erase k else ofThread u owed := by
  induction owed with
  | nil => simp
  | cons p owed ih =>
    obtain ⟨v, j⟩ := p
    have hcons : ∀ rest : List (Nat × K), ofThread u ((v, j) :: rest) =
        (if v = u then [j] else []) ++ ofThread u rest := by
      intro rest
      by_cases hv : v = u <;> simp [ofThread, hv]
    by_cases hp : (v, j) = (t, k)
    · obtain ⟨rfl, rfl⟩ := Prod.mk.inj hp
      rw [List.erase_cons_head, hcons]
      by_cases hu : u = v
      · simp [hu]
      · simp [hu, Ne.symm hu]
    · rw [List.erase_cons_tail (by simpa using hp), hcons, ih, hcons]
      by_cases hu : u = t
      · subst hu
        by_cases hv : v = u
        · subst hv
          have hj : j ≠ k := fun h => hp (by rw [h])
          simp [hj]
        · simp [hv]
      · simp [hu]

namespace Behind
variable {late timely : K → List Bool} {owed : List (Nat × K)}

theorem nothing : Behind (fun _ : K => []) (fun _ => []) [] := ⟨fun _ => rfl, fun _ => rfl⟩

/-- A mark that both ledgers make. -/
theorem also (h : Behind late timely owed) (m : Option (K × Bool)) :
    Behind (marked late m) (marked timely m) owed := by
  cases m with
  | none => exact h
  | some m =>
    constructor
    · intro k
      rw [count_marked, count_marked, h.takes]
    · intro k
      have hgives := h.gives k
      rw [count_marked, count_marked]
      omega

/-- Thread `t` gives `k` back and does not say so yet. -/
theorem owe (h : Behind late timely owed) (t : Nat) (k : K) :
    Behind late (marked timely (some (k, false))) (owed ++ [(t, k)]) := by
  constructor
  · intro j
    rw [count_marked, h.takes]
    simp
  · intro j
    have hgives := h.gives j
    rw [count_marked, List.map_append, List.count_append]
    by_cases hj : j = k
    · simp [hj] at hgives ⊢
      omega
    · have hkj : ¬ k = j := Ne.symm hj
      simpa [hj, hkj] using hgives

/-- Thread `t` says that it gave `k` back. -/
theorem settle (h : Behind late timely owed) {t : Nat} {k : K} (hm : (t, k) ∈ owed) :
    Behind (marked late (some (k, false))) timely (owed.erase (t, k)) := by
  have hperm := (List.perm_cons_erase hm).map Prod.snd
  constructor
  · intro j
    rw [count_marked, h.takes]
    simp
  · intro j
    have hgives := h.gives j
    rw [hperm.count_eq j, List.map_cons, List.count_cons] at hgives
    rw [count_marked]
    by_cases hj : j = k
    · simp [hj] at hgives ⊢
      omega
    · have hkj : ¬ k = j := Ne.symm hj
      simpa [hj, hkj] using hgives

theorem gives_le (h : Behind late timely owed) (k : K) :
    (late k).count false ≤ (timely k).count false := by
  have hgives := h.gives k
  omega

/-- When nothing is owed the marks are the same, in some order. -/
theorem perm (h : Behind late timely []) (k : K) : (late k).Perm (timely k) := by
  refine List.perm_iff_count.mpr fun b => ?_
  cases b with
  | true => exact h.takes k
  | false => exact h.gives k

end Behind

end P101Filesystem.Ledger
