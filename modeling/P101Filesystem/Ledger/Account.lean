import Mathlib.Data.List.Induction
import Mathlib.Logic.Function.Basic

/-!
# A ledger of things that come and go

Things are opened and closed in the world; a ledger takes and gives them some time later,
thread by thread. An account says what is live, and what each thread has opened or closed
without a mark in the ledger yet. `Agrees` is the invariant: the ledger owes one mark for
each thing that is live and marked, or dead and not yet marked, and one for each thing that
was lost. In between, the marks of a thing that was never lost alternate.
-/
namespace P101Filesystem.Ledger

variable {K T : Type}

/-! ## The marks of one thing: `true` takes it, `false` gives it back -/

/-- take, give, take, give, ..., starting with a take. -/
def Alternates (marks : List Bool) : Prop :=
  ∀ i b, marks[i]? = some b → (b = true ↔ i % 2 = 0)

/-- Taken and not yet given back. -/
def held (marks : List Bool) : Bool := marks.count false < marks.count true

theorem alternates_nil : Alternates [] := by
  intro i b h
  simp at h

theorem alternates_snoc {marks : List Bool} {b : Bool} :
    Alternates (marks ++ [b]) ↔ Alternates marks ∧ (b = true ↔ marks.length % 2 = 0) := by
  constructor
  · intro h
    refine ⟨fun i c hi => h i c ?_, h marks.length b (by simp)⟩
    have hlt : i < marks.length := (List.getElem?_eq_some_iff.mp hi).1
    rw [List.getElem?_append_left hlt]
    exact hi
  · rintro ⟨h, hb⟩ i c hi
    by_cases hlt : i < marks.length
    · rw [List.getElem?_append_left hlt] at hi
      exact h i c hi
    · have hle : marks.length ≤ i := Nat.le_of_not_lt hlt
      rw [List.getElem?_append_right hle, List.getElem?_singleton] at hi
      split at hi
      · next h0 =>
        have hi' : i = marks.length := by omega
        cases hi
        rw [hi']
        exact hb
      · cases hi

/-- Alternating marks are balanced up to the last take. -/
theorem Alternates.count {marks : List Bool} (h : Alternates marks) :
    marks.count true = marks.count false + marks.length % 2 := by
  induction marks using List.reverseRecOn with
  | nil => rfl
  | append_singleton marks b ih =>
    obtain ⟨hm, hb⟩ := alternates_snoc.mp h
    have hcount := ih hm
    simp only [List.count_append, List.length_append, List.length_singleton]
    cases b with
    | true =>
      have heven : marks.length % 2 = 0 := hb.mp rfl
      simp
      omega
    | false =>
      have hodd : ¬ marks.length % 2 = 0 := fun h0 => by simpa using hb.mpr h0
      simp
      omega

theorem Alternates.take {marks : List Bool} (h : Alternates marks)
    (hc : marks.count true = marks.count false) : Alternates (marks ++ [true]) := by
  have hcount := h.count
  have heven : marks.length % 2 = 0 := by omega
  exact alternates_snoc.mpr ⟨h, by simp [heven]⟩

theorem Alternates.give {marks : List Bool} (h : Alternates marks)
    (hc : marks.count true = marks.count false + 1) : Alternates (marks ++ [false]) := by
  have hcount := h.count
  have hodd : marks.length % 2 = 1 := by omega
  exact alternates_snoc.mpr ⟨h, by simp [hodd]⟩

/-- The marks on `k` among items of which each makes at most one mark. -/
def marks {I : Type} [DecidableEq K] (mark : I → Option (K × Bool)) (items : List I) (k : K) :
    List Bool :=
  items.filterMap fun i => (mark i).bind fun m => if m.1 = k then some m.2 else none

/-- The marks after one more. -/
def marked [DecidableEq K] (marks : K → List Bool) : Option (K × Bool) → K → List Bool
  | none => marks
  | some (k, b) => Function.update marks k (marks k ++ [b])

section
variable {I : Type} [DecidableEq K]

@[simp] theorem marks_nil (mark : I → Option (K × Bool)) : marks mark [] = fun _ => [] := rfl

theorem marks_append (mark : I → Option (K × Bool)) (items more : List I) (k : K) :
    marks mark (items ++ more) k = marks mark items k ++ marks mark more k :=
  List.filterMap_append

theorem marks_snoc (mark : I → Option (K × Bool)) (items : List I) (i : I) :
    marks mark (items ++ [i]) = marked (marks mark items) (mark i) := by
  funext j
  cases hm : mark i with
  | none => simp [marks, marked, List.filterMap_append, hm]
  | some m =>
    by_cases hj : j = m.1
    · simp [marks, marked, List.filterMap_append, hm, hj]
    · simp [marks, marked, List.filterMap_append, hm, hj, Ne.symm hj]

end

/-! ## Accounts -/

structure Account (K T : Type) where
  live : K → Prop
  opening : T → List K
  closing : T → List K
  lost : K → Nat

namespace Account
variable (A : Account K T)

/-- The ledger owes a mark for `k`. -/
def Due (k : K) : Prop := (A.live k ∧ ∀ t, k ∉ A.opening t) ∨ ∃ t, k ∈ A.closing t

structure Agrees (marks : K → List Bool) : Prop where
  opens : ∀ t, ∀ k ∈ A.opening t, A.live k
  closes : ∀ t, ∀ k ∈ A.closing t, ¬ A.live k
  openOnce : ∀ t, (A.opening t).Nodup
  closeOnce : ∀ t, (A.closing t).Nodup
  openApart : ∀ t u k, k ∈ A.opening t → k ∈ A.opening u → t = u
  closeApart : ∀ t u k, k ∈ A.closing t → k ∈ A.closing u → t = u
  due : ∀ k, A.Due k → (marks k).count true = (marks k).count false + A.lost k + 1
  notDue : ∀ k, ¬ A.Due k → (marks k).count true = (marks k).count false + A.lost k
  alternates : ∀ k, A.lost k = 0 → Alternates (marks k)

variable {A} {marks : K → List Bool}

theorem agrees_nothing : Agrees (⟨fun _ => False, fun _ => [], fun _ => [], fun _ => 0⟩ : Account K T)
    fun _ => [] where
  opens := by simp
  closes := by simp
  openOnce := by simp
  closeOnce := by simp
  openApart := by simp
  closeApart := by simp
  due := by simp [Due]
  notDue := by simp
  alternates := fun _ _ => alternates_nil

/-- Accounts are compared by what is live, as a predicate. -/
theorem Agrees.congr {B : Account K T} (h : A.Agrees marks) (hl : ∀ k, B.live k ↔ A.live k)
    (ho : B.opening = A.opening) (hc : B.closing = A.closing) (hx : ∀ k, B.lost k = A.lost k) :
    B.Agrees marks := by
  have hB : B = A := by
    obtain ⟨live, opening, closing, lost⟩ := A
    obtain ⟨live', opening', closing', lost'⟩ := B
    dsimp only at hl ho hc hx
    obtain rfl : live' = live := funext fun k => propext (hl k)
    obtain rfl : lost' = lost := funext hx
    rw [ho, hc]
  exact hB ▸ h

variable [DecidableEq T]

section
variable {f : T → List K} {t u v : T} {ks rest : List K} {j k : K}

theorem mem_update :
    k ∈ Function.update f t ks u ↔ u = t ∧ k ∈ ks ∨ u ≠ t ∧ k ∈ f u := by
  by_cases hu : u = t
  · subst hu
    simp
  · simp [hu]

theorem nodup_update (hf : ∀ u, (f u).Nodup) (hk : ks.Nodup) (u : T) :
    (Function.update f t ks u).Nodup := by
  by_cases hu : u = t
  · subst hu
    simpa using hk
  · simpa [hu] using hf u

/-- A list that starts afresh matters to its own members only. -/
theorem mem_update_nil (ht : f t = []) (hk : k ∉ ks) :
    k ∈ Function.update f t ks u ↔ k ∈ f u := by
  rw [mem_update]
  by_cases hu : u = t
  · subst hu
    simp [ht, hk]
  · simp [hu]

theorem mem_of_mem_tail (ht : f t = k :: rest) (hj : j ∈ Function.update f t rest u) :
    j ∈ f u := by
  rcases mem_update.mp hj with ⟨hu, hm⟩ | ⟨-, hm⟩
  · rw [hu, ht]
    exact List.mem_cons_of_mem _ hm
  · exact hm

theorem mem_update_tail (ht : f t = k :: rest) (hj : j ≠ k) :
    j ∈ Function.update f t rest u ↔ j ∈ f u := by
  refine ⟨mem_of_mem_tail ht, fun hm => mem_update.mpr ?_⟩
  by_cases hu : u = t
  · subst hu
    rw [ht] at hm
    exact .inl ⟨rfl, (List.mem_cons.mp hm).resolve_left hj⟩
  · exact .inr ⟨hu, hm⟩

/-- Once the only mention of `k` is dropped, it is mentioned nowhere. -/
theorem not_mem_tail (ht : f t = k :: rest) (hf : (f t).Nodup)
    (hapart : ∀ u k, k ∈ f t → k ∈ f u → t = u) : k ∉ Function.update f t rest u := by
  intro hm
  rw [ht] at hf
  rcases mem_update.mp hm with ⟨-, hr⟩ | ⟨hu, hr⟩
  · exact (List.nodup_cons.mp hf).1 hr
  · exact hu (hapart u k (by simp [ht]) hr).symm

omit [DecidableEq T] in
theorem nodup_tail (ht : f t = k :: rest) (hf : (f t).Nodup) : rest.Nodup := by
  rw [ht] at hf
  exact (List.nodup_cons.mp hf).2

end

/-- Thread `t` opens `ks`, which are not marked yet. -/
def «open» (A : Account K T) (t : T) (ks : List K) : Account K T :=
  { A with live := fun k => A.live k ∨ k ∈ ks, opening := Function.update A.opening t ks }

/-- Thread `t` has the things `ks` left to mark as opened. -/
def toTake (A : Account K T) (t : T) (ks : List K) : Account K T :=
  { A with opening := Function.update A.opening t ks }

/-- Thread `t` closes `ks`, which are not marked yet. -/
def close (A : Account K T) (t : T) (ks : List K) : Account K T :=
  { A with live := fun k => A.live k ∧ k ∉ ks, closing := Function.update A.closing t ks }

def toGive (A : Account K T) (t : T) (ks : List K) : Account K T :=
  { A with closing := Function.update A.closing t ks }

/-- The things `ks` are gone, and no mark will say so. -/
def lose [DecidableEq K] (A : Account K T) (ks : List K) : Account K T :=
  { A with
    live := fun k => A.live k ∧ k ∉ ks
    lost := fun k => if k ∈ ks then A.lost k + 1 else A.lost k }

theorem Agrees.open (h : A.Agrees marks) (t : T) (ks : List K) (ht : A.opening t = [])
    (hnew : ∀ k ∈ ks, ¬ A.live k ∧ ∀ u, k ∉ A.closing u) (hks : ks.Nodup) :
    (A.open t ks).Agrees marks := by
  have hdue : ∀ k, (A.open t ks).Due k ↔ A.Due k := by
    intro k
    by_cases hk : k ∈ ks
    · obtain ⟨hdead, hclosed⟩ := hnew k hk
      have hmem : k ∈ Function.update A.opening t ks t := by simpa using hk
      simp only [Due, Account.open, hdead, hclosed, hk, false_and, exists_false, or_false,
        false_or, true_and, iff_false, not_forall, not_not]
      exact ⟨t, hmem⟩
    · simp [Due, Account.open, hk, mem_update_nil ht hk]
  have hfresh : ∀ u, ∀ k ∈ A.opening u, k ∉ ks :=
    fun u k hk hm => (hnew k hm).1 (h.opens u k hk)
  constructor
  · intro u k hk
    rcases mem_update.mp hk with ⟨-, hm⟩ | ⟨-, hm⟩
    · exact .inr hm
    · exact .inl (h.opens u k hm)
  · rintro u k hk (hl | hm)
    · exact h.closes u k hk hl
    · exact (hnew k hm).2 u hk
  · exact nodup_update h.openOnce hks
  · exact h.closeOnce
  · intro u v k hu hv
    rcases mem_update.mp hu with ⟨hut, hku⟩ | ⟨-, hku⟩ <;>
      rcases mem_update.mp hv with ⟨hvt, hkv⟩ | ⟨-, hkv⟩
    · rw [hut, hvt]
    · exact absurd hku (hfresh v k hkv)
    · exact absurd hkv (hfresh u k hku)
    · exact h.openApart u v k hku hkv
  · exact h.closeApart
  · exact fun k hk => h.due k ((hdue k).mp hk)
  · exact fun k hk => h.notDue k fun hd => hk ((hdue k).mpr hd)
  · exact h.alternates

/-- What is closed was marked as opened before. -/
theorem Agrees.close (h : A.Agrees marks) (t : T) (ks : List K) (ht : A.closing t = [])
    (hold : ∀ k ∈ ks, A.live k ∧ ∀ u, k ∉ A.opening u) (hks : ks.Nodup) :
    (A.close t ks).Agrees marks := by
  have hdue : ∀ k, (A.close t ks).Due k ↔ A.Due k := by
    intro k
    by_cases hk : k ∈ ks
    · have hmem : k ∈ Function.update A.closing t ks t := by simpa using hk
      exact ⟨fun _ => .inl (hold k hk), fun _ => .inr ⟨t, hmem⟩⟩
    · simp [Due, Account.close, hk, mem_update_nil ht hk]
  have hfresh : ∀ u, ∀ k ∈ A.closing u, k ∉ ks :=
    fun u k hk hm => h.closes u k hk (hold k hm).1
  constructor
  · exact fun u k hk => ⟨h.opens u k hk, fun hm => (hold k hm).2 u hk⟩
  · rintro u k hk ⟨hl, hm⟩
    rcases mem_update.mp hk with ⟨-, hk'⟩ | ⟨-, hk'⟩
    · exact hm hk'
    · exact h.closes u k hk' hl
  · exact h.openOnce
  · exact nodup_update h.closeOnce hks
  · exact h.openApart
  · intro u v k hu hv
    rcases mem_update.mp hu with ⟨hut, hku⟩ | ⟨-, hku⟩ <;>
      rcases mem_update.mp hv with ⟨hvt, hkv⟩ | ⟨-, hkv⟩
    · rw [hut, hvt]
    · exact absurd hku (hfresh v k hkv)
    · exact absurd hkv (hfresh u k hku)
    · exact h.closeApart u v k hku hkv
  · exact fun k hk => h.due k ((hdue k).mp hk)
  · exact fun k hk => h.notDue k fun hd => hk ((hdue k).mpr hd)
  · exact h.alternates

omit [DecidableEq T] in
theorem Agrees.lose [DecidableEq K] (h : A.Agrees marks) (ks : List K)
    (hold : ∀ k ∈ ks, A.live k ∧ ∀ u, k ∉ A.opening u) : (A.lose ks).Agrees marks := by
  have hother : ∀ k, k ∉ ks → ((A.lose ks).Due k ↔ A.Due k) := by
    intro k hk
    simp [Due, Account.lose, hk]
  have hself : ∀ k ∈ ks, A.Due k ∧ ¬ (A.lose ks).Due k := by
    intro k hk
    refine ⟨.inl (hold k hk), ?_⟩
    rintro (⟨⟨-, hm⟩, -⟩ | ⟨u, hc⟩)
    · exact hm hk
    · exact h.closes u k hc (hold k hk).1
  constructor
  · exact fun u k hk => ⟨h.opens u k hk, fun hm => (hold k hm).2 u hk⟩
  · exact fun u k hk hl => h.closes u k hk hl.1
  · exact h.openOnce
  · exact h.closeOnce
  · exact h.openApart
  · exact h.closeApart
  · intro k hd
    by_cases hk : k ∈ ks
    · exact absurd hd (hself k hk).2
    · simp only [Account.lose, hk, if_false]
      exact h.due k ((hother k hk).mp hd)
  · intro k hd
    by_cases hk : k ∈ ks
    · have hcount := h.due k (hself k hk).1
      simp only [Account.lose, hk, if_true]
      omega
    · simp only [Account.lose, hk, if_false]
      exact h.notDue k fun hd' => hd ((hother k hk).mpr hd')
  · intro k h0
    by_cases hk : k ∈ ks
    · simp [Account.lose, hk] at h0
    · simp only [Account.lose, hk, if_false] at h0
      exact h.alternates k h0

/-! ## Marks -/

variable [DecidableEq K]

omit [DecidableEq T] in
/-- A mark on `k` changes what is owed for `k` and for nothing else. -/
theorem Agrees.mark {B : Account K T} {k : K} {b : Bool} (h : A.Agrees marks)
    (hl : B.live = A.live) (hx : B.lost = A.lost)
    (ho : ∀ u, (B.opening u).Nodup ∧ ∀ j ∈ B.opening u, j ∈ A.opening u)
    (hc : ∀ u, (B.closing u).Nodup ∧ ∀ j ∈ B.closing u, j ∈ A.closing u)
    (hself : if b then ¬ A.Due k ∧ B.Due k else A.Due k ∧ ¬ B.Due k)
    (hother : ∀ j, j ≠ k → (B.Due j ↔ A.Due j)) :
    B.Agrees (Function.update marks k (marks k ++ [b])) := by
  constructor
  · exact fun u j hj => hl ▸ h.opens u j ((ho u).2 j hj)
  · exact fun u j hj => hl ▸ h.closes u j ((hc u).2 j hj)
  · exact fun u => (ho u).1
  · exact fun u => (hc u).1
  · exact fun u v j hu hv => h.openApart u v j ((ho u).2 j hu) ((ho v).2 j hv)
  · exact fun u v j hu hv => h.closeApart u v j ((hc u).2 j hu) ((hc v).2 j hv)
  · intro j hd
    rw [hx]
    by_cases hj : j = k
    · subst hj
      cases b with
      | true =>
        have hcount := h.notDue j hself.1
        simp [List.count_append, hcount]
      | false => exact absurd hd hself.2
    · rw [Function.update_of_ne hj]
      exact h.due j ((hother j hj).mp hd)
  · intro j hd
    rw [hx]
    by_cases hj : j = k
    · subst hj
      cases b with
      | true => exact absurd hself.2 hd
      | false =>
        have hcount := h.due j hself.1
        simp [List.count_append, hcount]
        omega
    · rw [Function.update_of_ne hj]
      exact h.notDue j fun hd' => hd ((hother j hj).mpr hd')
  · intro j h0
    rw [hx] at h0
    by_cases hj : j = k
    · subst hj
      rw [Function.update_self]
      cases b with
      | true =>
        have hcount := h.notDue j hself.1
        exact (h.alternates j h0).take (by omega)
      | false =>
        have hcount := h.due j hself.1
        exact (h.alternates j h0).give (by omega)
    · rw [Function.update_of_ne hj]
      exact h.alternates j h0

/-- The ledger takes the first thing a thread has to mark as opened. -/
theorem Agrees.take (h : A.Agrees marks) (t : T) (k : K) (rest : List K)
    (ht : A.opening t = k :: rest) :
    (A.toTake t rest).Agrees (Function.update marks k (marks k ++ [true])) := by
  have hk : k ∈ A.opening t := by simp [ht]
  have hlive := h.opens t k hk
  have hnot : ¬ A.Due k := by
    rintro (⟨-, ho⟩ | ⟨u, hc⟩)
    · exact ho t hk
    · exact h.closes u k hc hlive
  have hdue : (A.toTake t rest).Due k :=
    .inl ⟨hlive, fun u => not_mem_tail ht (h.openOnce t) fun u k hk hu => h.openApart t u k hk hu⟩
  refine h.mark rfl rfl (fun u => ⟨?_, fun j hj => mem_of_mem_tail ht hj⟩)
    (fun u => ⟨h.closeOnce u, fun j hj => hj⟩) ⟨hnot, hdue⟩ fun j hj => ?_
  · exact nodup_update h.openOnce (nodup_tail ht (h.openOnce t)) u
  · simp [Due, toTake, mem_update_tail ht hj]

/-- The ledger gives back the first thing a thread has to mark as closed. -/
theorem Agrees.give (h : A.Agrees marks) (t : T) (k : K) (rest : List K)
    (ht : A.closing t = k :: rest) :
    (A.toGive t rest).Agrees (Function.update marks k (marks k ++ [false])) := by
  have hk : k ∈ A.closing t := by simp [ht]
  have hnot : ¬ (A.toGive t rest).Due k := by
    rintro (⟨hl, -⟩ | ⟨u, hu⟩)
    · exact h.closes t k hk hl
    · exact not_mem_tail ht (h.closeOnce t) (fun u k hk hu => h.closeApart t u k hk hu) hu
  refine h.mark rfl rfl (fun u => ⟨h.openOnce u, fun j hj => hj⟩)
    (fun u => ⟨?_, fun j hj => mem_of_mem_tail ht hj⟩) ⟨.inr ⟨t, hk⟩, hnot⟩ fun j hj => ?_
  · exact nodup_update h.closeOnce (nodup_tail ht (h.closeOnce t)) u
  · simp [Due, toGive, mem_update_tail ht hj]

omit [DecidableEq T] [DecidableEq K] in
/-- While no thread is between a change and its mark, the ledger holds what is live, and
what was lost. -/
theorem Agrees.settled (h : A.Agrees marks) (ho : ∀ t, A.opening t = [])
    (hc : ∀ t, A.closing t = []) (k : K) : held (marks k) = true ↔ A.live k ∨ 0 < A.lost k := by
  have hdue : A.Due k ↔ A.live k := by simp [Due, ho, hc]
  simp only [held, decide_eq_true_eq]
  by_cases hl : A.live k
  · have hcount := h.due k (hdue.mpr hl)
    simp only [hl, true_or, iff_true]
    omega
  · have hcount := h.notDue k fun hd => hl (hdue.mp hd)
    simp only [hl, false_or]
    omega

end Account

end P101Filesystem.Ledger
