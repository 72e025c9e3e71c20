import P101Filesystem.Effect.Activations

/-!
# The events of one call

A call is numbered by its place in the log, so no two calls share a number, and what a
thread logs under a number is the history of one call.
-/
namespace P101Filesystem.Effect

variable {Op V G C A S L X : Type}

/-- The calls on a stack, by number. -/
def codes (stack : List (Frame Op V G C L)) : List (Nat × Activation Op V C L) :=
  stack.filterMap fun
    | .code id act _ => some (id, act)
    | .outside .. => none

@[simp] theorem codes_nil : codes ([] : List (Frame Op V G C L)) = [] := rfl

@[simp] theorem codes_outside (g : G) (heard : List V) (since : L)
    (below : List (Frame Op V G C L)) : codes (.outside g heard since :: below) = codes below := rfl

@[simp] theorem codes_code (id : Nat) (act : Activation Op V C L) (rest : Program Op V V)
    (below : List (Frame Op V G C L)) :
    codes (.code id act rest :: below) = (id, act) :: codes below := rfl

theorem mem_codes {stack : List (Frame Op V G C L)} {id : Nat} {act : Activation Op V C L}
    {rest : Program Op V V} (h : .code id act rest ∈ stack) : (id, act) ∈ codes stack :=
  List.mem_filterMap.mpr ⟨_, h, rfl⟩

/-- What thread `t` has logged under the number `id`. -/
def eventsOf (log : List (Nat × Item Op V G C L X)) (t id : Nat) : List (Event Op V L) :=
  log.filterMap fun
    | (u, .event j e) => if u = t ∧ j = id then some e else none
    | _ => none

section
variable {log : List (Nat × Item Op V G C L X)} {t u id j : Nat} {e : Event Op V L}

theorem mem_eventsOf : e ∈ eventsOf log t id ↔ (t, Item.event id e) ∈ log := by
  simp only [eventsOf, List.mem_filterMap]
  constructor
  · rintro ⟨⟨u, i⟩, hi, he⟩
    cases i with
    | event j d =>
      simp only [Option.ite_none_right_eq_some, Option.some.injEq] at he
      obtain ⟨⟨rfl, rfl⟩, rfl⟩ := he
      exact hi
    | _ => cases he
  · intro hi
    exact ⟨_, hi, by simp⟩

theorem eventsOf_event : eventsOf (log ++ [(u, Item.event j e)]) t id =
    eventsOf log t id ++ if u = t ∧ j = id then [e] else [] := by
  by_cases h : u = t ∧ j = id
  · simp [eventsOf, h]
  · simp [eventsOf, h]

theorem eventsOf_quiet {i : Item Op V G C L X} (h : ∀ j e, i ≠ .event j e) :
    eventsOf (log ++ [(u, i)]) t id = eventsOf log t id := by
  cases i with
  | event j e => exact absurd rfl (h j e)
  | _ => simp [eventsOf]

end

/-- The calls on thread `t`'s stack and those that have returned, against the log. -/
structure Numbered (t : Nat) (running : List (Nat × Activation Op V C L))
    (log : List (Nat × Item Op V G C L X)) : Prop where
  distinct : (running.map Prod.fst).Nodup
  past : ∀ id act, (id, act) ∈ running → eventsOf log t id = act.past
  unreturned : ∀ id act, (id, act) ∈ running → ∀ act' v, (t, Item.exit id act' v) ∉ log
  returned : ∀ id act v, (t, Item.exit id act v) ∈ log → eventsOf log t id = act.past
  bounded : ∀ id act, (id, act) ∈ running → id < log.length
  fresh : ∀ id, log.length ≤ id →
    eventsOf log t id = [] ∧ ∀ act v, (t, Item.exit id act v) ∉ log

namespace Numbered
variable {t u id : Nat} {act : Activation Op V C L} {i : Item Op V G C L X}
  {running : List (Nat × Activation Op V C L)} {log : List (Nat × Item Op V G C L X)}

/-- Items that are no event and no exit of this thread change nothing. -/
theorem quiet (h : Numbered t running log) (he : ∀ j e, u = t → i ≠ .event j e)
    (hx : ∀ j a v, u = t → i ≠ .exit j a v) : Numbered t running (log ++ [(u, i)]) := by
  have hevents : ∀ id, eventsOf (log ++ [(u, i)]) t id = eventsOf log t id := by
    intro id
    cases i with
    | event j e =>
      have hu : u ≠ t := fun hu => he j e hu rfl
      simp [eventsOf_event, hu]
    | _ => exact eventsOf_quiet (by simp)
  have hexit : ∀ id act v, (t, Item.exit id act v) ∈ log ++ [(u, i)] ↔
      (t, Item.exit id act v) ∈ log := by
    intro id act v
    simp only [List.mem_append, List.mem_singleton, Prod.mk.injEq, or_iff_left_iff_imp]
    rintro ⟨hu, hi⟩
    exact absurd hi.symm (hx id act v hu.symm)
  constructor
  · exact h.distinct
  · simpa only [hevents] using h.past
  · simpa only [hexit] using h.unreturned
  · simpa only [hevents, hexit] using h.returned
  · intro id act hmem
    have hlt := h.bounded id act hmem
    simp only [List.length_append, List.length_singleton]
    omega
  · intro id hid
    simp only [List.length_append, List.length_singleton] at hid
    simpa only [hevents, hexit] using h.fresh id (by omega)

/-- A call gets the next place in the log as its number. -/
theorem call (h : Numbered t running log) (c : C) (base : V) (start : L) :
    Numbered t ((log.length, ⟨c, base, start, []⟩) :: running)
      (log ++ [(t, .call log.length c base)]) := by
  have hq : Numbered t running (log ++ [(t, Item.call log.length c base)]) :=
    h.quiet (by simp) (by simp)
  obtain ⟨hnone, hexit⟩ := h.fresh log.length (Nat.le_refl _)
  constructor
  · simp only [List.map_cons, List.nodup_cons]
    refine ⟨fun hmem => ?_, h.distinct⟩
    obtain ⟨⟨id, act⟩, hin, hid⟩ := List.mem_map.mp hmem
    have hlt := h.bounded id act hin
    simp only at hid
    omega
  · intro id act hmem
    rcases List.mem_cons.mp hmem with hnew | hmem
    · obtain ⟨rfl, rfl⟩ := Prod.mk.inj hnew
      rw [eventsOf_quiet (by simp)]
      exact hnone
    · exact hq.past id act hmem
  · intro id act hmem
    rcases List.mem_cons.mp hmem with hnew | hmem
    · obtain ⟨rfl, rfl⟩ := Prod.mk.inj hnew
      intro act' v hin
      simp only [List.mem_append, List.mem_singleton, Prod.mk.injEq, reduceCtorEq, and_false,
        or_false] at hin
      exact hexit act' v hin
    · exact hq.unreturned id act hmem
  · exact hq.returned
  · intro id act hmem
    rcases List.mem_cons.mp hmem with hnew | hmem
    · obtain ⟨rfl, rfl⟩ := Prod.mk.inj hnew
      simp
    · exact hq.bounded id act hmem
  · exact hq.fresh

/-- The call on top goes through one more event. -/
theorem event (h : Numbered t ((id, act) :: running) log) (e : Event Op V L) :
    Numbered t ((id, act.push e) :: running) (log ++ [(t, .event id e)]) := by
  obtain ⟨hid, hdistinct⟩ := List.nodup_cons.mp h.distinct
  have hother : ∀ j act', (j, act') ∈ running → j ≠ id := by
    rintro j act' hmem rfl
    exact hid (List.mem_map.mpr ⟨_, hmem, rfl⟩)
  have hexit : ∀ j act' v, (t, Item.exit j act' v) ∈ log ++ [(t, Item.event id e)] ↔
      (t, Item.exit j act' v) ∈ log := by simp
  have hlt := h.bounded id act (by simp)
  constructor
  · exact h.distinct
  · intro j act' hmem
    rw [eventsOf_event]
    rcases List.mem_cons.mp hmem with hnew | hmem
    · obtain ⟨rfl, rfl⟩ := Prod.mk.inj hnew
      simp [h.past j act (by simp)]
    · simp [Ne.symm (hother j act' hmem), h.past j act' (by simp [hmem])]
  · intro j act' hmem
    simp only [hexit]
    rcases List.mem_cons.mp hmem with hnew | hmem
    · obtain ⟨rfl, -⟩ := Prod.mk.inj hnew
      exact h.unreturned j act (by simp)
    · exact h.unreturned j act' (by simp [hmem])
  · intro j act' v hin
    rw [hexit] at hin
    have hj : id ≠ j := by
      rintro rfl
      exact h.unreturned id act (by simp) act' v hin
    simp [eventsOf_event, hj, h.returned j act' v hin]
  · intro j act' hmem
    simp only [List.length_append, List.length_singleton]
    rcases List.mem_cons.mp hmem with hnew | hmem
    · obtain ⟨rfl, -⟩ := Prod.mk.inj hnew
      omega
    · have hj := h.bounded j act' (by simp [hmem])
      omega
  · intro j hj
    simp only [List.length_append, List.length_singleton] at hj
    obtain ⟨hnone, hx⟩ := h.fresh j (by omega)
    have hne : id ≠ j := by omega
    exact ⟨by simp [eventsOf_event, hne, hnone], by simpa using hx⟩

/-- The call on top returns. -/
theorem exit (h : Numbered t ((id, act) :: running) log) (v : V) :
    Numbered t running (log ++ [(t, .exit id act v)]) := by
  obtain ⟨hid, hdistinct⟩ := List.nodup_cons.mp h.distinct
  have hother : ∀ j act', (j, act') ∈ running → j ≠ id := by
    rintro j act' hmem rfl
    exact hid (List.mem_map.mpr ⟨_, hmem, rfl⟩)
  have hevents : ∀ j, eventsOf (log ++ [(t, Item.exit id act v)]) t j = eventsOf log t j :=
    fun j => eventsOf_quiet (by simp)
  have hlt := h.bounded id act (by simp)
  constructor
  · exact hdistinct
  · intro j act' hmem
    rw [hevents]
    exact h.past j act' (by simp [hmem])
  · intro j act' hmem act'' w hin
    simp only [List.mem_append, List.mem_singleton, Prod.mk.injEq, true_and, Item.exit.injEq] at hin
    rcases hin with hin | ⟨hj, -⟩
    · exact h.unreturned j act' (by simp [hmem]) act'' w hin
    · exact hother j act' hmem hj
  · intro j act' w hin
    rw [hevents]
    simp only [List.mem_append, List.mem_singleton, Prod.mk.injEq, true_and, Item.exit.injEq] at hin
    rcases hin with hin | ⟨rfl, rfl, rfl⟩
    · exact h.returned j act' w hin
    · exact h.past j act' (by simp)
  · intro j act' hmem
    have hj := h.bounded j act' (by simp [hmem])
    simp only [List.length_append, List.length_singleton]
    omega
  · intro j hj
    simp only [List.length_append, List.length_singleton] at hj
    obtain ⟨hnone, hx⟩ := h.fresh j (by omega)
    refine ⟨(hevents j).trans hnone, fun act' w hin => ?_⟩
    simp only [List.mem_append, List.mem_singleton, Prod.mk.injEq, true_and, Item.exit.injEq] at hin
    rcases hin with hin | ⟨rfl, -⟩
    · exact hx act' w hin
    · omega

theorem stepped {sys : System Op V G C A S L X} {s s' : S} {th th' : Thread Op V G C L}
    {m : Move V G C A X} (hs : Thread.Stepped sys log.length s th m s' th' i)
    (h : Numbered t (codes th.stack) log) : Numbered t (codes th'.stack) (log ++ [(t, i)]) := by
  cases hs with
  | call => exact h.call _ _ _
  | back | op => exact h.event _
  | exit => exact h.exit _
  | invoke | act | backOutside | hand => exact h.quiet (by simp) (by simp)

end Numbered

namespace Config

theorem Reach.numbered {sys : System Op V G C A S L X} {legal} {main : G} {s : S} {l : L}
    {cfg : Config Op V G C S L X} (h : Reach sys legal (Config.init main s l) cfg) (t : Nat) :
    Numbered t (codes (cfg.threads t).stack) cfg.log := by
  induction h with
  | init => constructor <;> simp [Config.init, eventsOf]
  | @step cfg cfg' u m _ _ hs ih =>
    obtain ⟨s', th, i, hst, rfl⟩ := Config.stepped hs
    by_cases hut : u = t
    · subst hut
      simpa using ih.stepped hst
    · simp only [Function.update_of_ne (Ne.symm hut)]
      exact ih.quiet (fun _ _ hu => absurd hu hut) (fun _ _ _ hu => absurd hu hut)

/-- The log has the history of every call under its number. -/
theorem Reach.eventsOf {sys : System Op V G C A S L X} {legal} {main : G} {s : S} {l : L}
    {cfg : Config Op V G C S L X} (h : Reach sys legal (Config.init main s l) cfg) {t id : Nat}
    {act : Activation Op V C L} (ha : cfg.Activated t id act) :
    Effect.eventsOf cfg.log t id = act.past := by
  rcases ha with ⟨rest, hmem⟩ | ⟨v, hmem⟩
  · exact (h.numbered t).past id act (mem_codes hmem)
  · exact (h.numbered t).returned id act v hmem

theorem Reach.logged {sys : System Op V G C A S L X} {legal} {main : G} {s : S} {l : L}
    {cfg : Config Op V G C S L X} (h : Reach sys legal (Config.init main s l) cfg) {t id : Nat}
    {act : Activation Op V C L} (ha : cfg.Activated t id act) {e : Event Op V L}
    (he : e ∈ act.past) : (t, Item.event id e) ∈ cfg.log :=
  mem_eventsOf.mp (h.eventsOf ha ▸ he)

end Config

end P101Filesystem.Effect
