import P101Filesystem.Walk.Phases
import P101Filesystem.Effect.Activations

/-!
# The stack of walk contexts

Per thread and kind, the linked contexts form a list through `previous` that starts at the
thread's pointer. `Stacked` says it frame by frame: each frame holds what its phase
promises, given the pointers it found when it was entered, and the frames below still hold
under those. Threads interleave freely, since a thread writes its own contexts only.
-/
namespace P101Filesystem

open Effect

/-- What the list is made of: `stopped` is not part of it. -/
def Shared.shape (s : Shared) (p : Word) : Option (Kind × Word × Word) :=
  (s.cells p).map fun c => (c.kind, c.callback, c.previous)

/-- In phase `ph` a call that found the pointers `under` has left them at `active`. -/
def Holds (s : Shared) (active under : Kind → Word) (b : Word) : Role → Phase → Prop
  | .walk k _, .entered => active = under ∧ b ≠ NULL ∧ ∃ f q, s.shape b = some (k, f, q)
  | .walk k fn, .named => active = under ∧ b ≠ NULL ∧ ∃ q, s.shape b = some (k, fn, q)
  | .walk k fn, .cleared => active = under ∧ b ≠ NULL ∧ ∃ q, s.shape b = some (k, fn, q)
  | .walk k fn, .found p =>
    active = under ∧ b ≠ NULL ∧ p = under k ∧ ∃ q, s.shape b = some (k, fn, q)
  | .walk k fn, .saved => active = under ∧ b ≠ NULL ∧ s.shape b = some (k, fn, under k)
  | .walk k fn, .linked =>
    active = Function.update under k b ∧ b ≠ NULL ∧ s.shape b = some (k, fn, under k)
  | .walk k fn, .restoring p => active = Function.update under k b ∧ b ≠ NULL ∧ p = under k ∧
    s.shape b = some (k, fn, under k)
  | .walk k fn, .unlinked => active = under ∧ b ≠ NULL ∧ s.shape b = some (k, fn, under k)
  | .trampoline _, .looking => active = under
  | .trampoline k, .holding p => active = under ∧ p = under k
  | .trampoline k, .calling p => active = under ∧ p = under k
  | .trampoline k, .answered p => active = under ∧ p = under k
  | .plain, .plain => active = under
  | _, _ => False

/-- How often a call has set a pointer: once while its context is linked. -/
def sets (past : List Event) : Nat :=
  (past.filter fun e => match e.op with | .setActive _ _ => true | _ => false).length

def Phase.sets : Phase → Nat
  | .linked => 1
  | .restoring _ => 1
  | .unlinked => 2
  | _ => 0

/-- The contexts on a stack, of calls that have not returned. -/
def contexts : List Frame → List Word
  | [] => []
  | .outside _ _ _ :: below => contexts below
  | .code _ act _ :: below =>
    if act.entry.walk.isSome then act.base :: contexts below else contexts below

inductive Stacked (s : Shared) : (Kind → Word) → List Frame → Prop
  | main {active heard since} : active = (fun _ => NULL) →
      Stacked s active [.outside .main heard since]
  | outside {active g heard since below} : Stacked s active below →
      Stacked s active (.outside g heard since :: below)
  | code {active ph id act rest below} : Stacked s act.start.active below →
      (act.entry.role.protocol act.base).Keeps ph rest →
      Holds s active act.start.active act.base act.entry.role ph → sets act.past = ph.sets →
      (act.entry.walk.isSome → act.base ∉ contexts below) →
      Stacked s active (.code id act rest :: below)

theorem Call.walk_of_role {c : Call} {k : Kind} {fn : Word} :
    c.role = .walk k fn ↔ c.walk = some (k, fn) := by
  cases c <;> simp [Call.role, Call.walk]

theorem Call.walk_eq_none {c : Call} (h : ∀ k fn, c.role ≠ .walk k fn) : c.walk = none := by
  cases hw : c.walk with
  | none => rfl
  | some w => exact absurd (Call.walk_of_role.mpr hw) (h _ _)

/-- Another memory will do if it agrees on the context. -/
theorem Holds.transport {s s' : Shared} {active under : Kind → Word} {b : Word} {r : Role}
    {ph : Phase} (h : Holds s active under b r ph)
    (hs : (∃ k fn, r = .walk k fn) → s'.shape b = s.shape b) : Holds s' active under b r ph := by
  cases r with
  | walk k fn =>
    have hb := hs ⟨k, fn, rfl⟩
    cases ph <;> simp only [Holds, hb] at h ⊢ <;> exact h
  | trampoline k => cases ph <;> exact h
  | plain => cases ph <;> exact h

namespace Stacked

variable {s s' : Shared} {active : Kind → Word} {stack : List Frame}

theorem transport (h : Stacked s active stack)
    (hs : ∀ p ∈ contexts stack, s'.shape p = s.shape p) : Stacked s' active stack := by
  induction h with
  | main ha => exact .main ha
  | outside _ ih => exact .outside (ih hs)
  | @code active ph id act rest below _ hk hh hn hb ih =>
    have hbelow : ∀ p ∈ contexts below, s'.shape p = s.shape p := by
      intro p hm
      refine hs p ?_
      unfold contexts
      split
      · exact List.mem_cons_of_mem _ hm
      · exact hm
    refine .code (ih hbelow) hk (hh.transport ?_) hn hb
    rintro ⟨k, fn, hr⟩
    refine hs _ ?_
    have hw := Call.walk_of_role.mp hr
    simp [contexts, hw]

/-- Contexts of calls that have not returned are in scope. -/
theorem inScope (h : Stacked s active stack) {p : Word} (hp : p ∈ contexts stack) :
    s.cells p ≠ none := by
  induction h with
  | main => cases hp
  | outside _ ih => exact ih hp
  | @code active ph id act rest below _ _ hh _ _ ih =>
    unfold contexts at hp
    split at hp
    · next hw =>
      rcases List.mem_cons.mp hp with rfl | hp
      · obtain ⟨⟨k, fn⟩, hw⟩ := Option.isSome_iff_exists.mp hw
        have hr := Call.walk_of_role.mpr hw
        intro hnone
        rw [hr] at hh
        cases ph <;> simp [Holds, Shared.shape, hnone] at hh
      · exact ih hp
    · exact ih hp

end Stacked

/-! ## One operation -/

theorem inert_run {o : Op} {a : Answer} {s s' : Shared} {l l' : Local} {v : Word}
    (hi : o.inert = true) (hr : o.run a s l = some (v, s', l')) :
    s' = s ∧ l'.active = l.active := by
  cases o <;> simp [Op.inert] at hi <;> simp only [Op.run, Option.some.injEq, Prod.mk.injEq] at hr <;>
    obtain ⟨-, rfl, rfl⟩ := hr <;> exact ⟨rfl, rfl⟩

theorem inert_party {o : Op} (h : o.inert = true) : o.party = none := by
  cases o <;> first | rfl | cases h

theorem storeField_run {k : Kind} {b u v : Word} {f : Field} {a : Answer} {s s' : Shared}
    {l l' : Local} (hr : (Op.storeField k b f u).run a s l = some (v, s', l')) :
    ∃ c, s.cells b = some c ∧ c.kind = k ∧ s' = s.put b (some (c.set u f)) ∧ l' = l := by
  simp only [Op.run, Option.map_eq_some_iff, Prod.mk.injEq] at hr
  obtain ⟨c, hc, -, rfl, rfl⟩ := hr
  obtain ⟨hcell, hkind⟩ := Shared.context_eq_some.mp hc
  exact ⟨c, hcell, hkind, rfl, rfl⟩

theorem loadField_run {k : Kind} {b v : Word} {f : Field} {a : Answer} {s s' : Shared}
    {l l' : Local} (hr : (Op.loadField k b f).run a s l = some (v, s', l')) :
    ∃ c, s.cells b = some c ∧ c.kind = k ∧ v = c.get f ∧ s' = s ∧ l' = l := by
  simp only [Op.run, Option.map_eq_some_iff, Prod.mk.injEq] at hr
  obtain ⟨c, hc, rfl, rfl, rfl⟩ := hr
  obtain ⟨hcell, hkind⟩ := Shared.context_eq_some.mp hc
  exact ⟨c, hcell, hkind, rfl, rfl, rfl⟩

theorem Shared.shape_put_ne {s : Shared} {p q : Word} {c : Option Context} (h : p ≠ q) :
    (s.put q c).shape p = s.shape p := by
  simp [Shared.shape, h]

/-- Marking a context as stopped leaves the list as it is. -/
theorem Shared.shape_stopped {s : Shared} {q : Word} {c : Context} (u : Word)
    (hc : s.cells q = some c) (p : Word) :
    (s.put q (some (c.set u .stopped))).shape p = s.shape p := by
  by_cases hp : p = q
  · subst hp
    simp [Shared.shape, hc, Context.set]
  · exact shape_put_ne hp

/-- A step of a call keeps what its phase promises, and other contexts as they are. -/
theorem Holds.step {s s' : Shared} {l l' : Local} {under : Kind → Word} {b v : Word} {r : Role}
    {ph ph' : Phase} {o : Op} {a : Answer} (hh : Holds s l.active under b r ph)
    (hs : r.Step b ph o v ph') (hr : o.run a s l = some (v, s', l')) :
    Holds s' l'.active under b r ph' ∧
      ∀ p, (∀ k fn, r = .walk k fn → p ≠ b) → s'.shape p = s.shape p := by
  cases r with
  | walk k fn =>
    cases hs with
    | inert hi =>
      obtain ⟨rfl, hl⟩ := inert_run hi hr
      rw [hl]
      exact ⟨hh, fun _ _ => rfl⟩
    | name =>
      obtain ⟨c, hc, hk, rfl, rfl⟩ := storeField_run hr
      obtain ⟨ha, hb, -⟩ := hh
      refine ⟨⟨ha, hb, c.previous, by simp [Shared.shape, Context.set, hk]⟩, fun p hp => ?_⟩
      exact Shared.shape_put_ne (hp k fn rfl)
    | @clear u _ =>
      obtain ⟨c, hc, hk, rfl, rfl⟩ := storeField_run hr
      have hsame := Shared.shape_stopped u hc
      exact ⟨hh.transport fun _ => hsame b, fun p _ => hsame p⟩
    | find =>
      simp only [Op.run, Option.some.injEq, Prod.mk.injEq] at hr
      obtain ⟨rfl, rfl, rfl⟩ := hr
      obtain ⟨ha, hb, hq⟩ := hh
      exact ⟨⟨ha, hb, by rw [ha], hq⟩, fun _ _ => rfl⟩
    | save =>
      obtain ⟨c, hc, hk, rfl, rfl⟩ := storeField_run hr
      obtain ⟨ha, hb, rfl, q', hq'⟩ := hh
      have hfn : c.callback = fn := by
        simp only [Shared.shape, hc, Option.map_some, Option.some.injEq, Prod.mk.injEq] at hq'
        exact hq'.2.1
      refine ⟨⟨ha, hb, by simp [Shared.shape, Context.set, hk, hfn]⟩, fun p hp => ?_⟩
      exact Shared.shape_put_ne (hp k fn rfl)
    | link =>
      simp only [Op.run, Option.some.injEq, Prod.mk.injEq] at hr
      obtain ⟨-, rfl, rfl⟩ := hr
      obtain ⟨ha, hb, hq⟩ := hh
      exact ⟨⟨by rw [ha], hb, hq⟩, fun _ _ => rfl⟩
    | run => cases hr
    | fetch =>
      obtain ⟨c, hc, hk, rfl, rfl, rfl⟩ := loadField_run hr
      obtain ⟨ha, hb, hq⟩ := hh
      have hprev : c.get .previous = under k := by
        simp only [Shared.shape, hc, Option.map_some, Option.some.injEq, Prod.mk.injEq] at hq
        exact hq.2.2
      exact ⟨⟨ha, hb, hprev, hq⟩, fun _ _ => rfl⟩
    | unlink =>
      simp only [Op.run, Option.some.injEq, Prod.mk.injEq] at hr
      obtain ⟨-, rfl, rfl⟩ := hr
      obtain ⟨ha, hb, rfl, hq⟩ := hh
      exact ⟨⟨by simp [ha], hb, hq⟩, fun _ _ => rfl⟩
    | check =>
      obtain ⟨c, hc, hk, -, rfl, rfl⟩ := loadField_run hr
      exact ⟨hh, fun _ _ => rfl⟩
  | trampoline k =>
    cases hs with
    | look =>
      simp only [Op.run, Option.some.injEq, Prod.mk.injEq] at hr
      obtain ⟨rfl, rfl, rfl⟩ := hr
      have ha : l.active = under := hh
      exact ⟨⟨ha, by rw [ha]⟩, fun _ _ => rfl⟩
    | fetch =>
      obtain ⟨c, hc, hk, -, rfl, rfl⟩ := loadField_run hr
      exact ⟨hh, fun _ _ => rfl⟩
    | call => cases hr
    | @mark _ u _ =>
      obtain ⟨c, hc, hk, rfl, rfl⟩ := storeField_run hr
      have hsame := Shared.shape_stopped u hc
      exact ⟨hh.transport fun _ => hsame b, fun p _ => hsame p⟩
  | plain =>
    cases hs with
    | inert hi =>
      obtain ⟨rfl, hl⟩ := inert_run hi hr
      rw [hl]
      exact ⟨hh, fun _ _ => rfl⟩
    | native => cases hr

/-- So does an outside party, which has no access to contexts. -/
theorem Holds.answered {s : Shared} {active under : Kind → Word} {b v : Word} {r : Role}
    {ph ph' : Phase} {o : Op} {g : Party} (hh : Holds s active under b r ph)
    (hs : r.Step b ph o v ph') (ho : o.party = some g) : Holds s active under b r ph' := by
  cases r with
  | walk k fn =>
    cases hs with
    | inert => exact hh
    | run => exact hh
    | _ => cases ho
  | trampoline k =>
    cases hs with
    | call => exact hh
    | _ => cases ho
  | plain => cases hs <;> exact hh

theorem Holds.first {s : Shared} {active : Kind → Word} {b : Word} {c : Call}
    (hs : ∀ k fn, c.walk = some (k, fn) → b ≠ NULL ∧ ∃ f q, s.shape b = some (k, f, q)) :
    Holds s active active b c.role c.role.first := by
  cases hr : c.role with
  | walk k fn => exact ⟨rfl, hs k fn (Call.walk_of_role.mp hr)⟩
  | trampoline k => exact rfl
  | plain => exact rfl

/-- A call that may return leaves the pointers as it found them. -/
theorem Holds.final {s : Shared} {active under : Kind → Word} {b : Word} {r : Role} {ph : Phase}
    (hh : Holds s active under b r ph) (hf : r.Final ph) : active = under := by
  cases r with
  | walk k fn => rcases hf with rfl | rfl <;> exact hh.1
  | trampoline k =>
    cases ph with
    | looking => exact hh
    | holding | calling | answered => exact hh.1
    | _ => exact hh.elim
  | plain =>
    cases ph with
    | plain => exact hh
    | _ => exact hh.elim

theorem Role.Step.sets {r : Role} {b v : Word} {ph ph' : Phase} {o : Op} (h : r.Step b ph o v ph')
    (past : List Event) (heard : List Word) (before after : Local)
    (hp : P101Filesystem.sets past = ph.sets) :
    P101Filesystem.sets (past ++ [⟨o, heard, v, before, after⟩]) = ph'.sets := by
  have hadd : P101Filesystem.sets (past ++ [⟨o, heard, v, before, after⟩]) =
      ph.sets + P101Filesystem.sets [⟨o, heard, v, before, after⟩] := by
    rw [← hp]
    simp [P101Filesystem.sets]
  rw [hadd]
  cases r with
  | walk k fn =>
    cases h with
    | @inert ph o v hi =>
      cases o <;> simp [Op.inert] at hi <;> simp [P101Filesystem.sets]
    | _ => rfl
  | trampoline k => cases h <;> rfl
  | plain =>
    cases h with
    | @inert o v hi =>
      cases o <;> simp [Op.inert] at hi <;> simp [P101Filesystem.sets, Phase.sets]
    | native => rfl

/-! ## One step of a thread -/

/-- What a step leaves to the other threads: their contexts, and apart from its own. -/
structure Kept (s s' : Shared) (stack stack' : List Frame) : Prop where
  others : ∀ p, p ∉ contexts stack → s.cells p ≠ none → s'.shape p = s.shape p
  fresh : ∀ p ∈ contexts stack', p ∈ contexts stack ∨ s.cells p = none

theorem Kept.refl {s s' : Shared} {stack stack' : List Frame} (hs : s'.cells = s.cells)
    (hc : contexts stack' = contexts stack) : Kept s s' stack stack' where
  others := fun p _ _ => by simp [Shared.shape, hs]
  fresh := fun p hp => .inl (hc ▸ hp)

/-- A new frame has a context of its own, or none. -/
theorem entered_stacked {π : Platform} {id : Nat} {s s' : Shared} {l : Local} {stack : List Frame}
    {c : Call} {base : Word} {a : Answer} (hst : Stacked s l.active stack)
    (he : enterFrame c base a s = some s') :
    Stacked s' l.active (.code id ⟨c, base, l, []⟩ (c.code π base) :: stack) ∧
      Kept s s' stack (.code id ⟨c, base, l, []⟩ (c.code π base) :: stack) := by
  have hsets : sets [] = c.role.first.sets := by cases c.role <;> rfl
  cases hw : c.walk with
  | none =>
    simp only [enterFrame, hw, Option.some.injEq] at he
    subst he
    refine ⟨.code hst (code_keeps π c base) (Holds.first ?_) hsets ?_, .refl rfl ?_⟩
    · intro k fn hk
      rw [hw] at hk
      cases hk
    · intro hk
      simp [hw] at hk
    · simp [contexts, hw]
  | some w =>
    obtain ⟨k, fn⟩ := w
    simp only [enterFrame, hw] at he
    split at he
    · next hroom =>
      obtain ⟨hne, hnone⟩ := hroom
      have hnone : s.cells base = none := by simpa using hnone
      simp only [Option.some.injEq] at he
      subst he
      have hnew : base ∉ contexts stack := fun hm => hst.inScope hm hnone
      have hold : ∀ p, p ≠ base → (s.put base (some ⟨k, a.word, a.word, a.word⟩)).shape p =
          s.shape p := fun p hp => Shared.shape_put_ne hp
      refine ⟨.code (hst.transport ?_) (code_keeps π c base) (Holds.first ?_) hsets ?_, ⟨?_, ?_⟩⟩
      · intro p hp
        exact hold p fun hpb => hnew (hpb ▸ hp)
      · intro k' fn' hk
        rw [hw] at hk
        cases hk
        exact ⟨hne, a.word, a.word, by simp [Shared.shape]⟩
      · exact fun _ => hnew
      · intro p _ hp
        exact hold p fun hpb => hp (hpb ▸ hnone)
      · intro p hp
        simp only [contexts, hw, Option.isSome_some, if_true] at hp
        rcases List.mem_cons.mp hp with rfl | hp
        · exact .inr hnone
        · exact .inl hp
    · cases he

/-- A frame that is left takes its context with it. -/
theorem left_stacked {id : Nat} {s : Shared} {l : Local} {act : Activation} {v : Word}
    {below : List Frame} (hst : Stacked s l.active (.code id act (.done v) :: below)) :
    Stacked (leaveFrame act.entry act.base s) l.active below ∧
      Kept s (leaveFrame act.entry act.base s) (.code id act (.done v) :: below) below := by
  cases hst with
  | code hbelow hk hh hn hb =>
    have hactive : l.active = act.start.active := hh.final hk
    rw [hactive]
    cases hw : act.entry.walk with
    | none =>
      have hleave : leaveFrame act.entry act.base s = s := by simp [leaveFrame, hw]
      rw [hleave]
      exact ⟨hbelow, .refl rfl (by simp [contexts, hw])⟩
    | some w =>
      have hleave : leaveFrame act.entry act.base s = s.put act.base none := by
        simp [leaveFrame, hw]
      rw [hleave]
      have hbase := hb (by simp [hw])
      refine ⟨hbelow.transport fun p hp => ?_, ⟨fun p hp _ => ?_, fun p hp => .inl ?_⟩⟩
      · exact Shared.shape_put_ne fun hpb => hbase (hpb ▸ hp)
      · refine Shared.shape_put_ne fun hpb => hp ?_
        simp [contexts, hw, hpb]
      · simp [contexts, hw, hp]

theorem stepped_stacked {π : Platform} {fresh : Nat} {s s' : Shared} {th th' : Thread} {m : Move}
    {i : Item} (h : Effect.Thread.Stepped (system π) fresh s th m s' th' i)
    (hsound : StackSound (system π) th.loc th.stack) (hst : Stacked s th.loc.active th.stack) :
    Stacked s' th'.loc.active th'.stack ∧ Kept s s' th.stack th'.stack := by
  cases h with
  | @call l s' g heard since below c base a hp he =>
    have hdist : Stacked (s.write a.writes) l.active (.outside g heard since :: below) :=
      hst.transport fun _ _ => rfl
    obtain ⟨hnew, hkept⟩ := entered_stacked (l := ⟨a.errno, l.active⟩) hdist he
    exact ⟨hnew, ⟨hkept.others, hkept.fresh⟩⟩
  | invoke hi => exact ⟨.outside (hst.transport fun _ _ => rfl), .refl rfl rfl⟩
  | act ha => exact ⟨hst.transport fun _ _ => rfl, .refl rfl rfl⟩
  | @back l g heard since id act o next below v a =>
    have hparty : (system π).party o = some g := hsound.1 _ rfl
    cases hst with
    | outside hst =>
      cases hst with
      | code hbelow hk hh hn hb =>
        obtain ⟨ph', hstep, hk'⟩ := hk v
        have hkeep := hh.answered hstep hparty
        refine ⟨.code (hbelow.transport fun _ _ => rfl) hk' (hkeep.transport fun _ => rfl)
          (hstep.sets _ _ _ _ hn) hb, .refl rfl rfl⟩
  | backOutside =>
    cases hst with
    | outside hst =>
      cases hst with
      | main ha => exact ⟨.main ha, .refl rfl rfl⟩
      | outside hst => exact ⟨.outside (hst.transport fun _ _ => rfl), .refl rfl rfl⟩
  | @op l id act o next below a v s' l' hp hr =>
    cases hst with
    | code hbelow hk hh hn hb =>
      obtain ⟨ph', hstep, hk'⟩ := hk v
      obtain ⟨hkeep, hother⟩ := hh.step hstep hr
      have hrest : ∀ p, (act.entry.walk.isSome → p ≠ act.base) → s'.shape p = s.shape p := by
        intro p hp
        refine hother p fun k fn hrole => hp ?_
        rw [Call.walk_of_role.mp hrole]
        rfl
      refine ⟨.code (hbelow.transport fun p hm => ?_) hk' hkeep (hstep.sets _ _ _ _ hn) hb,
        ⟨fun p hm _ => ?_, fun p hm => .inl hm⟩⟩
      · exact hrest p fun hw hpb => hb hw (hpb ▸ hm)
      · refine hrest p fun hw hpb => hm ?_
        simp [contexts, hw, hpb]
  | hand hp => exact ⟨.outside hst, .refl rfl rfl⟩
  | exit =>
    obtain ⟨hnew, hkept⟩ := left_stacked hst
    refine ⟨?_, ⟨hkept.others, hkept.fresh⟩⟩
    cases hnew with
    | main ha => exact .main ha
    | outside hst => exact .outside hst

end P101Filesystem
