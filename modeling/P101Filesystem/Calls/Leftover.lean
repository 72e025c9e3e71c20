import P101Filesystem.Calls.Errno
import P101Filesystem.Effect.Numbers
import Mathlib.Data.List.Forall2

/-!
# Leftover errno

Two runs of the wrappers that report errno, in which the surroundings do the same and every
native call comes to the same outcome, differ in nothing but errno itself.
-/
namespace P101Filesystem

open Effect

/-! ## Two runs -/

def Answer.same (a b : Answer) : Prop := a.word = b.word ∧ a.writes = b.writes

instance (a b : Answer) : Decidable (a.same b) := inferInstanceAs (Decidable (_ ∧ _))

/-- The same move, with any errno left behind. -/
def sameMove : Move → Move → Prop
  | .call c base a, .call c' base' a' => c = c' ∧ base = base' ∧ a.same a'
  | .invoke g a, .invoke g' a' => g = g' ∧ a.same a'
  | .act x a, .act x' a' => x = x' ∧ a.same a'
  | .back v a, .back v' a' => v = v' ∧ a.same a'
  | .op a, .op a' => a.same a'
  | .hand, .hand => True
  | .exit, .exit => True
  | _, _ => False

/-- The wrapper whose own native call is in control, and the errno that call started with. -/
def awaited (th : Thread) : Option (Api × Word) :=
  match th.stack with
  | .outside (.native g _) _ since :: .code _ act _ :: _ =>
    if act.entry.api = some g then some (g, since.errno) else none
  | _ => none

/-- Native calls that return come to the same outcome in both runs. -/
def SameOutcome (th₁ th₂ : Thread) : Move → Move → Prop
  | .back v a₁, .back _ a₂ =>
    match awaited th₁, awaited th₂ with
    | some (f, before₁), some (_, before₂) => ∀ failure ∈ f.reports, ∃ o : Outcome,
        o.Returns f failure before₁ v a₁.errno ∧ o.Returns f failure before₂ v a₂.errno
    | _, _ => True
  | _, _ => True

/-- Only wrappers that report errno are called. -/
def reporting : Move → Prop
  | .call c _ _ => (c.api.bind Api.reports).isSome
  | _ => True

/-- Two runs from the same start that differ only in the errno that is left over. -/
inductive Twin (π : Platform) (heap : Word → Word) : Config → Config → Prop
  | start : Twin π heap (startConfig heap) (startConfig heap)
  | step {cfg₁ cfg₂ cfg₁' cfg₂' t m₁ m₂} : Twin π heap cfg₁ cfg₂ → reporting m₁ →
      sameMove m₁ m₂ → SameOutcome (cfg₁.threads t) (cfg₂.threads t) m₁ m₂ →
      cfg₁.step (system π) t m₁ = some cfg₁' → cfg₂.step (system π) t m₂ = some cfg₂' →
      Twin π heap cfg₁' cfg₂'

theorem Twin.left {π : Platform} {heap : Word → Word} {cfg₁ cfg₂ : Config}
    (h : Twin π heap cfg₁ cfg₂) :
    Effect.Config.Reach (system π) (fun _ _ _ => True) (startConfig heap) cfg₁ := by
  induction h with
  | start => exact .init
  | step _ _ _ _ hs _ ih => exact .step ih trivial hs

theorem Twin.right {π : Platform} {heap : Word → Word} {cfg₁ cfg₂ : Config}
    (h : Twin π heap cfg₁ cfg₂) :
    Effect.Config.Reach (system π) (fun _ _ _ => True) (startConfig heap) cfg₂ := by
  induction h with
  | start => exact .init
  | step _ _ _ _ _ hs ih => exact .step ih trivial hs

/-! ## What they have in common -/

/-- The same event but for errno; where the native call of `api` returned its failure value,
errno is the same too. -/
structure SameEvent (api : Option Api) (e₁ e₂ : Event) : Prop where
  op : e₁.op = e₂.op
  heard : e₁.heard = e₂.heard
  answer : e₁.answer = e₂.answer
  told : ∀ f args, api = some f → e₁.op = .native f args → f.reports = some e₁.answer →
    e₁.after.errno = e₂.after.errno

structure SameCall (act₁ act₂ : Activation) : Prop where
  entry : act₁.entry = act₂.entry
  base : act₁.base = act₂.base
  past : List.Forall₂ (SameEvent act₁.entry.api) act₁.past act₂.past

inductive SameFrame : Frame → Frame → Prop
  | outside {g heard since₁ since₂} : SameFrame (.outside g heard since₁) (.outside g heard since₂)
  | code {id act₁ act₂ rest f failure} : act₁.entry.api = some f → f.reports = some failure →
      SameCall act₁ act₂ → SameFrame (.code id act₁ rest) (.code id act₂ rest)

inductive SameItem : Item → Item → Prop
  | call {id c base} : SameItem (.call id c base) (.call id c base)
  | invoke {g} : SameItem (.invoke g) (.invoke g)
  | act {x} : SameItem (.act x) (.act x)
  | event {id api e₁ e₂} : SameEvent api e₁ e₂ → SameItem (.event id e₁) (.event id e₂)
  | returned {v} : SameItem (.returned v) (.returned v)
  | hand {id o} : SameItem (.hand id o) (.hand id o)
  | exit {id act₁ act₂ v} : SameCall act₁ act₂ → SameItem (.exit id act₁ v) (.exit id act₂ v)

structure SameThread (th₁ th₂ : Thread) : Prop where
  active : th₁.loc.active = th₂.loc.active
  stack : List.Forall₂ SameFrame th₁.stack th₂.stack

theorem SameCall.push {act₁ act₂ : Activation} (h : SameCall act₁ act₂) {e₁ e₂ : Event}
    (he : SameEvent act₁.entry.api e₁ e₂) : SameCall (act₁.push e₁) (act₂.push e₂) where
  entry := h.entry
  base := h.base
  past := List.rel_append h.past (.cons he .nil)

/-! ## Where errno is looked at -/

section
variable {π : Platform} {act act₁ act₂ : Activation} {now now₁ now₂ : Local} {f : Api}
  {failure : Word} {next next' : Word → Code Word}

/-- Errno is 0 when the native call is made. -/
theorem cleared_of_native {args : List Word}
    (hs : act.Sound (system π) (.perform (.native f args) next) now) (hf : act.entry.api = some f)
    (hr : f.reports = some failure) : now.errno = 0 := by
  obtain ⟨ph, hknown, hk⟩ := known_of_sound hs hf hr
  obtain ⟨ph', hstep, -⟩ := hk failure
  cases hstep with
  | bystander hph ho => simp [Op.bystander] at ho
  | serve => exact hknown.2.2
  | fail => exact hknown.2.2
  | excuse ho => simp [Op.bystander] at ho

/-- Errno is what the native call left when it is looked at. -/
theorem missed_of_getErrno (hs : act.Sound (system π) (.perform .getErrno next) now)
    (hf : act.entry.api = some f) (hr : f.reports = some failure) :
    ∃ e, Missed f failure act.past e ∧ now.errno = e.after.errno := by
  obtain ⟨ph, hknown, hk⟩ := known_of_sound hs hf hr
  obtain ⟨ph', hstep, -⟩ := hk 0
  cases hstep with
  | bystander hph ho => cases ho
  | ask =>
    obtain ⟨e, hmissed, -, hnow⟩ := hknown
    exact ⟨e, hmissed, hnow⟩
  | askAgain =>
    obtain ⟨e, hmissed, -, hnow, -⟩ := hknown
    exact ⟨e, hmissed, hnow⟩
  | excuse ho => cases ho

theorem mains_same {api : Option Api} {es₁ es₂ : List Event}
    (h : List.Forall₂ (SameEvent api) es₁ es₂) :
    List.Forall₂ (fun n₁ n₂ => n₁.2.2.op = .native n₁.1 n₁.2.1 ∧ SameEvent api n₁.2.2 n₂.2.2)
      (mains f es₁) (mains f es₂) := by
  induction h with
  | nil => exact .nil
  | @cons e₁ e₂ es₁ es₂ he _ ih =>
    have hsplit : ∀ (e : Event) es, mains f (e :: es) = mains f [e] ++ mains f es :=
      fun e es => mains_append f [e] es
    rw [hsplit e₁, hsplit e₂]
    refine List.rel_append ?_ ih
    by_cases hmain : ∃ args, e₁.op = .native f args
    · obtain ⟨args, ho⟩ := hmain
      rw [mains_main ho, mains_main (he.op ▸ ho)]
      exact .cons ⟨ho, he⟩ .nil
    · rw [mains_none fun args ho => hmain ⟨args, ho⟩,
        mains_none fun args ho => hmain ⟨args, he.op.trans ho⟩]
      exact .nil

/-- Both runs look at the same errno. -/
theorem same_errno (h : SameCall act₁ act₂)
    (hs₁ : act₁.Sound (system π) (.perform .getErrno next) now₁)
    (hs₂ : act₂.Sound (system π) (.perform .getErrno next') now₂)
    (hf : act₁.entry.api = some f) (hr : f.reports = some failure) : now₁.errno = now₂.errno := by
  obtain ⟨e₁, ⟨⟨args₁, hmain₁⟩, hanswer, -⟩, hnow₁⟩ := missed_of_getErrno hs₁ hf hr
  obtain ⟨e₂, ⟨⟨args₂, hmain₂⟩, -, -⟩, hnow₂⟩ := missed_of_getErrno hs₂ (h.entry ▸ hf) hr
  have hmains := mains_same (f := f) h.past
  rw [hmain₁, hmain₂] at hmains
  cases hmains with
  | cons he _ =>
    obtain ⟨ho, he⟩ := he
    rw [hnow₁, hnow₂]
    exact he.told f args₁ hf ho (by rw [hr, hanswer])

end

/-! ## One step of both runs -/

theorem run_same {o : Op} {a₁ a₂ : Answer} {s s₁ s₂ : Shared} {l₁ l₂ l₁' l₂' : Local} {v₁ v₂ : Word}
    (ha : a₁.same a₂) (hl : l₁.active = l₂.active) (he : o = .getErrno → l₁.errno = l₂.errno)
    (h₁ : o.run a₁ s l₁ = some (v₁, s₁, l₁')) (h₂ : o.run a₂ s l₂ = some (v₂, s₂, l₂')) :
    v₁ = v₂ ∧ s₁ = s₂ ∧ l₁'.active = l₂'.active := by
  obtain ⟨hword, -⟩ := ha
  cases o with
  | native | callback => cases h₁
  | storeField k p f u | loadField k p f =>
    simp only [Op.run, Option.map_eq_some_iff, Prod.mk.injEq] at h₁ h₂
    obtain ⟨c, hc, rfl, rfl, rfl⟩ := h₁
    obtain ⟨c', hc', rfl, rfl, rfl⟩ := h₂
    obtain rfl := Option.some.inj (hc.symm.trans hc')
    exact ⟨rfl, rfl, hl⟩
  | _ =>
    simp only [Op.run, Option.some.injEq, Prod.mk.injEq] at h₁ h₂
    obtain ⟨rfl, rfl, rfl⟩ := h₁
    obtain ⟨rfl, rfl, rfl⟩ := h₂
    simp_all

section
variable {π : Platform} {fresh : Nat} {s s₁ s₂ : Shared} {th₁ th₂ th₁' th₂' : Thread} {m₁ m₂ : Move}
  {i₁ i₂ : Item}

theorem enterFrame_same {c : Call} {base : Word} {a₁ a₂ : Answer} (ha : a₁.same a₂) :
    enterFrame c base a₁ (s.write a₁.writes) = enterFrame c base a₂ (s.write a₂.writes) := by
  obtain ⟨hword, hwrites⟩ := ha
  unfold enterFrame
  rw [hword, hwrites]

/-- A native call that returns its failure value leaves the same errno in both runs. -/
theorem told_of_outcome {g : Party} {heard₁ heard₂ : List Word} {since₁ since₂ : Local} {id : Nat}
    {act₁ act₂ : Activation} {o : Op} {next : Word → Code Word} {below₁ below₂ : List Frame}
    {l₁ l₂ : Local} {v : Word} {a₁ a₂ : Answer} {f : Api} {args : List Word}
    (hcall : SameCall act₁ act₂)
    (hs₁ : act₁.Sound (system π) (.perform o next) since₁)
    (hs₂ : act₂.Sound (system π) (.perform o next) since₂) (hg : (system π).party o = some g)
    (hf : act₁.entry.api = some f) (ho : o = .native f args) (hr : f.reports = some v)
    (hout : SameOutcome ⟨l₁, .outside g heard₁ since₁ :: .code id act₁ (.perform o next) :: below₁⟩
      ⟨l₂, .outside g heard₂ since₂ :: .code id act₂ (.perform o next) :: below₂⟩
      (.back v a₁) (.back v a₂)) : a₁.errno = a₂.errno := by
  subst ho
  obtain rfl := Option.some.inj hg
  have hf₂ : act₂.entry.api = some f := hcall.entry ▸ hf
  simp only [SameOutcome, awaited, hf, hf₂, if_true] at hout
  obtain ⟨oc, ho₁, ho₂⟩ := hout v hr
  cases oc with
  | failed code => rw [ho₁.2.1, ho₂.2.1]
  | noValue =>
    rw [ho₁.2.2, ho₂.2.2, cleared_of_native hs₁ hf hr, cleared_of_native hs₂ hf₂ hr]
  | succeeded => exact absurd rfl ho₁

/-- The other run waits for the same party. -/
theorem outside_of_same {g : Party} {heard : List Word} {since₁ : Local} {below₁ stack₂ : List Frame}
    (h : List.Forall₂ SameFrame (.outside g heard since₁ :: below₁) stack₂) :
    ∃ since₂ below₂, stack₂ = .outside g heard since₂ :: below₂ ∧
      List.Forall₂ SameFrame below₁ below₂ := by
  cases h with
  | cons hf hbelow =>
    cases hf
    exact ⟨_, _, rfl, hbelow⟩

/-- The other run is at the same point of the same call. -/
theorem code_of_same {id : Nat} {act₁ : Activation} {rest : Code Word} {below₁ stack₂ : List Frame}
    (h : List.Forall₂ SameFrame (.code id act₁ rest :: below₁) stack₂) :
    ∃ act₂ below₂ f failure, stack₂ = .code id act₂ rest :: below₂ ∧
      act₁.entry.api = some f ∧ f.reports = some failure ∧ SameCall act₁ act₂ ∧
      List.Forall₂ SameFrame below₁ below₂ := by
  cases h with
  | cons hf hbelow =>
    cases hf with
    | code hapi hr hcall => exact ⟨_, _, _, _, rfl, hapi, hr, hcall, hbelow⟩

theorem sameThread_step (h₁ : Effect.Thread.Stepped (system π) fresh s th₁ m₁ s₁ th₁' i₁)
    (h₂ : Effect.Thread.Stepped (system π) fresh s th₂ m₂ s₂ th₂' i₂) (hsame : SameThread th₁ th₂)
    (hsound₁ : StackSound (system π) th₁.loc th₁.stack)
    (hsound₂ : StackSound (system π) th₂.loc th₂.stack) (hm : sameMove m₁ m₂)
    (hreport : reporting m₁) (hout : SameOutcome th₁ th₂ m₁ m₂) :
    s₁ = s₂ ∧ SameThread th₁' th₂' ∧ SameItem i₁ i₂ := by
  obtain ⟨l₂, stack₂⟩ := th₂
  obtain ⟨hactive, hstack⟩ := hsame
  dsimp only at hactive hstack
  cases h₁ with
  | @call l₁ s₁ g heard since below c base a hp he =>
    obtain ⟨since₂, below₂, rfl, hbelow⟩ := outside_of_same hstack
    cases m₂ with
    | call c' base' a' =>
      obtain ⟨rfl, rfl, ha⟩ := hm
      cases h₂ with
      | call hp' he' =>
        obtain ⟨failure, hfailure⟩ := Option.isSome_iff_exists.mp hreport
        obtain ⟨f, hapi, hr⟩ := Option.bind_eq_some_iff.mp hfailure
        have hs : s₁ = s₂ := Option.some.inj (he.symm.trans ((enterFrame_same ha).trans he'))
        exact ⟨hs, ⟨hactive, .cons (.code hapi hr ⟨rfl, rfl, .nil⟩) (.cons .outside hbelow)⟩, .call⟩
    | _ => exact hm.elim
  | invoke hi =>
    obtain ⟨since₂, below₂, rfl, hbelow⟩ := outside_of_same hstack
    cases m₂ with
    | invoke g' a' =>
      obtain ⟨rfl, -, hwrites⟩ := hm
      cases h₂ with
      | invoke hi' =>
        exact ⟨congrArg s.write hwrites, ⟨hactive, .cons .outside (.cons .outside hbelow)⟩, .invoke⟩
    | _ => exact hm.elim
  | act hx =>
    obtain ⟨since₂, below₂, rfl, hbelow⟩ := outside_of_same hstack
    cases m₂ with
    | act x' a' =>
      obtain ⟨rfl, -, hwrites⟩ := hm
      cases h₂ with
      | act hx' => exact ⟨congrArg s.write hwrites, ⟨hactive, .cons .outside hbelow⟩, .act⟩
    | _ => exact hm.elim
  | @back l₁ g heard since₁ id act₁ o next below v a =>
    obtain ⟨since₂, rest₂, rfl, hrest⟩ := outside_of_same hstack
    obtain ⟨act₂, below₂, f, failure, rfl, hapi, hr, hcall, hbelow⟩ := code_of_same hrest
    cases m₂ with
    | back v' a' =>
      obtain ⟨rfl, -, hwrites⟩ := hm
      cases h₂ with
      | back =>
        have hevent : SameEvent act₁.entry.api
            ⟨o, heard, v, since₁, { l₁ with errno := a.errno }⟩
            ⟨o, heard, v, since₂, { l₂ with errno := a'.errno }⟩ :=
          ⟨rfl, rfl, rfl, fun f args hf ho hv => told_of_outcome hcall hsound₁.2.1
            hsound₂.2.1 (hsound₁.1 _ rfl) hf ho hv hout⟩
        exact ⟨congrArg s.write hwrites,
          ⟨hactive, .cons (.code hapi hr (hcall.push hevent)) hbelow⟩, .event hevent⟩
    | _ => exact hm.elim
  | backOutside =>
    obtain ⟨since₂, rest₂, rfl, hrest⟩ := outside_of_same hstack
    obtain ⟨since₂', below₂, rfl, hbelow⟩ := outside_of_same hrest
    cases m₂ with
    | back v' a' =>
      obtain ⟨rfl, -, hwrites⟩ := hm
      cases h₂ with
      | backOutside => exact ⟨congrArg s.write hwrites, ⟨hactive, .cons .outside hbelow⟩, .returned⟩
    | _ => exact hm.elim
  | @op l₁ id act₁ o next below a v₁ s₁ l₁' hp hrun =>
    obtain ⟨act₂, below₂, f, failure, rfl, hapi, hr, hcall, hbelow⟩ := code_of_same hstack
    cases m₂ with
    | op a' =>
      cases h₂ with
      | @op _ _ _ _ _ _ _ v₂ _ l₂' _ hrun' =>
        have herrno : o = .getErrno → l₁.errno = l₂.errno := by
          rintro rfl
          exact same_errno hcall hsound₁.1 hsound₂.1 hapi hr
        obtain ⟨rfl, rfl, hactive'⟩ := run_same hm hactive herrno hrun hrun'
        -- A native call is not run here.
        have hevent : SameEvent act₁.entry.api ⟨o, [], v₁, l₁, l₁'⟩ ⟨o, [], v₁, l₂, l₂'⟩ := by
          refine ⟨rfl, rfl, rfl, fun f args _ ho _ => ?_⟩
          have ho : o = .native f args := ho
          rw [ho] at hp
          cases hp
        exact ⟨rfl, ⟨hactive', .cons (.code hapi hr (hcall.push hevent)) hbelow⟩, .event hevent⟩
    | _ => exact hm.elim
  | hand hp =>
    obtain ⟨act₂, below₂, f, failure, rfl, hapi, hr, hcall, hbelow⟩ := code_of_same hstack
    cases m₂ with
    | hand =>
      cases h₂ with
      | hand hp' =>
        obtain rfl := Option.some.inj (hp.symm.trans hp')
        exact ⟨rfl, ⟨hactive, .cons .outside (.cons (.code hapi hr hcall) hbelow)⟩, .hand⟩
    | _ => exact hm.elim
  | exit =>
    obtain ⟨act₂, rest₂, f, failure, rfl, hapi, hr, hcall, hrest⟩ := code_of_same hstack
    obtain ⟨since₂, below₂, rfl, hbelow⟩ := outside_of_same hrest
    cases m₂ with
    | exit =>
      cases h₂ with
      | exit =>
        refine ⟨?_, ⟨hactive, .cons .outside hbelow⟩, .exit hcall⟩
        rw [hcall.entry, hcall.base]
    | _ => exact hm.elim

end

/-! ## Both runs -/

/-- Equal but for errno: so far as anything else goes the two logs are the same. -/
structure SameRun (cfg₁ cfg₂ : Config) : Prop where
  shared : cfg₁.shared = cfg₂.shared
  threads : ∀ t, SameThread (cfg₁.threads t) (cfg₂.threads t)
  log : List.Forall₂ (fun x₁ x₂ => x₁.1 = x₂.1 ∧ SameItem x₁.2 x₂.2) cfg₁.log cfg₂.log

theorem Twin.same {π : Platform} {heap : Word → Word} {cfg₁ cfg₂ : Config}
    (h : Twin π heap cfg₁ cfg₂) : SameRun cfg₁ cfg₂ := by
  induction h with
  | start => exact ⟨rfl, fun _ => ⟨rfl, .cons .outside .nil⟩, .nil⟩
  | @step cfg₁ cfg₂ cfg₁' cfg₂' t m₁ m₂ htwin hreport hm hout hs₁ hs₂ ih =>
    obtain ⟨s₁, th₁, i₁, hst₁, rfl⟩ := Config.stepped hs₁
    obtain ⟨s₂, th₂, i₂, hst₂, rfl⟩ := Config.stepped hs₂
    have hsound₁ := htwin.left.accounted.sound t
    have hsound₂ := htwin.right.accounted.sound t
    rw [← ih.shared, ← ih.log.length_eq] at hst₂
    obtain ⟨hs, hth, hi⟩ :=
      sameThread_step hst₁ hst₂ (ih.threads t) hsound₁ hsound₂ hm hreport hout
    refine ⟨hs, fun u => ?_, List.rel_append ih.log (.cons ⟨rfl, hi⟩ .nil)⟩
    by_cases hu : u = t
    · subst hu
      simpa using hth
    · simpa [Function.update_of_ne hu] using ih.threads u

theorem ops_same {api : Option Api} {es₁ es₂ : List Event}
    (h : List.Forall₂ (SameEvent api) es₁ es₂) : es₁.map Event.op = es₂.map Event.op := by
  induction h with
  | nil => rfl
  | cons he _ ih => rw [List.map_cons, List.map_cons, he.op, ih]

/-- Every call that returns in one run returns the same value in the other, and has raised
and recorded the same there. -/
structure SameResults (cfg₁ cfg₂ : Config) : Prop where
  run : SameRun cfg₁ cfg₂
  returned : ∀ t id act₁ v, (t, .exit id act₁ v) ∈ cfg₁.log →
    ∃ act₂, (t, .exit id act₂ v) ∈ cfg₂.log ∧
    act₁.entry = act₂.entry ∧ raised act₁.past = raised act₂.past ∧
    recorded act₁.past = recorded act₂.past

theorem mem_of_forall₂ {α β : Type} {R : α → β → Prop} {l₁ : List α} {l₂ : List β} {x : α}
    (h : List.Forall₂ R l₁ l₂) (hx : x ∈ l₁) : ∃ y ∈ l₂, R x y := by
  induction h with
  | nil => cases hx
  | cons hr _ ih =>
    rcases List.mem_cons.mp hx with rfl | hx
    · exact ⟨_, by simp, hr⟩
    · obtain ⟨y, hy, hxy⟩ := ih hx
      exact ⟨y, by simp [hy], hxy⟩

theorem SameRun.results {cfg₁ cfg₂ : Config} (h : SameRun cfg₁ cfg₂) : SameResults cfg₁ cfg₂ where
  run := h
  returned := by
    intro t id act₁ v hexit
    obtain ⟨⟨u, i⟩, hmem, hu, hi⟩ := mem_of_forall₂ h.log hexit
    obtain rfl : t = u := hu
    cases hi with
    | @exit _ _ act₂ _ hcall =>
      have hops := ops_same hcall.past
      refine ⟨act₂, hmem, hcall.entry, ?_, ?_⟩
      · rw [raised_eq_raises, raised_eq_raises, hops]
      · rw [recorded_eq_records, recorded_eq_records, hops]

/-- Errno decides nothing that the outcome of the native call does not decide: in every run each
call of a wrapper that reports errno does what its native call's outcome calls for, and what
errno held before makes no difference to a run. -/
theorem stale_errno (π : Platform) (heap : Word → Word) :
    (∀ legal cfg t id act v f failure,
      Effect.Config.Reach (system π) legal (startConfig heap) cfg → (t, .exit id act v) ∈ cfg.log →
      act.entry.api = some f → f.reports = some failure → (∀ c ∈ consulted act.past, c.2 = 0) →
      Decided f failure act.past v) ∧
    ∀ cfg₁ cfg₂, Twin π heap cfg₁ cfg₂ → SameResults cfg₁ cfg₂ :=
  ⟨fun _ _ _ _ _ _ _ _ h hexit hf hr hspared => decided_of_reach h hexit hf hr hspared,
    fun _ _ h => h.same.results⟩

/-! ## Running both -/

instance (f : Api) (failure before v after : Word) (o : Outcome) :
    Decidable (o.Returns f failure before v after) := by
  unfold Outcome.Returns
  split <;> infer_instance

instance (f : Api) (failure before₁ before₂ v after₁ after₂ : Word) :
    Decidable (∃ o : Outcome, o.Returns f failure before₁ v after₁ ∧
      o.Returns f failure before₂ v after₂) :=
  decidable_of_iff (∃ o ∈ [Outcome.failed after₁, .noValue, .succeeded],
      o.Returns f failure before₁ v after₁ ∧ o.Returns f failure before₂ v after₂) <| by
    constructor
    · rintro ⟨o, -, h⟩
      exact ⟨o, h⟩
    · rintro ⟨o, h⟩
      refine ⟨o, ?_, h⟩
      cases o with
      | failed code => simp [h.1.2.1]
      | noValue | succeeded => simp

instance (m₁ m₂ : Move) : Decidable (sameMove m₁ m₂) := by
  unfold sameMove
  split <;> infer_instance

instance (th₁ th₂ : Thread) (m₁ m₂ : Move) : Decidable (SameOutcome th₁ th₂ m₁ m₂) := by
  unfold SameOutcome
  split
  · split <;> infer_instance
  · infer_instance

instance (m : Move) : Decidable (reporting m) := by
  unfold reporting
  split <;> infer_instance

def twinRun (π : Platform) (cfg₁ cfg₂ : Config) :
    List (Nat × Move × Move) → Option (Config × Config)
  | [] => some (cfg₁, cfg₂)
  | (t, m₁, m₂) :: rest =>
    if reporting m₁ ∧ sameMove m₁ m₂ ∧ SameOutcome (cfg₁.threads t) (cfg₂.threads t) m₁ m₂ then
      (cfg₁.step (system π) t m₁).bind fun cfg₁' => (cfg₂.step (system π) t m₂).bind fun cfg₂' =>
        twinRun π cfg₁' cfg₂' rest
    else none

theorem Twin.of_run {π : Platform} {heap : Word → Word} {cfg₁ cfg₂ cfg₁' cfg₂' : Config}
    {moves : List (Nat × Move × Move)} (h : Twin π heap cfg₁ cfg₂)
    (hrun : twinRun π cfg₁ cfg₂ moves = some (cfg₁', cfg₂')) : Twin π heap cfg₁' cfg₂' := by
  induction moves generalizing cfg₁ cfg₂ with
  | nil =>
    simp only [twinRun, Option.some.injEq, Prod.mk.injEq] at hrun
    obtain ⟨rfl, rfl⟩ := hrun
    exact h
  | cons move rest ih =>
    obtain ⟨t, m₁, m₂⟩ := move
    simp only [twinRun] at hrun
    split at hrun
    · next hc =>
      obtain ⟨hreport, hm, hout⟩ := hc
      obtain ⟨mid₁, hs₁, hrun⟩ := Option.bind_eq_some_iff.mp hrun
      obtain ⟨mid₂, hs₂, hrun⟩ := Option.bind_eq_some_iff.mp hrun
      exact ih (.step h hreport hm hout hs₁ hs₂) hrun
    · cases hrun

/-- The same move, with errno 5 left behind by the caller, the hooks and the ledger. -/
def leavingFive : Move → Move
  | .call c base a => .call c base { a with errno := 5 }
  | .op a => .op { a with errno := 5 }
  | m => m

/-- The end of a directory, and a chmod that fails. -/
def endAndFailure : List (Nat × Move) :=
  [(0, .call (.readdir 70) 0 calm₀)] ++ runs 0 3 ++ answers 0 NULL ++ runs 0 2 ++
    [(0, .exit), (0, .call (.chmod 3 0) 0 calm₀)] ++ runs 0 3 ++
    [(0, .hand), (0, .back (-1) ⟨0, 13, []⟩)] ++ runs 0 3 ++ [(0, .exit)]

/-- Each move with its counterpart. -/
def beside (moves : List (Nat × Move)) : List (Nat × Move × Move) :=
  moves.map fun m => (m.1, m.2, leavingFive m.2)

/-- What the calls of a log returned and raised. -/
def results (cfg : Config) : List (Word × List (Domain × Word)) :=
  cfg.log.filterMap fun entry => match entry.2 with
    | .exit _ act v => some (v, raised act.past)
    | _ => none

theorem stale_errno_end : ∃ cfg₁ cfg₂,
    twinRun linux (startConfig fun _ => 0) (startConfig fun _ => 0) (beside endAndFailure) =
      some (cfg₁, cfg₂) ∧ results cfg₁ = [(NULL, []), (-1, [(.errno, 13)])] ∧
    (cfg₁.threads 0).loc.errno = 0 ∧ (cfg₂.threads 0).loc.errno = 5 ∧ SameResults cfg₁ cfg₂ ∧
    ∀ t id act v f failure, (t, .exit id act v) ∈ cfg₂.log → act.entry.api = some f →
      f.reports = some failure → (∀ c ∈ consulted act.past, c.2 = 0) →
      Decided f failure act.past v := by
  have hrun : (twinRun linux (startConfig fun _ => 0) (startConfig fun _ => 0)
      (beside endAndFailure)).map
      (fun r => (results r.1, (r.1.threads 0).loc.errno, (r.2.threads 0).loc.errno)) =
      some ([(NULL, []), (-1, [(.errno, 13)])], 0, 5) := by
    decide +kernel
  obtain ⟨⟨cfg₁, cfg₂⟩, hcfg, hresults⟩ := Option.map_eq_some_iff.mp hrun
  obtain ⟨h₁, h₂⟩ := Prod.mk.inj hresults
  obtain ⟨h₂, h₃⟩ := Prod.mk.inj h₂
  have htwin := Twin.of_run .start hcfg
  obtain ⟨hdecided, hsame⟩ := stale_errno linux fun _ => 0
  exact ⟨cfg₁, cfg₂, hcfg, h₁, h₂, h₃, hsame _ _ htwin,
    fun t id act v f failure => hdecided _ _ t id act v f failure htwin.right⟩

end P101Filesystem
