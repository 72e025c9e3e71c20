import P101Filesystem.Bare.Stages
import P101Filesystem.Walk.Contexts

/-!
# The library refines the bare machine

Beside every stack of the library stands one of the bare machine, and each step of a thread is
a step of the bare machine or nothing at all. A native walk stands for one that was given its
callback, since its trampoline calls the callback of the innermost walk and passes the result on.
-/
namespace P101Filesystem

open Effect

/-- What a party stands for. -/
inductive Stands : Party → Party → Prop
  | main : Stands .main .main
  | user {fn args} : Stands (.user fn args) (.user fn args)
  | native {c : Call} {f} : c.api = some f → Stands (.native f c.passed) (.native f c.args)

theorem passed_eq_args {c : Call} (h : c.walk = none) : c.passed = c.args := by
  cases c <;> first | rfl | cases h

theorem walk_none_of_api {c : Call} {f : Api} (h : c.api = some f) (hf : f ≠ .ftw ∧ f ≠ .nftw) :
    c.walk = none := by
  cases c with
  | ftw =>
    cases h
    exact absurd rfl hf.1
  | nftw =>
    cases h
    exact absurd rfl hf.2
  | _ => rfl

theorem native_permits {f : Api} {args : List Word} {c : Call}
    (h : (Party.native f args).permits c = true) : c.api = none := by
  generalize hp : Party.native f args = p at h
  unfold Party.permits at h
  split at h
  · rfl
  · rfl
  · cases h
  · next hne _ _ =>
    subst hp
    exact (hne _ _ rfl).elim

theorem native_invokes {f : Api} {args : List Word} {g : Party}
    (h : (Party.native f args).invokes g = true) : f = .scandir ∨ f = .glob := by
  generalize hp : Party.native f args = p at h
  unfold Party.invokes at h
  split at h
  · exact .inl (Party.native.inj hp).1
  · exact .inr (Party.native.inj hp).1
  · cases h

theorem invokes_user {g g' : Party} (h : g.invokes g' = true) : ∃ fn args, g' = .user fn args := by
  unfold Party.invokes at h
  split at h
  · exact ⟨_, _, rfl⟩
  · exact ⟨_, _, rfl⟩
  · cases h

theorem visits_of_invokes {g g' : Party} (h : g.invokes g' = true) : Bare.visits g g' = true := by
  unfold Bare.visits
  split
  · cases h
  · cases h
  · exact h

/-- A walk that was given its callback calls it with what the trampoline is called with. -/
theorem visits_of_walk {w c : Call} {k : Kind} {fn : Word} (hw : w.walk = some (k, fn))
    (hr : c.role = .trampoline k) : Bare.visits (.native k.api w.args) (.user fn c.args) = true := by
  cases k with
  | ftw =>
    obtain ⟨path, ndirs, rfl⟩ : ∃ path ndirs, w = .ftw path fn ndirs := by
      cases w <;> simp [Call.walk] at hw
      exact ⟨_, _, by rw [hw]⟩
    cases c <;> simp [Call.role] at hr
    exact decide_eq_true rfl
  | nftw =>
    obtain ⟨path, fdLimit, flags, rfl⟩ : ∃ path fdLimit flags, w = .nftw path fn fdLimit flags := by
      cases w <;> simp [Call.walk] at hw
      exact ⟨_, _, _, by rw [hw]⟩
    cases c <;> simp [Call.role] at hr
    exact decide_eq_true rfl

namespace Stands
variable {g d g' : Party}

theorem permits (h : Stands g d) {c : Call} (hc : c.api.isSome) (hp : g.permits c = true) :
    d.permits c = true := by
  cases h with
  | main | user => exact hp
  | native => simp [native_permits hp] at hc

theorem acts (h : Stands g d) {x : Foreign} (ha : g.acts x = true) : d.acts x = true := by
  cases h with
  | main | user => exact ha
  | native => cases ha

theorem invokes (h : Stands g d) (hi : g.invokes g' = true) : Bare.visits d g' = true := by
  cases h with
  | main | user => exact visits_of_invokes hi
  | @native c f hf =>
    have hw : c.walk = none :=
      walk_none_of_api hf (by rcases native_invokes hi with rfl | rfl <;> simp)
    rw [← passed_eq_args hw]
    exact visits_of_invokes hi

end Stands

/-! ## Stages, by operation -/

theorem StageStep.of_native {c : Call} {st st' : Stage} {g : Api} {args : List Word} {v : Word}
    (h : StageStep c st (.native g args) v st') :
    (st' = st ∧ ∃ f, c.api = some f ∧ Bare.bookkeeping f g = true) ∨
      (st = .asked ∧ st' = .settled (c.returns v) ∧ c.api = some g ∧ args = c.passed ∧
        c.rejected = false) := by
  generalize ho : Op.native g args = o at h
  cases h with
  | wait hf ha | leave hf ha =>
    subst ho
    exact .inl ⟨rfl, _, hf, ha⟩
  | serve hf hr =>
    obtain ⟨rfl, rfl⟩ := Op.native.inj ho
    exact .inr ⟨rfl, rfl, hf, rfl, hr⟩
  | _ => cases ho

theorem StageStep.of_callback {c : Call} {st st' : Stage} {fn : Word} {args : List Word} {v : Word}
    (h : StageStep c st (.callback fn args) v st') :
    st = .calling fn ∧ st' = .passed v ∧ args = c.args ∧ ∃ k, c.role = .trampoline k := by
  generalize ho : Op.callback fn args = o at h
  cases h with
  | wait hf ha | leave hf ha =>
    subst ho
    cases ha
  | call hr =>
    obtain ⟨rfl, rfl⟩ := Op.callback.inj ho
    exact ⟨rfl, rfl, rfl, _, hr⟩
  | _ => cases ho

theorem not_bookkeeping_self (f : Api) : Bare.bookkeeping f f = false := by
  simp [Bare.bookkeeping]

/-- Only descriptor queries hand over control without showing it. -/
theorem aside_party {f : Api} {o : Op} {g : Party} (ha : o.aside f = true)
    (ho : (system π).party o = some g) :
    ∃ args, g = .native .dirfd args ∧ o = .native .dirfd args := by
  cases o with
  | native h args =>
    obtain rfl : h = .dirfd := by
      simp only [Op.aside, Bare.bookkeeping, Bool.decide_and, Bool.and_eq_true,
        decide_eq_true_eq] at ha
      exact ha.1
    exact ⟨args, (Option.some.inj ho).symm, rfl⟩
  | callback => cases ha
  | _ => cases ho

/-! ## Stacks -/

inductive Bared : List Frame → List Bare.Frame → Prop
  | main {heard since} : Bared [.outside .main heard since] [.party .main heard]
  | invoked {fn args heard since g h s below d st} :
      Bared (.outside g h s :: below) (.party d h :: st) →
      Bared (.outside (.user fn args) heard since :: .outside g h s :: below)
        (.party (.user fn args) heard :: .party d h :: st)
  | serving {f args heard since id act next below st} : act.entry.api = some f →
      args = act.entry.passed →
      Bared (.code id act (.perform (.native f args) next) :: below) (.asked act.entry :: st) →
      Bared (.outside (.native f args) heard since ::
          .code id act (.perform (.native f args) next) :: below)
        (.party (.native f act.entry.args) heard :: .asked act.entry :: st)
  | aside {f args heard since id act next below st} : act.entry.api = some f →
      Bare.bookkeeping f .dirfd = true →
      Bared (.code id act (.perform (.native .dirfd args) next) :: below) st →
      Bared (.outside (.native .dirfd args) heard since ::
        .code id act (.perform (.native .dirfd args) next) :: below) st
  | visiting {fn args heard since id act next below d h st} :
      Bared (.code id act (.perform (.callback fn args) next) :: below) (.party d h :: st) →
      Bared (.outside (.user fn args) heard since ::
          .code id act (.perform (.callback fn args) next) :: below)
        (.party (.user fn args) heard :: .party d h :: st)
  | asked {id act rest below st} : Bared below st → act.entry.api.isSome →
      (stageProtocol act.entry).Keeps .asked rest →
      Bared (.code id act rest :: below) (.asked act.entry :: st)
  | rejected {id act rest below st} : Bared below st → act.entry.api.isSome →
      act.entry.rejected = true → (stageProtocol act.entry).Keeps (.settled (-1)) rest →
      Bared (.code id act rest :: below) (.asked act.entry :: st)
  | settled {v id act rest below st} : Bared below st → act.entry.api.isSome →
      (stageProtocol act.entry).Keeps (.settled v) rest →
      Bared (.code id act rest :: below) (.settled act.entry v :: st)
  | looking {id act rest below st} : Bared below st → act.entry.api = none →
      (stageProtocol act.entry).Keeps .looking rest → Bared (.code id act rest :: below) st
  | calling {fn id act rest below d h st} : Bared below (.party d h :: st) →
      act.entry.api = none → Bare.visits d (.user fn act.entry.args) = true →
      (stageProtocol act.entry).Keeps (.calling fn) rest →
      Bared (.code id act rest :: below) (.party d h :: st)
  | passed {v id act rest below d h st} : Bared below (.party d h :: st) →
      act.entry.api = none → (stageProtocol act.entry).Keeps (.passed v) rest →
      Bared (.code id act rest :: below) (.party d (h ++ [v]) :: st)

namespace Bared
variable {π : Platform} {st : List Bare.Frame} {below : List Frame} {g : Party} {heard : List Word}
  {since : Local}

/-- A party that may come back into the library is a party of the bare machine, too, with what
it has heard. -/
theorem party (h : Bared (.outside g heard since :: below) st) (hg : g.reentrant) :
    ∃ d st', st = .party d heard :: st' ∧ Stands g d ∧
      ∀ heard' since', Bared (.outside g heard' since' :: below) (.party d heard' :: st') := by
  cases h with
  | main => exact ⟨_, _, rfl, .main, fun _ _ => .main⟩
  | invoked h => exact ⟨_, _, rfl, .user, fun _ _ => .invoked h⟩
  | serving hf ha h =>
    subst ha
    exact ⟨_, _, rfl, .native hf, fun _ _ => .serving hf rfl h⟩
  | aside => simp [Party.reentrant] at hg
  | visiting h => exact ⟨_, _, rfl, .user, fun _ _ => .visiting h⟩

/-- A descriptor query changes nothing. -/
theorem after_aside {f : Api} {args : List Word} {id : Nat} {act : Activation}
    {next : Word → Code Word} {e : Event}
    (h : Bared (.code id act (.perform (.native .dirfd args) next) :: below) st)
    (hf : act.entry.api = some f) (hb : Bare.bookkeeping f .dirfd = true) :
    Bared (.code id (act.push e) (next e.answer) :: below) st := by
  have stays : ∀ {stage},
      (stageProtocol act.entry).Keeps stage (.perform (.native .dirfd args) next) →
      (stageProtocol act.entry).Keeps stage (next e.answer) := by
    intro stage hk
    obtain ⟨stage', hstep, hk'⟩ := hk e.answer
    rcases StageStep.of_native hstep with ⟨rfl, -⟩ | ⟨-, -, hapi, -⟩
    · exact hk'
    · obtain rfl := Option.some.inj (hf.symm.trans hapi)
      rw [not_bookkeeping_self] at hb
      cases hb
  cases h with
  | asked h ha hk => exact .asked h ha (stays hk)
  | rejected h ha hr hk => exact .rejected h ha hr (stays hk)
  | settled h ha hk => exact .settled h ha (stays hk)
  | looking _ hn | calling _ hn | passed _ hn => exact absurd (hf.symm.trans hn) (by simp)

/-- The native function of a call answers. -/
theorem after_serving {f : Api} {args : List Word} {id : Nat} {act : Activation}
    {next : Word → Code Word} {e : Event}
    (h : Bared (.code id act (.perform (.native f args) next) :: below) (.asked act.entry :: st))
    (hf : act.entry.api = some f) :
    Bared (.code id (act.push e) (next e.answer) :: below)
      (.settled act.entry (act.entry.returns e.answer) :: st) := by
  have serves : ∀ {stage}, (stageProtocol act.entry).Keeps stage (.perform (.native f args) next) →
      (stageProtocol act.entry).Keeps (.settled (act.entry.returns e.answer)) (next e.answer) := by
    intro stage hk
    obtain ⟨stage', hstep, hk'⟩ := hk e.answer
    rcases StageStep.of_native hstep with ⟨-, f', hf', hb⟩ | ⟨-, rfl, -⟩
    · obtain rfl := Option.some.inj (hf.symm.trans hf')
      rw [not_bookkeeping_self] at hb
      cases hb
    · exact hk'
  cases h with
  | asked h ha hk => exact .settled h ha (serves hk)
  | rejected h ha hr hk => exact .settled h ha (serves hk)
  | looking _ hn => exact absurd (hf.symm.trans hn) (by simp)

/-- The user's function returns into a trampoline. -/
theorem after_visiting {fn : Word} {args : List Word} {id : Nat} {act : Activation}
    {next : Word → Code Word} {e : Event} {d : Party} {h : List Word}
    (hm : Bared (.code id act (.perform (.callback fn args) next) :: below) (.party d h :: st)) :
    Bared (.code id (act.push e) (next e.answer) :: below) (.party d (h ++ [e.answer]) :: st) := by
  have passes : ∀ {stage}, (stageProtocol act.entry).Keeps stage (.perform (.callback fn args) next) →
      stage = .calling fn ∧ (stageProtocol act.entry).Keeps (.passed e.answer) (next e.answer) := by
    intro stage hk
    obtain ⟨stage', hstep, hk'⟩ := hk e.answer
    obtain ⟨rfl, rfl, -⟩ := StageStep.of_callback hstep
    exact ⟨rfl, hk'⟩
  cases hm with
  | looking _ _ hk => cases (passes hk).1
  | calling hb hn _ hk => exact .passed hb hn (passes hk).2
  | passed _ _ hk => cases (passes hk).1

end Bared

/-- A trampoline finds the callback of the walk it runs for. -/
theorem Stacked.dispatches {π : Platform} {s s' : Shared} {l l' : Local} {id : Nat} {act : Activation}
    {k : Kind} {p v : Word} {next : Word → Code Word} {below : List Frame} {a : Answer}
    (h : Stacked s l.active (.code id act (.perform (.loadField k p .callback) next) :: below))
    (hsound : StackSound (system π) l
      (.code id act (.perform (.loadField k p .callback) next) :: below))
    (hr : act.entry.role = .trampoline k)
    (hrun : (Op.loadField k p .callback).run a s l = some (v, s', l')) :
    ∃ args heard since id' act' next' below' fn,
      below = .outside (.native k.api args) heard since ::
        .code id' act' (.perform (.native k.api args) next') :: below' ∧
      act'.entry.walk = some (k, fn) ∧ v = fn := by
  obtain ⟨args, heard, since, id', act', next', below', fn, rfl, hr', ha⟩ :=
    h.walk_of_trampoline hsound hr
  obtain ⟨c, hc, hkind, rfl, -, -⟩ := loadField_run hrun
  have hw := Call.walk_of_role.mp hr'
  refine ⟨args, heard, since, id', act', next', below', fn, rfl, hw, ?_⟩
  cases h with
  | code hst hk hh hn hb =>
    have hp : p = act'.base := by
      obtain ⟨ph', hstep, -⟩ := hk 0
      rw [hr] at hstep hh
      cases hstep with
      | fetch => exact hh.2.trans ha
    have hchain := hst.chain k
    cases hst with
    | outside hst =>
      cases hst with
      | code hst' hk' hh' hn' hb' =>
        have hopen := openWalk_of_awaits (π := π) (g := .native k.api args) hk' hn' rfl k
        rw [openWalks, openWalks, hopen] at hchain
        simp only [nativeWalk, hw, if_true, List.cons_append, List.nil_append] at hchain
        generalize act.start.active k = q at hchain ha
        cases hchain with
        | cons _ hc' _ =>
          obtain ⟨hcell, -⟩ := Shared.context_eq_some.mp hc'
          rw [hp, hcell] at hc
          rw [← Option.some.inj hc]
          rfl

/-! ## Steps -/

/-- What holds in every reachable configuration and is used of it here. -/
structure Placed (π : Platform) (cfg : Config) : Prop where
  sound : ∀ t, StackSound (system π) (cfg.threads t).loc (cfg.threads t).stack
  stacked : ∀ t, Stacked cfg.shared (cfg.threads t).loc.active (cfg.threads t).stack
  named : ∀ t id act, (id, act) ∈ codes (cfg.threads t).stack →
    cfg.log[id]? = some (t, .call id act.entry act.base)

theorem placed_of_reach {π : Platform} {legal : Config → Nat → Move → Prop} {heap : Word → Word}
    {cfg : Config} (h : Effect.Config.Reach (system π) legal (startConfig heap) cfg) :
    Placed π cfg where
  sound := h.accounted.sound
  stacked := (stacks_of_reach h).stacked
  named := fun _ _ _ hmem => h.named hmem

section
variable {π : Platform} {st : List Bare.Frame} {below : List Frame} {log : List (Nat × Item)}
  {id t : Nat} {act : Activation}

theorem calledAs_of_named {c : Call} {base : Word} (h : log[id]? = some (t, .call id c base)) :
    Bare.calledAs log id = some c := by
  simp [Bare.calledAs, h]

theorem unlessBookkeeping_of {f g : Api} {lb : Bare.Label}
    (hc : Bare.calledAs log id = some act.entry) (hf : act.entry.api = some f) :
    Bare.unlessBookkeeping log id g lb =
      if Bare.bookkeeping f g then none else some lb := by
  simp [Bare.unlessBookkeeping, hc, hf]

open Bare (observe step)

/-- An operation of the library's own shows at most that the injector refused the call. -/
theorem Bared.op {s s' : Shared} {l l' : Local} {o : Op} {next : Word → Code Word} {v : Word}
    {a : Answer} (h : Bared (.code id act (.perform o next) :: below) st)
    (hst : Stacked s l.active (.code id act (.perform o next) :: below))
    (hsound : StackSound (system π) l (.code id act (.perform o next) :: below))
    (hparty : o.party = none) (hrun : o.run a s l = some (v, s', l')) :
    ∃ st', accepts step st (observe log (.event id ⟨o, [], v, l, l'⟩)).toList = some st' ∧
      Bared (.code id (act.push ⟨o, [], v, l, l'⟩) (next v) :: below) st' := by
  have silent : ∀ {f}, o.aside f = true → observe log (.event id ⟨o, [], v, l, l'⟩) = none := by
    intro f ha
    cases o with
    | native | callback => cases hparty
    | checkFault => cases ha
    | _ => rfl
  cases h with
  | asked h ha hk =>
    obtain ⟨stage, hstep, hk'⟩ := hk v
    cases hstep with
    | wait hf haside => exact ⟨_, by rw [silent haside]; rfl, .asked h ha hk'⟩
    | spare hf => exact ⟨_, by simp [observe], .asked h ha hk'⟩
    | @fault f domain failure _ hguard hcode =>
      refine ⟨.settled act.entry (failure v) :: _, ?_, .settled h ha hk'⟩
      simp [observe, hcode, step, hguard]
    | reject hr => exact ⟨_, by simp [observe], .rejected h ha hr hk'⟩
    | serve => cases hparty
  | rejected h ha hr hk =>
    obtain ⟨stage, hstep, hk'⟩ := hk v
    cases hstep with
    | leave hf haside => exact ⟨_, by rw [silent haside]; rfl, .rejected h ha hr hk'⟩
  | settled h ha hk =>
    obtain ⟨stage, hstep, hk'⟩ := hk v
    cases hstep with
    | leave hf haside => exact ⟨_, by rw [silent haside]; rfl, .settled h ha hk'⟩
  | looking h hn hk =>
    obtain ⟨stage, hstep, hk'⟩ := hk v
    cases hstep with
    | look => exact ⟨_, by simp [observe], .looking h hn hk'⟩
    | @fetch k p _ hrole =>
      obtain ⟨args, heard, since, id', act', next', below', fn, rfl, hw, rfl⟩ :=
        hst.dispatches hsound hrole hrun
      have hvisits := visits_of_walk hw hrole
      generalize hk : k.api = f at h hvisits ⊢
      cases h with
      | serving hf ha h => exact ⟨_, by simp [observe], .calling (.serving hf ha h) hn hvisits hk'⟩
      | aside => cases k <;> cases hk
  | calling h hn hvisits hk =>
    obtain ⟨stage, hstep, hk'⟩ := hk v
    cases hstep with
    | call => cases hparty
  | passed h hn hk =>
    obtain ⟨stage, hstep, hk'⟩ := hk v
    cases hstep with
    | mark => exact ⟨_, by simp [observe], .passed h hn hk'⟩

/-- Control goes out to the native function or the callback that the bare machine expects. -/
theorem Bared.hand {l : Local} {o : Op} {next : Word → Code Word} {g : Party}
    (h : Bared (.code id act (.perform o next) :: below) st)
    (hc : Bare.calledAs log id = some act.entry) (hparty : o.party = some g) :
    ∃ st', accepts step st (observe log (.hand id o)).toList = some st' ∧
      Bared (.outside g [] l :: .code id act (.perform o next) :: below) st' := by
  cases o with
  | native f args =>
    obtain rfl := Option.some.inj hparty
    -- A query on the side, or the call's own native function.
    have shows : ∀ {stage}, (stageProtocol act.entry).Keeps stage (.perform (.native f args) next) →
        (∃ f', act.entry.api = some f' ∧ Bare.bookkeeping f' f = true) ∨
          (stage = .asked ∧ act.entry.api = some f ∧ args = act.entry.passed ∧
            act.entry.rejected = false) := by
      intro stage hk
      obtain ⟨stage', hstep, -⟩ := hk 0
      rcases hstep.of_native with ⟨-, hb⟩ | ⟨hs, -, hf, ha, hr⟩
      · exact .inl hb
      · exact .inr ⟨hs, hf, ha, hr⟩
    have aside : (∃ f', act.entry.api = some f' ∧ Bare.bookkeeping f' f = true) →
        ∃ st', accepts step st (observe log (.hand id (.native f args))).toList = some st' ∧
          Bared (.outside (.native f args) [] l ::
            .code id act (.perform (.native f args) next) :: below) st' := by
      rintro ⟨f', hf', hb⟩
      obtain rfl : f = .dirfd := by
        simp only [Bare.bookkeeping, Bool.decide_and, Bool.and_eq_true, decide_eq_true_eq] at hb
        exact hb.1
      exact ⟨st, by simp [observe, unlessBookkeeping_of hc hf', hb], .aside hf' hb h⟩
    have hall := h
    cases h with
    | asked h' ha hk =>
      rcases shows hk with hb | ⟨-, hf, harg, hr⟩
      · exact aside hb
      · refine ⟨.party (.native f act.entry.args) [] :: .asked act.entry :: _, ?_,
          .serving hf harg hall⟩
        simp [observe, unlessBookkeeping_of hc hf, not_bookkeeping_self, step, hf, harg, hr]
    | rejected _ _ _ hk | settled _ _ hk =>
      rcases shows hk with hb | ⟨hs, -⟩
      · exact aside hb
      · cases hs
    | looking _ hn hk | calling _ hn _ hk | passed _ hn hk =>
      rcases shows hk with ⟨f', hf', -⟩ | ⟨hs, -⟩
      · exact absurd (hf'.symm.trans hn) (by simp)
      · cases hs
  | callback fn args =>
    obtain rfl := Option.some.inj hparty
    have shows : ∀ {stage},
        (stageProtocol act.entry).Keeps stage (.perform (.callback fn args) next) →
        stage = .calling fn ∧ args = act.entry.args := by
      intro stage hk
      obtain ⟨stage', hstep, -⟩ := hk 0
      obtain ⟨hs, -, ha, -⟩ := hstep.of_callback
      exact ⟨hs, ha⟩
    have hall := h
    cases h with
    | asked _ _ hk | rejected _ _ _ hk | settled _ _ hk | looking _ _ hk | passed _ _ hk =>
      cases (shows hk).1
    | @calling fn' _ _ _ _ d h st _ hn hvisits hk =>
      obtain ⟨hs, rfl⟩ := shows hk
      obtain rfl : fn' = fn := Stage.calling.inj hs
      exact ⟨.party (.user fn' act.entry.args) [] :: .party d h :: st,
        by simp [observe, step, hvisits], .visiting hall⟩
  | _ => cases hparty

/-- A call returns what it has settled for. -/
theorem Bared.exit {v : Word} {g : Party} {heard : List Word} {since : Local}
    (h : Bared (.code id act (.done v) :: .outside g heard since :: below) st)
    (hg : g.permits act.entry = true) :
    ∃ st', accepts step st (observe log (.exit id act v)).toList = some st' ∧
      Bared (.outside g (heard ++ [v]) since :: below) st' := by
  cases h with
  | asked _ _ hk => exact hk.elim
  | rejected h ha hr hk =>
    obtain ⟨d, st', rfl, -, hm⟩ := h.party (reentrant_of_permits hg)
    obtain rfl : v = -1 := hk
    exact ⟨_, by simp [observe, ha, step, hr], hm _ _⟩
  | settled h ha hk =>
    obtain ⟨d, st', rfl, -, hm⟩ := h.party (reentrant_of_permits hg)
    obtain rfl := hk
    exact ⟨_, by simp [observe, ha, step], hm _ _⟩
  | looking _ _ hk => exact hk.elim
  | calling _ _ _ hk => exact hk.elim
  | passed h hn hk =>
    obtain ⟨d, st', hst, -, hm⟩ := h.party (reentrant_of_permits hg)
    obtain ⟨hparty, rfl⟩ := List.cons.inj hst
    obtain ⟨rfl, rfl⟩ := Bare.Frame.party.inj hparty
    obtain rfl := hk
    exact ⟨_, by simp [observe, hn], hm _ _⟩

end

/-- Each step of a thread is a step of the bare machine, or none. -/
theorem bared_stepped {π : Platform} {cfg : Config} {t : Nat} {s : Shared} {th : Thread} {m : Move}
    {i : Item} {st : List Bare.Frame} (hp : Placed π cfg)
    (h : Effect.Thread.Stepped (system π) cfg.log.length cfg.shared (cfg.threads t) m s th i)
    (hm : Bared (cfg.threads t).stack st) :
    ∃ st', accepts Bare.step st (Bare.observe cfg.log i).toList = some st' ∧ Bared th.stack st' := by
  have hsound := hp.sound t
  have hstacked := hp.stacked t
  have hcalled : ∀ id act, (id, act) ∈ codes (cfg.threads t).stack →
      Bare.calledAs cfg.log id = some act.entry :=
    fun id act hmem => calledAs_of_named (hp.named t id act hmem)
  generalize cfg.threads t = old at h hm hsound hstacked hcalled
  cases h with
  | @call l s' g heard since below c base a hperm he =>
    obtain ⟨d, st', rfl, hst, -⟩ := hm.party (reentrant_of_permits hperm)
    have hstages := code_stages π c base
    cases hapi : c.api with
    | none =>
      simp only [Call.firstStage, hapi, Option.isSome_none, Bool.false_eq_true, if_false] at hstages
      exact ⟨_, by simp [Bare.observe, hapi], .looking hm hapi hstages⟩
    | some f =>
      simp only [Call.firstStage, hapi, Option.isSome_some, if_true] at hstages
      have hd := hst.permits (by simp [hapi]) hperm
      refine ⟨.asked c :: .party d heard :: st', ?_, .asked hm (by simp [hapi]) hstages⟩
      simp [Bare.observe, hapi, Bare.step, hd]
  | @invoke l g heard since below g' a hi =>
    obtain ⟨d, st', rfl, hst, -⟩ := hm.party (reentrant_of_invokes hi)
    obtain ⟨fn, args, rfl⟩ := invokes_user hi
    exact ⟨_, by simp [Bare.observe, Bare.step, hst.invokes hi], .invoked hm⟩
  | act ha =>
    obtain ⟨d, st', rfl, hst, -⟩ := hm.party (reentrant_of_acts ha)
    exact ⟨_, by simp [Bare.observe, Bare.step, hst.acts ha], hm⟩
  | @back l g heard since id act o next below v a =>
    have hc := hcalled id act (by simp)
    cases hm with
    | serving hf ha h =>
      refine ⟨_, ?_, h.after_serving hf⟩
      simp [Bare.observe, unlessBookkeeping_of hc hf, not_bookkeeping_self, Bare.step]
    | aside hf hb h =>
      exact ⟨_, by simp [Bare.observe, unlessBookkeeping_of hc hf, hb], h.after_aside hf hb⟩
    | visiting h => exact ⟨_, by simp [Bare.observe, Bare.step], h.after_visiting⟩
  | @backOutside l g' heard' since' g heard since below v a =>
    have hinvokes : (system π).invokes g g' = true := hsound.1 _ rfl
    cases hm with
    | invoked h =>
      obtain ⟨d, st', heq, -, hnew⟩ := h.party (reentrant_of_invokes hinvokes)
      obtain ⟨hparty, rfl⟩ := List.cons.inj heq
      obtain ⟨rfl, -⟩ := Bare.Frame.party.inj hparty
      exact ⟨_, by simp [Bare.observe, Bare.step], hnew _ _⟩
  | op hparty hrun => exact hm.op hstacked hsound hparty hrun
  | hand hparty => exact hm.hand (hcalled _ _ (by simp)) hparty
  | @exit l id act v g heard since below =>
    obtain ⟨-, ⟨f, tail, hbelow, hperm⟩, -⟩ := hsound
    obtain ⟨rfl, rfl⟩ := List.cons.inj hbelow
    exact hm.exit hperm

/-- The library as a mirror of the bare machine. -/
def bareMirror (π : Platform) : Mirror (system π) (Placed π) Bare.Label (List Bare.Frame) where
  observe := Bare.observe
  next := Bare.step
  Reflects := Bared
  step := bared_stepped

/-- Whatever any thread shows, in any run of any number of threads, is a history of the bare
machine, and the state it leads to is the thread's stack. -/
theorem bare_refined {π : Platform} {legal : Config → Nat → Move → Prop} {heap : Word → Word}
    {cfg : Config} (h : Effect.Config.Reach (system π) legal (startConfig heap) cfg) (t : Nat) :
    ∃ st, accepts Bare.step Bare.quiet (ofThread t (Bare.history cfg.log)) = some st ∧
      Bared (cfg.threads t).stack st :=
  h.accepted (bareMirror π) placed_of_reach .main t

/-- A walk whose callback closes a stream and stops the walk. -/
def closingWalk : List (Nat × Move) :=
  opening 0 (.ftw 1 7 5) 100 ++ [(0, .call (.callFtwCallback 3 4 0) 110 calm₀)] ++ runs 0 2 ++
    [(0, .hand), (0, .call (.closedir 5) 0 calm₀)] ++ runs 0 2 ++ answers 0 3 ++ runs 0 1 ++
    answers 0 0 ++ runs 0 3 ++ [(0, .exit), (0, .back 1 calm₀)] ++ runs 0 1 ++
    [(0, .exit), (0, .back 1 calm₀)] ++ runs 0 4 ++ [(0, .exit)]

/-- Neither the trampoline nor the descriptor query shows. -/
theorem bare_refined_closing :
    ∃ cfg, (startConfig fun _ => 0).run (system linux) (fun _ _ _ => True) closingWalk = some cfg ∧
      ofThread 0 (Bare.history cfg.log) =
        [.ask (.ftw 1 7 5), .start .ftw [1, 5], .visit (.user 7 [3, 4, 0]), .ask (.closedir 5),
          .start .closedir [5], .answer 0, .deliver 0, .back 1, .answer 1, .deliver 1] ∧
      ∃ st, accepts Bare.step Bare.quiet (ofThread 0 (Bare.history cfg.log)) = some st ∧
        Bared (cfg.threads 0).stack st := by
  have hrun : ((startConfig fun _ => 0).run (system linux) (fun _ _ _ => True) closingWalk).map
      (fun cfg => ofThread 0 (Bare.history cfg.log)) =
      some [.ask (.ftw 1 7 5), .start .ftw [1, 5], .visit (.user 7 [3, 4, 0]), .ask (.closedir 5),
        .start .closedir [5], .answer 0, .deliver 0, .back 1, .answer 1, .deliver 1] := by
    decide +kernel
  obtain ⟨cfg, hcfg, hhistory⟩ := Option.map_eq_some_iff.mp hrun
  exact ⟨cfg, hcfg, hhistory, bare_refined (Effect.Config.Reach.of_run .init hcfg) 0⟩

end P101Filesystem
