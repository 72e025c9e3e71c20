import P101Filesystem.Bare.Mirrored
import P101Filesystem.Effect.Drive
import Mathlib.Data.List.Induction

/-!
# The bare machine refines the library

Every history of the bare machine, with any number of threads in any interleaving, is one
that the library shows in some run: it takes nothing away. Between two labels a thread is
poised: in front of a fresh call, behind its answer, or in a party's hands.
-/
namespace P101Filesystem

open Effect

variable {π : Platform} {heap : Word → Word} {cfg : Config} {t : Nat}

/-- Reached in any way at all. -/
abbrev Runs (π : Platform) (heap : Word → Word) (cfg : Config) : Prop :=
  Effect.Config.Reach (system π) (fun _ _ _ => True) (startConfig heap) cfg

abbrev Drives (π : Platform) (t : Nat) (cfg cfg' : Config) (stack : List Frame)
    (labels : List Bare.Label) : Prop :=
  Effect.Drives (system π) Bare.observe t cfg cfg' stack labels

theorem past_max {n q p : Int} (h : max n (q + 1) ≤ p) : p ≠ q ∧ n ≤ p := by omega

theorem max_one (n : Int) : n ≤ max n 1 ∧ max n 1 ≠ 0 := by omega

theorem history_of_drives {cfg' : Config} {stack : List Frame} {labels : List Bare.Label}
    (h : Drives π t cfg cfg' stack labels) :
    Bare.history cfg'.log = Bare.history cfg.log ++ labels.map (t, ·) := h.shows

/-- Beyond some address no context is in scope. -/
theorem room_of_reach {legal : Config → Nat → Move → Prop}
    (h : Effect.Config.Reach (system π) legal (startConfig heap) cfg) :
    ∃ n : Word, ∀ p, n ≤ p → cfg.shared.cells p = none := by
  induction h with
  | init => exact ⟨0, fun _ _ => rfl⟩
  | @step cfg cfg' t m _ _ hs ih =>
    obtain ⟨n, hn⟩ := ih
    obtain ⟨s, th, i, hst, rfl⟩ := Config.stepped hs
    have put : ∀ q c, ∃ n' : Word, ∀ p, n' ≤ p → (cfg.shared.put q c).cells p = none := by
      intro q c
      refine ⟨max n (q + 1), fun p hp => ?_⟩
      obtain ⟨hne, hnp⟩ := past_max hp
      simp [hne, hn p hnp]
    have same : s.cells = cfg.shared.cells → ∃ n' : Word, ∀ p, n' ≤ p → s.cells p = none := by
      intro hcells
      exact ⟨n, fun p hp => by rw [hcells]; exact hn p hp⟩
    generalize cfg.threads t = old at hst
    cases hst with
    | @call l s' g heard since below c base a hperm he =>
      simp only [system, enterFrame] at he
      split at he
      · obtain rfl := Option.some.inj he
        exact same rfl
      · split at he
        · obtain rfl := Option.some.inj he
          exact put _ _
        · cases he
    | invoke | act | back | backOutside | hand => exact same rfl
    | @op l id act o next below a v s' l' hp hr =>
      cases o with
      | storeField k p f u =>
        obtain ⟨c, -, -, rfl, -⟩ := storeField_run (a := a) hr
        exact put _ _
      | loadField k p f =>
        obtain ⟨c, -, -, -, rfl, -⟩ := loadField_run (a := a) hr
        exact same rfl
      | native | callback => cases hp
      | _ =>
        simp only [system, Op.run, Option.some.injEq, Prod.mk.injEq] at hr
        obtain ⟨-, rfl, -⟩ := hr
        exact same rfl
    | @exit l id act v g heard since below =>
      cases hw : act.entry.walk with
      | none => exact same (by simp [system, leaveFrame, hw])
      | some w =>
        have hleave : leaveFrame act.entry act.base cfg.shared = cfg.shared.put act.base none := by
          simp [leaveFrame, hw]
        obtain ⟨n', hn'⟩ := put act.base none
        refine ⟨n', fun p hp => ?_⟩
        rw [show (system π).leave = leaveFrame from rfl, hleave]
        exact hn' p hp

/-- Any call can be entered, a walk with its context at some free address. -/
theorem enters (h : Runs π heap cfg) (c : Call) (a : Answer) (s : Shared)
    (hs : s.cells = cfg.shared.cells) : ∃ base s', enterFrame c base a s = some s' := by
  obtain ⟨n, hn⟩ := room_of_reach h
  cases hw : c.walk with
  | none => exact ⟨0, s, by simp [enterFrame, hw]⟩
  | some w =>
    obtain ⟨hbeyond, hne⟩ := max_one n
    have hfree : s.cells (max n 1) = none := by rw [hs, hn _ hbeyond]
    exact ⟨max n 1, s.put (max n 1) (some ⟨w.1, a.word, a.word, a.word⟩),
      by simp [enterFrame, hw, hfree, hne]⟩

/-! ## Single operations -/

/-- Code of the library's own is never stuck. -/
theorem runnable {id : Nat} {act : Activation} {o : Op} {next : Word → Code Word} {below : List Frame}
    (h : Runs π heap cfg) (hstack : (cfg.threads t).stack = .code id act (.perform o next) :: below)
    (hp : o.party = none) (a : Answer) :
    ∃ v s' l', o.run a cfg.shared (cfg.threads t).loc = some (v, s', l') := by
  have hholds := ((stacks_of_reach h).stacked t).walksHold (h.accounted.sound t)
  have hdefined := hholds.defined id act o next below
  cases o with
  | loadField k p f | storeField k p f u =>
    obtain ⟨-, ⟨c, hc⟩, -⟩ := hdefined k p hstack rfl
    exact ⟨_, _, _, by simp only [Op.run, hc, Option.map_some]; rfl⟩
  | native | callback => cases hp
  | _ => exact ⟨_, _, _, rfl⟩

/-- The consultation of the injector answers what the surroundings say. -/
theorem consulted_word {o : Op} {f : Api} {a : Answer} {s s' : Shared} {l l' : Local} {v : Word}
    (ho : o = .checkFault f) (hr : o.run a s l = some (v, s', l')) : v = a.word := by
  subst ho
  exact (Prod.mk.inj (Option.some.inj hr)).1.symm

/-- Only walks reject, and what they raise then is on the side. -/
theorem raise_aside {c : Call} {domain : Domain} {message : Option String} {code : Word}
    (h : c.rejected = true) :
    ∃ f, c.api = some f ∧ (Op.raise domain message code).aside f = true := by
  cases c <;> first | exact ⟨_, rfl, rfl⟩ | cases h

/-- Operations that show nothing, provided that the injector does not fault the call. -/
def Op.Beside (c : Call) (o : Op) : Prop :=
  (∃ f, c.api = some f ∧ o.aside f = true) ∨ (∃ f, o = .checkFault f) ∨
    ∃ k p u, o = .storeField k p .stopped u

theorem drives_beside {id : Nat} {act : Activation} {o : Op} {next : Word → Code Word}
    {below : List Frame} (h : Runs π heap cfg)
    (hstack : (cfg.threads t).stack = .code id act (.perform o next) :: below)
    (ho : o.Beside act.entry) :
    ∃ cfg' act' v, Drives π t cfg cfg' (.code id act' (next v) :: below) [] ∧
      act'.entry = act.entry ∧ (∀ g, o = .checkFault g → v = 0) := by
  cases hp : o.party with
  | none =>
    obtain ⟨v, s', l', hr⟩ := runnable h hstack hp calm₀
    obtain ⟨cfg', l, hd⟩ := Effect.drives_op (system π) Bare.observe hstack hp hr
    have hv : ∀ g, o = .checkFault g → v = 0 := fun g hg => consulted_word hg hr
    have hnone : Bare.observe cfg.log (.event id ⟨o, [], v, l, l'⟩) = none := by
      cases o with
      | native | callback => cases hp
      | checkFault g => simp [Bare.observe, hv g rfl]
      | _ => rfl
    rw [hnone] at hd
    exact ⟨cfg', _, v, hd, rfl, hv⟩
  | some g =>
    -- It is a descriptor query, handed out and answered at once.
    obtain ⟨f, hf, ha⟩ : ∃ f, act.entry.api = some f ∧ o.aside f = true := by
      rcases ho with ho | ⟨g, rfl⟩ | ⟨k, p, u, rfl⟩
      · exact ho
      · cases hp
      · cases hp
    obtain ⟨args, rfl, rfl⟩ := aside_party ha (π := π) hp
    have hb : Bare.bookkeeping f .dirfd = true := ha
    have hidden : ∀ {cfg act' stack}, Runs π heap cfg → (cfg.threads t).stack = stack →
        (id, act') ∈ codes stack → act'.entry = act.entry → ∀ lb,
        Bare.unlessBookkeeping cfg.log id .dirfd lb = none := by
      intro cfg act' stack hr hst hmem hentry lb
      have hcalled := calledAs_of_named ((placed_of_reach hr).named t id act' (hst ▸ hmem))
      simp [unlessBookkeeping_of hcalled (hentry ▸ hf), hb]
    obtain ⟨cfg₁, l, hd⟩ := Effect.drives_hand (system π) Bare.observe hstack hp
    have hnone : Bare.observe cfg.log (.hand id (.native .dirfd args)) = none :=
      hidden h hstack (by simp) rfl _
    rw [hnone] at hd
    obtain ⟨cfg', l', hd'⟩ :=
      Effect.drives_back (system π) Bare.observe hd.stack 0 calm₀
    have hnone' : Bare.observe cfg₁.log (.event id ⟨.native .dirfd args, [], 0, l, l'⟩) = none :=
      hidden (hd.reach h) hd.stack (by simp) rfl _
    rw [hnone'] at hd'
    exact ⟨cfg', _, 0, hd.trans hd', rfl, fun g hg => by cases hg⟩

/-! ## Stretches -/

section
variable {c : Call} {id : Nat} {act : Activation} {rest : Code Word} {below : List Frame} {f : Api}

/-- Stages that a call does not leave unfaulted, and goes through beside what it shows, before
it comes to a `stop`. -/
def Lasting (c : Call) (on : Stage → Prop) (stop : Op → Prop) : Prop :=
  ∀ stage o v stage', on stage → ¬ stop o → StageStep c stage o v stage' →
    o.Beside c ∧ ((∀ g, o = .checkFault g → v = 0) → on stage')

theorem drives_lasting {on : Stage → Prop} {stop : Op → Prop} (hl : Lasting act.entry on stop)
    (h : Runs π heap cfg) (hstack : (cfg.threads t).stack = .code id act rest :: below)
    {stage : Stage} (hon : on stage) (hk : (stageProtocol act.entry).Keeps stage rest) :
    ∃ cfg' act' rest' stage', Drives π t cfg cfg' (.code id act' rest' :: below) [] ∧
      act'.entry = act.entry ∧ on stage' ∧ (stageProtocol act.entry).Keeps stage' rest' ∧
      ((∃ v, rest' = .done v) ∨ ∃ o next, rest' = .perform o next ∧ stop o) := by
  have hquiet : Effect.Quiet (system π) Bare.observe (startConfig heap) t id below act.entry
      (fun p => ∃ stage, on stage ∧ (stageProtocol act.entry).Keeps stage p) stop := by
    rintro cfg act₁ o next hr hst hc ⟨stage, hon, hk⟩ hstop
    have hbeside : o.Beside act.entry := by
      obtain ⟨stage', hstep, -⟩ := hk 0
      exact (hl _ _ _ _ hon hstop hstep).1
    obtain ⟨cfg', act', v, hd, he, hzero⟩ := drives_beside hr hst (hc ▸ hbeside)
    obtain ⟨stage', hstep, hk'⟩ := hk v
    exact ⟨cfg', act', v, hd, he.trans hc, stage', (hl _ _ _ _ hon hstop hstep).2 hzero, hk'⟩
  obtain ⟨cfg', act', rest', hd, hentry, ⟨stage', hon', hk'⟩, hend⟩ :=
    Effect.drives_until hquiet h hstack rfl ⟨stage, hon, hk⟩
  exact ⟨cfg', act', rest', stage', hd, hentry, hon', hk', hend⟩

/-- A call that has its answer is driven to its return. -/
theorem drives_settled {v : Word} (h : Runs π heap cfg)
    (hstack : (cfg.threads t).stack = .code id act rest :: below)
    (hk : (stageProtocol act.entry).Keeps (.settled v) rest) :
    ∃ cfg' act', Drives π t cfg cfg' (.code id act' (.done v) :: below) [] ∧
      act'.entry = act.entry := by
  have hl : Lasting act.entry (fun stage => stage = .settled v) fun _ => False := by
    rintro _ o u stage' rfl - hstep
    cases hstep with
    | leave hf ha => exact ⟨.inl ⟨_, hf, ha⟩, fun _ => rfl⟩
  obtain ⟨cfg', act', rest', _, hd, hentry, rfl, hk', ⟨u, rfl⟩ | ⟨_, _, _, hstop⟩⟩ :=
    drives_lasting hl h hstack rfl hk
  · obtain rfl : u = v := hk'
    exact ⟨cfg', act', hd, hentry⟩
  · exact hstop.elim

/-- A call that is neither refused nor rejected is driven to its native call. -/
theorem drives_asked (h : Runs π heap cfg)
    (hstack : (cfg.threads t).stack = .code id act rest :: below) (hf : act.entry.api = some f)
    (hr : act.entry.rejected = false) (hk : (stageProtocol act.entry).Keeps .asked rest) :
    ∃ cfg' act' next, Drives π t cfg cfg'
      (.code id act' (.perform (.native f act.entry.passed) next) :: below) [] ∧
      act'.entry = act.entry := by
  have hl : Lasting act.entry (fun stage => stage = .asked)
      fun o => o = .native f act.entry.passed := by
    rintro _ o u stage' rfl hstop hstep
    cases hstep with
    | wait hf' ha => exact ⟨.inl ⟨_, hf', ha⟩, fun _ => rfl⟩
    | spare => exact ⟨.inr (.inl ⟨_, rfl⟩), fun _ => rfl⟩
    | fault _ hne => exact ⟨.inr (.inl ⟨_, rfl⟩), fun hzero => absurd (hzero _ rfl) hne⟩
    | reject hr' => simp [hr] at hr'
    | serve hf' =>
      obtain rfl := Option.some.inj (hf.symm.trans hf')
      exact absurd rfl hstop
  obtain ⟨cfg', act', rest', _, hd, hentry, rfl, hk', ⟨u, rfl⟩ | ⟨o, next, rfl, rfl⟩⟩ :=
    drives_lasting hl h hstack rfl hk
  · exact hk'.elim
  · exact ⟨cfg', act', next, hd, hentry⟩

/-- A walk with bad arguments is driven to its return. -/
theorem drives_rejected (h : Runs π heap cfg)
    (hstack : (cfg.threads t).stack = .code id act rest :: below)
    (hr : act.entry.rejected = true) (hk : (stageProtocol act.entry).Keeps .asked rest) :
    ∃ cfg' act', Drives π t cfg cfg' (.code id act' (.done (-1)) :: below) [] ∧
      act'.entry = act.entry := by
  have hl : Lasting act.entry (fun stage => stage = .asked ∨ stage = .settled (-1))
      fun _ => False := by
    rintro _ o u stage' (rfl | rfl) - hstep
    · cases hstep with
      | wait hf ha => exact ⟨.inl ⟨_, hf, ha⟩, fun _ => .inl rfl⟩
      | spare => exact ⟨.inr (.inl ⟨_, rfl⟩), fun _ => .inl rfl⟩
      | fault _ hne => exact ⟨.inr (.inl ⟨_, rfl⟩), fun hzero => absurd (hzero _ rfl) hne⟩
      | reject => exact ⟨.inl (raise_aside hr), fun _ => .inr rfl⟩
      | serve _ hr' => simp [hr] at hr'
    · cases hstep with
      | leave hf ha => exact ⟨.inl ⟨_, hf, ha⟩, fun _ => .inr rfl⟩
  obtain ⟨cfg', act', rest', _, hd, hentry, hon, hk', ⟨u, rfl⟩ | ⟨_, _, _, hstop⟩⟩ :=
    drives_lasting hl h hstack (.inl rfl) hk
  · rcases hon with rfl | rfl
    · exact hk'.elim
    · obtain rfl : u = -1 := hk'
      exact ⟨cfg', act', hd, hentry⟩
  · exact hstop.elim

/-- A trampoline that has its result is driven to its return. -/
theorem drives_passed {v : Word} (h : Runs π heap cfg)
    (hstack : (cfg.threads t).stack = .code id act rest :: below)
    (hk : (stageProtocol act.entry).Keeps (.passed v) rest) :
    ∃ cfg' act', Drives π t cfg cfg' (.code id act' (.done v) :: below) [] ∧
      act'.entry = act.entry := by
  have hl : Lasting act.entry (fun stage => stage = .passed v) fun _ => False := by
    rintro _ o u stage' rfl - hstep
    cases hstep with
    | mark => exact ⟨.inr (.inr ⟨_, _, _, rfl⟩), fun _ => rfl⟩
  obtain ⟨cfg', act', rest', _, hd, hentry, rfl, hk', ⟨u, rfl⟩ | ⟨_, _, _, hstop⟩⟩ :=
    drives_lasting hl h hstack rfl hk
  · obtain rfl : u = v := hk'
    exact ⟨cfg', act', hd, hentry⟩
  · exact hstop.elim

end

/-! ## Labels -/

/-- Where a thread stands between two labels. -/
def Poised (π : Platform) : List Frame → List Bare.Frame → Prop
  | .outside _ _ _ :: _, .party _ _ :: _ => True
  | .code _ act rest :: _, .asked _ :: _ => act.entry.api.isSome ∧ rest = act.entry.code π act.base
  | .code _ act _ :: _, .settled _ _ :: _ => act.entry.api.isSome
  | _, _ => False

/-- A thread that stands in one state of the bare machine shows a label and stands poised. -/
def Shows (π : Platform) (t : Nat) (cfg : Config) (lb : Bare.Label)
    (st' : List Bare.Frame) : Prop :=
  ∃ cfg' stack, Drives π t cfg cfg' stack [lb] ∧ Poised π stack st'

section
variable {st st' : List Bare.Frame} {stack : List Frame} {lb : Bare.Label}

/-- The parties that may call a wrapper stand for themselves. -/
theorem permits_of_stands {g d : Party} {c : Call} (h : Stands g d) (hc : c.api.isSome)
    (hp : d.permits c = true) : g.permits c = true := by
  cases h with
  | main | user => exact hp
  | native => simp [native_permits hp] at hc

theorem acts_of_stands {g d : Party} {x : Foreign} (h : Stands g d) (ha : d.acts x = true) :
    g.acts x = true := by
  cases h with
  | main | user => exact ha
  | native => cases ha

/-- A party of the bare machine on top of a poised stack. -/
theorem Bared.outside {d : Party} {heard : List Word} (hm : Bared stack (.party d heard :: st))
    (hp : Poised π stack (.party d heard :: st)) :
    ∃ g since below, stack = .outside g heard since :: below ∧ Stands g d := by
  cases hm with
  | main => exact ⟨_, _, _, rfl, .main⟩
  | invoked | visiting => exact ⟨_, _, _, rfl, .user⟩
  | serving hf ha =>
    subst ha
    exact ⟨_, _, _, rfl, .native hf⟩
  | aside hf hb h =>
    cases h with
    | looking _ hn | calling _ hn | passed _ hn => exact absurd (hf.symm.trans hn) (by simp)
  | looking | calling | passed => exact hp.elim

/-- A call on top of a poised stack. -/
theorem Bared.call {c : Call} (hm : Bared stack (.asked c :: st))
    (hp : Poised π stack (.asked c :: st)) :
    ∃ id act rest below, stack = .code id act rest :: below ∧ act.entry = c ∧ c.api.isSome ∧
      rest = c.code π act.base := by
  cases hm with
  | asked | rejected =>
    obtain ⟨hf, hrest⟩ := hp
    exact ⟨_, _, _, _, rfl, rfl, hf, hrest⟩
  | aside => exact hp.elim
  | looking _ hn => simp [Poised, hn] at hp

theorem shows_ask {c : Call} {g : Party} {heard : List Word} (h : Runs π heap cfg)
    (hm : Bared (cfg.threads t).stack (.party g heard :: st))
    (hp : Poised π (cfg.threads t).stack (.party g heard :: st)) (hperm : g.permits c = true)
    (hc : c.api.isSome) : Shows π t cfg (.ask c) (.asked c :: .party g heard :: st) := by
  obtain ⟨g', since, below, hstack, hst⟩ := hm.outside hp
  obtain ⟨base, s', he⟩ :=
    enters h c calm₀ ((system π).disturb calm₀ cfg.shared (cfg.threads t).loc).1 rfl
  obtain ⟨cfg', l, hd⟩ := Effect.drives_call (system π) Bare.observe hstack
    (permits_of_stands hst hc hperm) he
  have hlabel : Bare.observe cfg.log (.call cfg.log.length c base) = some (.ask c) := by
    simp [Bare.observe, hc]
  rw [hlabel] at hd
  exact ⟨cfg', _, hd, hc, rfl⟩

/-- The injector's answer is the second thing a wrapper looks at. -/
theorem shows_refuse {c : Call} {f : Api} {domain : Domain} {failure : Word → Word} {code : Word}
    (hm : Bared (cfg.threads t).stack (.asked c :: st))
    (hp : Poised π (cfg.threads t).stack (.asked c :: st)) (hg : c.guard = some (f, domain, failure))
    (hcode : code ≠ 0) :
    Shows π t cfg (.refuse code) (.settled c (failure code) :: st) := by
  obtain ⟨id, act, rest, below, hstack, rfl, hc, rfl⟩ := hm.call hp
  obtain ⟨body, hbody, -⟩ := code_faultable (π := π) act.base hg
  rw [hbody, guarded] at hstack
  obtain ⟨cfg₁, l₁, hd₁⟩ := Effect.drives_op (system π) Bare.observe (a := calm₀)
    hstack rfl rfl
  obtain ⟨cfg', l, hd⟩ := Effect.drives_op (system π) Bare.observe
    (a := (⟨code, 0, []⟩ : Answer)) hd₁.stack rfl rfl
  have hall := hd₁.trans hd
  simp only [Bare.observe, if_neg hcode, Option.toList_none, Option.toList_some,
    List.nil_append] at hall
  exact ⟨cfg', _, hall, hc⟩

theorem shows_start {c : Call} {f : Api} (h : Runs π heap cfg)
    (hm : Bared (cfg.threads t).stack (.asked c :: st))
    (hp : Poised π (cfg.threads t).stack (.asked c :: st)) (hf : c.api = some f)
    (hr : c.rejected = false) :
    Shows π t cfg (.start f c.passed) (.party (.native f c.args) [] :: .asked c :: st) := by
  obtain ⟨id, act, rest, below, hstack, rfl, hc, rfl⟩ := hm.call hp
  have hk := code_stages π act.entry act.base
  rw [Call.firstStage, if_pos hc] at hk
  obtain ⟨cfg₁, act₁, next, hd₁, hentry⟩ := drives_asked h hstack hf hr hk
  obtain ⟨cfg', l, hd⟩ := Effect.drives_hand (system π) Bare.observe hd₁.stack rfl
  have hcalled : Bare.calledAs cfg₁.log id = some act.entry := by
    rw [← hentry]
    refine calledAs_of_named ((placed_of_reach (hd₁.reach h)).named t id act₁ ?_)
    rw [hd₁.stack]
    simp
  have hlabel : Bare.observe cfg₁.log (.hand id (.native f act.entry.passed)) =
      some (.start f act.entry.passed) := by
    simp [Bare.observe, unlessBookkeeping_of hcalled hf, not_bookkeeping_self]
  rw [hlabel] at hd
  exact ⟨cfg', _, hd₁.trans hd, trivial⟩

theorem shows_answer {c : Call} {g : Party} {heard : List Word} (h : Runs π heap cfg)
    (hm : Bared (cfg.threads t).stack (.party g heard :: .asked c :: st))
    (hp : Poised π (cfg.threads t).stack (.party g heard :: .asked c :: st)) (v : Word) :
    Shows π t cfg (.answer v) (.settled c (c.returns v) :: st) := by
  have hcalled : ∀ id act, (id, act) ∈ codes (cfg.threads t).stack →
      Bare.calledAs cfg.log id = some act.entry :=
    fun id act hmem => calledAs_of_named ((placed_of_reach h).named t id act hmem)
  generalize hstack : (cfg.threads t).stack = stack at hm hp hcalled
  cases hm with
  | @serving f args heard since id act next below st hf ha hm =>
    obtain ⟨cfg', l, hd⟩ :=
      Effect.drives_back (system π) Bare.observe hstack v calm₀
    have hlabel : Bare.observe cfg.log (.event id ⟨.native f args, heard, v, since, l⟩) =
        some (.answer v) := by
      simp [Bare.observe, unlessBookkeeping_of (hcalled id act (by simp)) hf, not_bookkeeping_self]
    rw [hlabel] at hd
    exact ⟨cfg', _, hd, by simp [Poised, hf]⟩
  | aside hf hb h =>
    cases h with
    | looking _ hn | calling _ hn | passed _ hn => exact absurd (hf.symm.trans hn) (by simp)
  | looking | calling | passed => exact hp.elim

theorem shows_back {g g' : Party} {heard heard' : List Word} (h : Runs π heap cfg)
    (hm : Bared (cfg.threads t).stack (.party g' heard' :: .party g heard :: st))
    (hp : Poised π (cfg.threads t).stack (.party g' heard' :: .party g heard :: st)) (v : Word) :
    Shows π t cfg (.back v) (.party g (heard ++ [v]) :: st) := by
  have hsound := h.accounted.sound t
  generalize hstack : (cfg.threads t).stack = stack at hm hp hsound
  cases hm with
  | invoked hm =>
    obtain ⟨cfg', hd⟩ :=
      Effect.drives_backOutside (system π) Bare.observe hstack v calm₀
    exact ⟨cfg', _, hd, trivial⟩
  | @visiting fn args heard' since id act next below d h' st hm =>
    obtain ⟨cfg₁, l, hd₁⟩ :=
      Effect.drives_back (system π) Bare.observe hstack v calm₀
    -- The trampoline has its result, passes it on and returns.
    obtain ⟨-, -, ⟨f, tail, rfl, hperm⟩, -⟩ := hsound
    cases f with
    | code => exact hperm.elim
    | outside g₀ heard₀ since₀ =>
    have hk : act.entry.api = none ∧ (stageProtocol act.entry).Keeps (.passed v) (next v) := by
      have passes : ∀ {stage},
          (stageProtocol act.entry).Keeps stage (.perform (.callback fn args) next) →
          stage = .calling fn ∧ (stageProtocol act.entry).Keeps (.passed v) (next v) := by
        intro stage hk
        obtain ⟨stage', hstep, hk'⟩ := hk v
        obtain ⟨rfl, rfl, -⟩ := StageStep.of_callback hstep
        exact ⟨rfl, hk'⟩
      cases hm with
      | looking _ _ hk => cases (passes hk).1
      | calling _ hn _ hk => exact ⟨hn, (passes hk).2⟩
      | passed _ _ hk => cases (passes hk).1
    obtain ⟨hn, hk⟩ := hk
    obtain ⟨cfg₂, act₂, hd₂, hentry⟩ := drives_passed (hd₁.reach h) hd₁.stack hk
    obtain ⟨cfg', hd⟩ := Effect.drives_exit (system π) Bare.observe hd₂.stack
    have hnone : Bare.observe cfg₂.log (.exit id act₂ v) = none := by
      have hn₂ : act₂.entry.api = none := by
        rw [hentry]
        exact hn
      simp [Bare.observe, hn₂]
    rw [hnone] at hd
    exact ⟨cfg', _, (hd₁.trans hd₂).trans hd, trivial⟩
  | aside hf hb h =>
    cases h with
    | looking _ hn | calling _ hn | passed _ hn => exact absurd (hf.symm.trans hn) (by simp)
  | looking | calling | passed => exact hp.elim

/-- A call that is done returns to the party it was called by. -/
theorem drives_return {id : Nat} {act : Activation} {v : Word} {below : List Frame}
    (h : Runs π heap cfg) (hstack : (cfg.threads t).stack = .code id act (.done v) :: below)
    (hc : act.entry.api.isSome) :
    ∃ cfg' g heard since tail, Drives π t cfg cfg' (.outside g heard since :: tail) [.deliver v] := by
  have hsound := h.accounted.sound t
  rw [hstack] at hsound
  obtain ⟨-, ⟨f, tail, rfl, hperm⟩, -⟩ := hsound
  cases f with
  | code => exact hperm.elim
  | outside g heard since =>
    obtain ⟨cfg', hd⟩ := Effect.drives_exit (system π) Bare.observe hstack
    have hlabel : Bare.observe cfg.log (.exit id act v) = some (.deliver v) := by
      simp [Bare.observe, hc]
    rw [hlabel] at hd
    exact ⟨cfg', g, _, since, tail, hd⟩

theorem shows_deliver {c : Call} {g : Party} {heard : List Word} {v : Word} (h : Runs π heap cfg)
    (hm : Bared (cfg.threads t).stack (.settled c v :: .party g heard :: st))
    (hp : Poised π (cfg.threads t).stack (.settled c v :: .party g heard :: st)) :
    Shows π t cfg (.deliver v) (.party g (heard ++ [v]) :: st) := by
  generalize hstack : (cfg.threads t).stack = stack at hm hp
  cases hm with
  | settled _ hc hk =>
    obtain ⟨cfg₁, act₁, hd₁, hentry⟩ := drives_settled h hstack hk
    obtain ⟨cfg', _, _, _, _, hd⟩ := drives_return (hd₁.reach h) hd₁.stack (hentry ▸ hc)
    exact ⟨cfg', _, hd₁.trans hd, trivial⟩
  | aside => exact hp.elim
  | looking _ hn => simp [Poised, hn] at hp

theorem shows_rejected {c : Call} {g : Party} {heard : List Word} (h : Runs π heap cfg)
    (hm : Bared (cfg.threads t).stack (.asked c :: .party g heard :: st))
    (hp : Poised π (cfg.threads t).stack (.asked c :: .party g heard :: st))
    (hr : c.rejected = true) :
    Shows π t cfg (.deliver (-1)) (.party g (heard ++ [-1]) :: st) := by
  obtain ⟨id, act, rest, below, hstack, rfl, hc, rfl⟩ := hm.call hp
  have hk := code_stages π act.entry act.base
  rw [Call.firstStage, if_pos hc] at hk
  obtain ⟨cfg₁, act₁, hd₁, hentry⟩ := drives_rejected h hstack hr hk
  obtain ⟨cfg', _, _, _, _, hd⟩ := drives_return (hd₁.reach h) hd₁.stack (hentry ▸ hc)
  exact ⟨cfg', _, hd₁.trans hd, trivial⟩

theorem shows_act {g : Party} {heard : List Word} {x : Foreign}
    (hm : Bared (cfg.threads t).stack (.party g heard :: st))
    (hp : Poised π (cfg.threads t).stack (.party g heard :: st)) (ha : g.acts x = true) :
    Shows π t cfg (.act x) (.party g heard :: st) := by
  obtain ⟨g', since, below, hstack, hst⟩ := hm.outside hp
  obtain ⟨cfg', hd⟩ := Effect.drives_act (system π) Bare.observe hstack
    (acts_of_stands hst ha) calm₀
  exact ⟨cfg', _, hd, trivial⟩

theorem ftw_visits {path fn ndirs : Word} {g : Party}
    (h : Bare.visits (.native .ftw [path, fn, ndirs]) g = true) :
    ∃ tr : Call, tr.role = .trampoline .ftw ∧ g = .user fn tr.args :=
  match g, h with
  | .user _ [a, b, c], h =>
    ⟨.callFtwCallback a b c, rfl, by rw [of_decide_eq_true h]; rfl⟩

theorem nftw_visits {path fn fdLimit flags : Word} {g : Party}
    (h : Bare.visits (.native .nftw [path, fn, fdLimit, flags]) g = true) :
    ∃ tr : Call, tr.role = .trampoline .nftw ∧ g = .user fn tr.args :=
  match g, h with
  | .user _ [a, b, c, d], h =>
    ⟨.callNftwCallback a b c d, rfl, by rw [of_decide_eq_true h]; rfl⟩

/-- scandir and glob call the user's functions themselves, a walk has its trampoline called. -/
theorem visits_native {g d g' : Party} (hst : Stands g d) (hv : Bare.visits d g' = true) :
    g.invokes g' = true ∨ ∃ (k : Kind) (args : List Word) (fn : Word) (tr : Call),
      g = .native k.api args ∧ tr.role = .trampoline k ∧ g' = .user fn tr.args := by
  cases hst with
  | main | user => exact .inl hv
  | @native c f hf =>
    cases c with
    | ftw path fn ndirs =>
      cases hf
      obtain ⟨tr, hr, rfl⟩ := ftw_visits hv
      exact .inr ⟨.ftw, _, fn, tr, rfl, hr, rfl⟩
    | nftw path fn fdLimit flags =>
      cases hf
      obtain ⟨tr, hr, rfl⟩ := nftw_visits hv
      exact .inr ⟨.nftw, _, fn, tr, rfl, hr, rfl⟩
    | callFtwCallback | callNftwCallback => cases hf
    | _ =>
      cases hf
      exact .inl hv

/-- A walk has one callback. -/
theorem visits_once {k : Kind} {args xs : List Word} {d : Party} {fn fn' : Word}
    (hst : Stands (.native k.api args) d) (hv : Bare.visits d (.user fn xs) = true)
    (hv' : Bare.visits d (.user fn' xs) = true) : fn = fn' := by
  generalize hg : Party.native k.api args = g at hst
  cases hst with
  | main | user => cases hg
  | @native c f hf =>
    obtain ⟨rfl, -⟩ := Party.native.inj hg
    cases c with
    | ftw path cb ndirs =>
      obtain rfl : k = .ftw := by cases k <;> first | rfl | cases hf
      obtain ⟨_, _, h⟩ := ftw_visits hv
      obtain ⟨_, _, h'⟩ := ftw_visits hv'
      exact (Party.user.inj h).1.trans (Party.user.inj h').1.symm
    | nftw path cb fdLimit flags =>
      obtain rfl : k = .nftw := by cases k <;> first | rfl | cases hf
      obtain ⟨_, _, h⟩ := nftw_visits hv
      obtain ⟨_, _, h'⟩ := nftw_visits hv'
      exact (Party.user.inj h).1.trans (Party.user.inj h').1.symm
    | _ => cases k <;> cases hf

theorem trampoline_permitted {k : Kind} (args : List Word) {tr : Call} (h : tr.role = .trampoline k) :
    (Party.native k.api args).permits tr = true ∧ tr.api = none ∧ tr.walk = none ∧
      ∀ π base, tr.code π base = trampoline k tr.args := by
  cases tr with
  | callFtwCallback | callNftwCallback =>
    cases h
    exact ⟨rfl, rfl, rfl, fun _ _ => rfl⟩
  | _ => cases h

/-- The native walk's visit goes through a trampoline, which shows nothing of itself. -/
theorem drives_trampoline {k : Kind} {args heard : List Word} {since : Local} {below : List Frame}
    {tr : Call} (h : Runs π heap cfg) (hr : tr.role = .trampoline k)
    (hstack : (cfg.threads t).stack = .outside (.native k.api args) heard since :: below) :
    ∃ cfg' id act fn next, Drives π t cfg cfg' (.code id act (.perform (.callback fn tr.args) next) ::
      .outside (.native k.api args) heard since :: below) [] ∧ act.entry = tr := by
  obtain ⟨hperm, hapi, hw, hcode⟩ := trampoline_permitted args hr
  have he : enterFrame tr 0 calm₀ ((system π).disturb calm₀ cfg.shared (cfg.threads t).loc).1 =
      some ((system π).disturb calm₀ cfg.shared (cfg.threads t).loc).1 := by simp [enterFrame, hw]
  obtain ⟨cfg₁, l₁, hd₁⟩ := Effect.drives_call (system π) Bare.observe hstack
    hperm he
  have hnone : Bare.observe cfg.log (.call cfg.log.length tr 0) = none := by
    simp [Bare.observe, hapi]
  rw [hnone] at hd₁
  have hlook := hd₁.stack
  rw [show (system π).code tr 0 = tr.code π 0 from rfl, hcode, trampoline_eq] at hlook
  obtain ⟨p, s₂, l₂, hrun₂⟩ := runnable (hd₁.reach h) hlook rfl calm₀
  obtain ⟨cfg₂, l₂', hd₂⟩ :=
    Effect.drives_op (system π) Bare.observe (a := calm₀) hlook rfl hrun₂
  obtain ⟨fn, s₃, l₃, hrun₃⟩ := runnable (hd₂.reach (hd₁.reach h)) hd₂.stack rfl calm₀
  obtain ⟨cfg₃, l₃', hd₃⟩ :=
    Effect.drives_op (system π) Bare.observe (a := calm₀) hd₂.stack rfl hrun₃
  exact ⟨cfg₃, _, _, fn, _, (hd₁.trans hd₂).trans hd₃, rfl⟩

theorem shows_visit {g g' : Party} {heard : List Word} (h : Runs π heap cfg)
    (hacc : accepts Bare.step Bare.quiet (ofThread t (Bare.history cfg.log)) =
      some (.party g heard :: st))
    (hp : Poised π (cfg.threads t).stack (.party g heard :: st)) (hv : Bare.visits g g' = true) :
    Shows π t cfg (.visit g') (.party g' [] :: .party g heard :: st) := by
  have bared : ∀ {cfg'}, Runs π heap cfg' →
      ofThread t (Bare.history cfg'.log) = ofThread t (Bare.history cfg.log) →
      Bared (cfg'.threads t).stack (.party g heard :: st) := by
    intro cfg' hr hsame
    obtain ⟨st', hacc', hm⟩ := hr.accepted (bareMirror π) placed_of_reach .main t
    rw [show (bareMirror π).observe = Bare.observe from rfl, hsame] at hacc'
    obtain rfl := Option.some.inj (hacc.symm.trans hacc')
    exact hm
  obtain ⟨g₀, since, below, hstack, hst⟩ := (bared h rfl).outside hp
  rcases visits_native hst hv with hi | ⟨k, args, fn, tr, rfl, hr, rfl⟩
  · obtain ⟨cfg', l, hd⟩ :=
      Effect.drives_invoke (system π) Bare.observe hstack hi calm₀
    exact ⟨cfg', _, hd, trivial⟩
  · obtain ⟨cfg₁, id, act, fn', next, hd₁, rfl⟩ := drives_trampoline h hr hstack
    have hsame : Bare.history cfg₁.log = Bare.history cfg.log := by
      simpa using history_of_drives hd₁
    have hm := bared (hd₁.reach h) (by rw [hsame])
    rw [hd₁.stack] at hm
    have hcalls : ∀ {stage}, (stageProtocol act.entry).Keeps stage
        (.perform (.callback fn' act.entry.args) next) → stage = .calling fn' := by
      intro stage hk
      obtain ⟨stage', hstep, -⟩ := hk 0
      exact hstep.of_callback.1
    have hv' : Bare.visits g (.user fn' act.entry.args) = true := by
      generalize hbelow : Frame.outside (.native k.api args) _ since :: below = stack at hm
      generalize hst' : Bare.Frame.party g heard :: st = st' at hm
      cases hm with
      | asked | rejected | settled => cases hst'
      | looking _ _ hk => cases hcalls hk
      | calling _ _ hvisits hk =>
        obtain rfl := Stage.calling.inj (hcalls hk)
        obtain ⟨hparty, -⟩ := List.cons.inj hst'
        rw [(Bare.Frame.party.inj hparty).1]
        exact hvisits
      | passed _ _ hk => cases hcalls hk
    obtain rfl := visits_once hst hv hv'
    obtain ⟨cfg', l, hd⟩ :=
      Effect.drives_hand (system π) Bare.observe hd₁.stack rfl
    exact ⟨cfg', _, hd₁.trans hd, trivial⟩

/-! ## Histories -/

/-- Each label that the bare machine accepts next can be shown next. -/
theorem shows_next {lb : Bare.Label} (h : Runs π heap cfg)
    (hacc : accepts Bare.step Bare.quiet (ofThread t (Bare.history cfg.log)) = some st)
    (hp : Poised π (cfg.threads t).stack st) (hnext : Bare.step st lb = some st') :
    Shows π t cfg lb st' := by
  have hm : Bared (cfg.threads t).stack st := by
    obtain ⟨st₁, hacc₁, hm⟩ := h.accepted (bareMirror π) placed_of_reach .main t
    obtain rfl := Option.some.inj (hacc.symm.trans hacc₁)
    exact hm
  unfold Bare.step at hnext
  split at hnext
  · split at hnext
    · next hask =>
      obtain rfl := Option.some.inj hnext
      exact shows_ask h hm hp hask.1 hask.2
    · cases hnext
  · split at hnext
    · next f domain failure hg =>
      split at hnext
      · next hcode =>
        obtain rfl := Option.some.inj hnext
        exact shows_refuse hm hp hg hcode
      · cases hnext
    · cases hnext
  · split at hnext
    · next hstart =>
      obtain ⟨hf, rfl, hr⟩ := hstart
      obtain rfl := Option.some.inj hnext
      exact shows_start h hm hp hf hr
    · cases hnext
  · obtain rfl := Option.some.inj hnext
    exact shows_answer h hm hp _
  · split at hnext
    · next hv =>
      obtain rfl := Option.some.inj hnext
      exact shows_visit h hacc hp hv
    · cases hnext
  · obtain rfl := Option.some.inj hnext
    exact shows_back h hm hp _
  · split at hnext
    · next hv =>
      subst hv
      obtain rfl := Option.some.inj hnext
      exact shows_deliver h hm hp
    · cases hnext
  · split at hnext
    · next hr =>
      obtain ⟨hr, rfl⟩ := hr
      obtain rfl := Option.some.inj hnext
      exact shows_rejected h hm hp hr
    · cases hnext
  · split at hnext
    · next ha =>
      obtain rfl := Option.some.inj hnext
      exact shows_act hm hp ha
    · cases hnext
  · cases hnext

/-- A run that shows just these labels, after which each thread stands poised. -/
theorem poised_run {labels : List (Nat × Bare.Label)}
    (h : ∀ t, ∃ st, accepts Bare.step Bare.quiet (ofThread t labels) = some st) :
    ∃ cfg, Runs π heap cfg ∧ Bare.history cfg.log = labels ∧
      ∀ t st, accepts Bare.step Bare.quiet (ofThread t labels) = some st →
        Poised π (cfg.threads t).stack st := by
  induction labels using List.reverseRecOn with
  | nil =>
    refine ⟨startConfig heap, .init, rfl, fun t st hst => ?_⟩
    obtain rfl := Option.some.inj hst
    trivial
  | append_singleton labels tl ih =>
    obtain ⟨t, lb⟩ := tl
    have hlast : ofThread t [(t, lb)] = [lb] := ofThread_same [lb]
    have hothers : ∀ u, u ≠ t → ofThread u [(t, lb)] = [] := fun u hu =>
      ofThread_other (Ne.symm hu) [lb]
    have hbefore : ∀ u, ∃ st, accepts Bare.step Bare.quiet (ofThread u labels) = some st := by
      intro u
      obtain ⟨st, hst⟩ := h u
      by_cases hu : u = t
      · subst hu
        rw [ofThread_append, hlast] at hst
        obtain ⟨mid, hmid, -⟩ := accepts_snoc hst
        exact ⟨mid, hmid⟩
      · rw [ofThread_append, hothers u hu, List.append_nil] at hst
        exact ⟨st, hst⟩
    obtain ⟨cfg, hr, hhist, hpoised⟩ := ih hbefore
    obtain ⟨st', hst'⟩ := h t
    rw [ofThread_append, hlast] at hst'
    obtain ⟨st, hst, hnext⟩ := accepts_snoc hst'
    obtain ⟨cfg', stack, hd, hp⟩ :=
      shows_next (π := π) hr (by rw [hhist]; exact hst) (hpoised t st hst) hnext
    refine ⟨cfg', hd.reach hr, by rw [history_of_drives hd, hhist]; rfl, fun u st₁ hst₁ => ?_⟩
    by_cases hu : u = t
    · subst hu
      rw [ofThread_append, hlast] at hst₁
      obtain rfl := Option.some.inj (hst'.symm.trans hst₁)
      rw [hd.stack]
      exact hp
    · rw [ofThread_append, hothers u hu, List.append_nil] at hst₁
      rw [hd.others u hu]
      exact hpoised u st₁ hst₁

end

/-- The histories that runs of the library show are the interleavings of histories of the bare
machine, no fewer and no more. -/
theorem bare_histories (π : Platform) (heap : Word → Word) (labels : List (Nat × Bare.Label)) :
    (∃ cfg, Runs π heap cfg ∧ Bare.history cfg.log = labels) ↔
      ∀ t, (accepts Bare.step Bare.quiet (ofThread t labels)).isSome := by
  constructor
  · rintro ⟨cfg, hr, rfl⟩ t
    obtain ⟨st, hst, -⟩ := hr.accepted (bareMirror π) placed_of_reach .main t
    exact Option.isSome_iff_exists.mpr ⟨st, hst⟩
  · intro h
    obtain ⟨cfg, hr, hhist, -⟩ := poised_run fun t => Option.isSome_iff_exists.mp (h t)
    exact ⟨cfg, hr, hhist⟩

end P101Filesystem
