import P101Filesystem.Walk.Stack

/-!
# What the pointers lead to

In every reachable state of any number of threads, `previous` leads from a thread's pointer
through the contexts of its running walks, innermost first, and ends in NULL.
-/
namespace P101Filesystem

open Effect

/-- Following `previous` from `p` visits these contexts, which hold these callbacks, and
ends in NULL. -/
inductive Chain (s : Shared) (k : Kind) : Word → List (Word × Word) → Prop
  | nil : Chain s k NULL []
  | cons {p c rest} : p ≠ NULL → s.context k p = some c → Chain s k c.previous rest →
      Chain s k p ((p, c.callback) :: rest)

/-- The context a call has linked and not unlinked, with the callback it was given. -/
def openWalk (k : Kind) (act : Activation) : List (Word × Word) :=
  match act.entry.walk with
  | some (k', fn) => if k' = k ∧ sets act.past = 1 then [(act.base, fn)] else []
  | none => []

def openWalks (k : Kind) : List Frame → List (Word × Word)
  | [] => []
  | .outside _ _ _ :: below => openWalks k below
  | .code _ act _ :: below => openWalk k act ++ openWalks k below

/-- The context of the native walk `g`, which the call `act` is waiting for. -/
def nativeWalk (k : Kind) (g : Party) (act : Activation) : List (Word × Word) :=
  match g, act.entry.walk with
  | .native f _, some (_, fn) => if f = k.api then [(act.base, fn)] else []
  | _, _ => []

/-- The contexts of the native walks that are running. -/
def nativeWalks (k : Kind) : List Frame → List (Word × Word)
  | [] => []
  | .code _ _ _ :: below => nativeWalks k below
  | .outside g _ _ :: below =>
    (match below with
      | .code _ act _ :: _ => nativeWalk k g act
      | _ => []) ++ nativeWalks k below

/-- The context an operation reads or writes. -/
def Op.context : Op → Option (Kind × Word)
  | .loadField k p _ => some (k, p)
  | .storeField k p _ _ => some (k, p)
  | _ => none

theorem inert_context {o : Op} (h : o.inert = true) : o.context = none := by
  cases o <;> first | rfl | cases h

structure WalksHold (s : Shared) (th : Thread) : Prop where
  chain : ∀ k, Chain s k (th.loc.active k) (openWalks k th.stack)
  once : ∀ k, ((openWalks k th.stack).map Prod.fst).Nodup
  /-- Unless it is in a walk wrapper's own code, the linked contexts are the running walks. -/
  running : (∀ id act rest below, th.stack = .code id act rest :: below → act.entry.walk = none) →
    ∀ k, openWalks k th.stack = nativeWalks k th.stack
  /-- A context that is about to be read or written is in scope; it is the call's own one or
  that of a running walk. -/
  defined : ∀ id act o next below k p, th.stack = .code id act (.perform o next) :: below →
    o.context = some (k, p) → p ≠ NULL ∧ (∃ c, s.context k p = some c) ∧
      (act.entry.walk.isSome ∧ p = act.base ∨ p ∈ (openWalks k th.stack).map Prod.fst)
  restored : ∀ id act v below, th.stack = .code id act (.done v) :: below →
    th.loc.active = act.start.active
  quiet : ∀ k, openWalks k th.stack = [] → th.loc.active k = NULL

theorem Kind.api_injective {k k' : Kind} (h : k.api = k'.api) : k = k' := by
  cases k <;> cases k' <;> first | rfl | cases h

variable {s : Shared} {active : Kind → Word} {stack : List Frame}

theorem context_of_shape {k : Kind} {p f q : Word} (h : s.shape p = some (k, f, q)) :
    ∃ c, s.context k p = some c ∧ c.callback = f ∧ c.previous = q := by
  simp only [Shared.shape, Option.map_eq_some_iff, Prod.mk.injEq] at h
  obtain ⟨c, hc, hk, hf, hq⟩ := h
  exact ⟨c, Shared.context_eq_some.mpr ⟨hc, hk⟩, hf, hq⟩

/-- One frame either links its context or leaves the list alone. -/
theorem Holds.openWalk {under : Kind → Word} {act : Activation} {ph : Phase}
    (hh : Holds s active under act.base act.entry.role ph) (hn : sets act.past = ph.sets)
    (k : Kind) :
    (P101Filesystem.openWalk k act = [] ∧ active k = under k) ∨
    (∃ fn, P101Filesystem.openWalk k act = [(act.base, fn)] ∧ act.base ≠ NULL ∧
      active k = act.base ∧ s.shape act.base = some (k, fn, under k)) := by
  cases hr : act.entry.role with
  | walk k' fn =>
    have hw := Call.walk_of_role.mp hr
    rw [hr] at hh
    have hopen : P101Filesystem.openWalk k act =
        if k' = k ∧ sets act.past = 1 then [(act.base, fn)] else [] := by
      simp [P101Filesystem.openWalk, hw]
    have hlinked : ph.sets = 1 → active = Function.update under k' act.base ∧ act.base ≠ NULL ∧
        s.shape act.base = some (k', fn, under k') := by
      intro h1
      cases ph <;> simp [Phase.sets] at h1
      · exact hh
      · exact ⟨hh.1, hh.2.1, hh.2.2.2⟩
    have hunlinked : ph.sets ≠ 1 → active = under := by
      intro h1
      cases ph <;> simp only [Phase.sets, ne_eq, not_true_eq_false] at h1 <;>
        first | exact hh.1 | exact hh.elim
    rw [hopen, hn]
    by_cases h1 : ph.sets = 1
    · obtain ⟨ha, hb, hs⟩ := hlinked h1
      by_cases hk : k' = k
      · subst hk
        refine .inr ⟨fn, by simp [h1], hb, by simp [ha], hs⟩
      · refine .inl ⟨by simp [hk], ?_⟩
        rw [ha, Function.update_of_ne (Ne.symm hk)]
    · exact .inl ⟨by simp [h1], by rw [hunlinked h1]⟩
  | trampoline k' =>
    have hw : act.entry.walk = none := Call.walk_eq_none (by simp [hr])
    rw [hr] at hh
    refine .inl ⟨by simp [P101Filesystem.openWalk, hw], ?_⟩
    have ha : active = under := Holds.final hh trivial
    rw [ha]
  | plain =>
    have hw : act.entry.walk = none := Call.walk_eq_none (by simp [hr])
    rw [hr] at hh
    refine .inl ⟨by simp [P101Filesystem.openWalk, hw], ?_⟩
    have ha : active = under := Holds.final hh trivial
    rw [ha]

theorem Stacked.chain (h : Stacked s active stack) (k : Kind) :
    Chain s k (active k) (openWalks k stack) := by
  induction h with
  | main ha =>
    rw [ha]
    exact .nil
  | outside _ ih => exact ih
  | code hbelow hk hh hn hb ih =>
    rw [openWalks]
    rcases hh.openWalk hn k with ⟨hopen, ha⟩ | ⟨fn, hopen, hne, ha, hs⟩
    · rw [hopen, ha]
      exact ih
    · rw [hopen, ha]
      obtain ⟨c, hc, hf, hq⟩ := context_of_shape hs
      rw [← hf]
      exact .cons hne hc (hq ▸ ih)

theorem openWalks_subset (k : Kind) (stack : List Frame) :
    ∀ p ∈ (openWalks k stack).map Prod.fst, p ∈ contexts stack := by
  induction stack with
  | nil => simp [openWalks]
  | cons f below ih =>
    cases f with
    | outside g heard since => exact ih
    | code id act rest =>
      intro p hp
      rw [openWalks, List.map_append, List.mem_append] at hp
      cases hw : act.entry.walk with
      | none =>
        simp only [contexts, hw, Option.isSome_none, Bool.false_eq_true, if_false]
        rcases hp with hp | hp
        · simp [openWalk, hw] at hp
        · exact ih p hp
      | some w =>
        simp only [contexts, hw, Option.isSome_some, if_true]
        rcases hp with hp | hp
        · have hpb : p = act.base := by
            simp only [openWalk, hw] at hp
            split at hp
            · simpa using hp
            · cases hp
          simp [hpb]
        · exact List.mem_cons_of_mem _ (ih p hp)

theorem Stacked.once (h : Stacked s active stack) (k : Kind) :
    ((openWalks k stack).map Prod.fst).Nodup := by
  induction h with
  | main => simp [openWalks]
  | outside _ ih => exact ih
  | @code active ph id act rest below hbelow hk hh hn hb ih =>
    rw [openWalks, List.map_append]
    rcases hh.openWalk hn k with ⟨hopen, -⟩ | ⟨fn, hopen, -⟩
    · rw [hopen]
      exact ih
    · rw [hopen]
      have hw : act.entry.walk.isSome := by
        cases hw : act.entry.walk with
        | none => simp [openWalk, hw] at hopen
        | some w => rfl
      exact List.nodup_cons.mpr ⟨fun hm => hb hw (openWalks_subset k below _ hm), ih⟩

/-- A call that waits for a native walk has linked its context. -/
theorem openWalk_of_awaits {π : Platform} {act : Activation} {ph : Phase} {o : Op} {g : Party}
    {next : Word → Code Word} (hk : (act.entry.role.protocol act.base).Keeps ph (.perform o next))
    (hn : sets act.past = ph.sets) (ho : (system π).party o = some g) (k : Kind) :
    openWalk k act = nativeWalk k g act := by
  obtain ⟨ph', hstep, -⟩ := hk 0
  cases hr : act.entry.role with
  | walk k' fn =>
    have hw := Call.walk_of_role.mp hr
    rw [hr] at hstep
    cases hstep with
    | run =>
      obtain rfl := Option.some.inj ho
      have h1 : sets act.past = 1 := hn
      by_cases hkk : k' = k
      · simp [openWalk, nativeWalk, hw, h1, hkk]
      · have hapi : ¬ k'.api = k.api := fun he => hkk (Kind.api_injective he)
        simp [openWalk, nativeWalk, hw, hkk, hapi]
    | inert hi => exact absurd ((inert_party hi).symm.trans ho) (by simp)
    | _ => cases ho
  | trampoline | plain =>
    have hw : act.entry.walk = none := Call.walk_eq_none (by simp [hr])
    cases g <;> simp [openWalk, nativeWalk, hw]

/-- The stack without the code that is running. -/
def waiting : List Frame → List Frame
  | .code _ _ _ :: below => below
  | stack => stack

/-- All linked contexts but the one of the code on top belong to running walks. -/
theorem Stacked.running {π : Platform} {l : Local} (h : Stacked s active stack)
    (hsound : StackSound (system π) l stack) (k : Kind) :
    nativeWalks k stack = openWalks k (waiting stack) := by
  induction h generalizing l with
  | main => rfl
  | @outside active g heard since below hst ih =>
    obtain ⟨hw, hsound⟩ := hsound
    have hbelow := ih hsound
    cases hst with
    | main | outside => exact hbelow
    | @code _ ph id act rest below hst hk hh hn hb =>
      have hawaits := hw _ rfl
      cases rest with
      | done v => exact hawaits.elim
      | perform o next =>
        have hopen := openWalk_of_awaits hk hn hawaits k
        have hrest : nativeWalks k below = openWalks k below := hbelow
        simp only [nativeWalks, waiting, openWalks, hopen, hrest]
  | @code active ph id act rest below hst hk hh hn hb ih =>
    obtain ⟨-, ⟨f, tail, hbelow, hperm⟩, hsound⟩ := hsound
    have hrest := ih hsound
    subst hbelow
    cases f with
    | outside g heard since => exact hrest
    | code => exact hperm.elim

theorem native_of_permits {g : Party} {c : Call} {k : Kind} (hr : c.role = .trampoline k)
    (hp : g.permits c = true) : ∃ args, g = .native k.api args := by
  cases c with
  | callFtwCallback | callNftwCallback =>
    cases hr
    cases g with
    | native f args => cases f <;> first | exact ⟨args, rfl⟩ | cases hp
    | main | user => cases hp
  | _ => cases hr

/-- A call that waits for a native walk is a walk that has linked its context. -/
theorem Holds.linked {under : Kind → Word} {b : Word} {r : Role} {ph : Phase} {k : Kind}
    {args : List Word} {next : Word → Code Word} (hh : Holds s active under b r ph)
    (hk : (r.protocol b).Keeps ph (.perform (.native k.api args) next)) :
    (∃ fn, r = .walk k fn) ∧ active k = b := by
  obtain ⟨ph', hstep, -⟩ := hk 0
  cases r with
  | walk k' fn =>
    generalize ho : Op.native k.api args = o at hstep
    cases hstep with
    | run =>
      obtain rfl := Kind.api_injective (Op.native.inj ho).1
      exact ⟨⟨fn, rfl⟩, by simp [hh.1]⟩
    | inert hi =>
      subst ho
      cases hi
    | _ => cases ho
  | trampoline => cases hstep
  | plain =>
    cases hstep with
    | inert hi => cases hi
    | native h1 h2 =>
      cases k with
      | ftw => exact absurd rfl h1
      | nftw => exact absurd rfl h2

/-- A trampoline runs for the walk below it, whose context its pointer names. -/
theorem Stacked.walk_of_trampoline {π : Platform} {l : Local} {id : Nat} {act : Activation}
    {rest : Code Word} {below : List Frame} {k : Kind}
    (h : Stacked s active (.code id act rest :: below))
    (hsound : StackSound (system π) l (.code id act rest :: below))
    (hr : act.entry.role = .trampoline k) :
    ∃ args heard since id' act' next below' fn,
      below = .outside (.native k.api args) heard since ::
        .code id' act' (.perform (.native k.api args) next) :: below' ∧
      act'.entry.role = .walk k fn ∧ act.start.active k = act'.base := by
  obtain ⟨-, ⟨f, tail, rfl, hperm⟩, hsound⟩ := hsound
  cases h with
  | code hst hk hh hn hb =>
    cases f with
    | code => exact hperm.elim
    | outside g heard since =>
      obtain ⟨args, rfl⟩ := native_of_permits hr hperm
      have invoked : ∀ (g' : Party) (heard : List Word) (since : Local),
          ¬ Awaits (system π) (.native k.api args) (.outside g' heard since : Frame) := by
        intro g' heard since hi
        simp only [Awaits, system] at hi
        unfold Party.invokes at hi
        split at hi <;> simp_all
      obtain ⟨hw, -⟩ := hsound
      cases hst with
      | outside hst =>
        cases hst with
        | main => exact absurd (hw _ rfl) (invoked _ _ _)
        | outside => exact absurd (hw _ rfl) (invoked _ _ _)
        | @code _ ph' id' act' rest' below' _ hk' hh' hn' =>
          have hawaits := hw _ rfl
          cases rest' with
          | done v => exact hawaits.elim
          | perform o next =>
            have ho : o = .native k.api args := by
              cases o <;> simp [Awaits, system, Op.party] at hawaits
              rw [hawaits.1, hawaits.2]
            subst ho
            obtain ⟨⟨fn, hr'⟩, ha⟩ := hh'.linked hk'
            exact ⟨args, heard, since, id', act', next, below', fn, rfl, hr', ha⟩

/-- A trampoline runs for the innermost running walk of its kind. -/
theorem Stacked.openWalks_of_trampoline {π : Platform} {l : Local} {id : Nat} {act : Activation}
    {rest : Code Word} {below : List Frame} {k : Kind}
    (h : Stacked s active (.code id act rest :: below))
    (hsound : StackSound (system π) l (.code id act rest :: below))
    (hr : act.entry.role = .trampoline k) : openWalks k below ≠ [] := by
  obtain ⟨args, heard, since, id', act', next, below', fn, rfl, hr', -⟩ :=
    h.walk_of_trampoline hsound hr
  have hw := Call.walk_of_role.mp hr'
  cases h with
  | code hst =>
    cases hst with
    | outside hst =>
      cases hst with
      | code _ hk hh hn =>
        have hparty : (system π).party (.native k.api args) = some (.native k.api args) := rfl
        have hopen := openWalk_of_awaits hk hn hparty k
        simp [openWalks, hopen, nativeWalk, hw]

/-- A walk's own context is in scope in every phase. -/
theorem Holds.own {under : Kind → Word} {b : Word} {k : Kind} {fn : Word} {ph : Phase}
    (hh : Holds s active under b (.walk k fn) ph) : b ≠ NULL ∧ ∃ c, s.context k b = some c := by
  have hs : b ≠ NULL ∧ ∃ f q, s.shape b = some (k, f, q) := by
    cases ph with
    | entered => exact hh.2
    | named | cleared =>
      obtain ⟨-, hb, q, hq⟩ := hh
      exact ⟨hb, fn, q, hq⟩
    | found p =>
      obtain ⟨-, hb, -, q, hq⟩ := hh
      exact ⟨hb, fn, q, hq⟩
    | saved | linked | unlinked => exact ⟨hh.2.1, fn, _, hh.2.2⟩
    | restoring p => exact ⟨hh.2.1, fn, _, hh.2.2.2⟩
    | _ => exact hh.elim
  obtain ⟨hb, f, q, hq⟩ := hs
  obtain ⟨c, hc, -⟩ := context_of_shape hq
  exact ⟨hb, c, hc⟩

/-- A call reads and writes its own context, or the one its pointer names. -/
theorem Holds.context {under : Kind → Word} {b v : Word} {r : Role} {ph ph' : Phase} {o : Op}
    {k : Kind} {p : Word} (hh : Holds s active under b r ph) (hs : r.Step b ph o v ph')
    (ho : o.context = some (k, p)) :
    (∃ fn, r = .walk k fn ∧ p = b ∧ p ≠ NULL ∧ ∃ c, s.context k p = some c) ∨
      (r = .trampoline k ∧ p = under k) := by
  cases r with
  | walk k' fn =>
    obtain ⟨hb, hc⟩ := hh.own
    cases hs with
    | inert hi => exact absurd ((inert_context hi).symm.trans ho) (by simp)
    | name | clear | save | fetch | check =>
      cases ho
      exact .inl ⟨fn, rfl, rfl, hb, hc⟩
    | _ => cases ho
  | trampoline k' =>
    cases hs with
    | fetch | mark =>
      cases ho
      exact .inr ⟨rfl, hh.2⟩
    | _ => cases ho
  | plain =>
    cases hs with
    | inert hi => exact absurd ((inert_context hi).symm.trans ho) (by simp)
    | native => cases ho

/-- A chain that is not empty starts at a context in scope. -/
theorem Chain.head {k : Kind} {p : Word} {ws : List (Word × Word)} (h : Chain s k p ws)
    (hne : ws ≠ []) : p ≠ NULL ∧ (∃ c, s.context k p = some c) ∧ p ∈ ws.map Prod.fst := by
  cases h with
  | nil => exact absurd rfl hne
  | cons hp hc _ => exact ⟨hp, ⟨_, hc⟩, by simp⟩

theorem Stacked.walksHold {π : Platform} {th : Thread} (h : Stacked s th.loc.active th.stack)
    (hsound : StackSound (system π) th.loc th.stack) : WalksHold s th where
  chain := h.chain
  once := h.once
  running := by
    intro htop k
    have hr := h.running hsound k
    generalize th.stack = stack at h hr htop ⊢
    cases h with
    | main | outside => exact hr.symm
    | @code _ ph id act rest below =>
      have hw := htop _ _ _ _ rfl
      rw [hr]
      simp [openWalks, openWalk, hw, waiting]
  defined := by
    intro id act o next below k p hstack ho
    rw [hstack] at h hsound ⊢
    have hall := h
    cases h with
    | code hst hk hh hn hb =>
      obtain ⟨ph', hstep, -⟩ := hk 0
      rcases hh.context hstep ho with ⟨fn, hr, hp, hne, hc⟩ | ⟨hr, hp⟩
      · have hw := Call.walk_of_role.mp hr
        exact ⟨hne, hc, .inl ⟨by simp [hw], hp⟩⟩
      · obtain ⟨hne, hc, hmem⟩ := (hst.chain k).head (hall.openWalks_of_trampoline hsound hr)
        rw [hp]
        refine ⟨hne, hc, .inr ?_⟩
        rw [openWalks, List.map_append]
        exact List.mem_append_right _ hmem
  restored := by
    intro id act v below hstack
    rw [hstack] at h
    cases h with
    | code hst hk hh hn hb => exact hh.final hk
  quiet := by
    intro k hnil
    have hchain := h.chain k
    rw [hnil] at hchain
    generalize th.loc.active k = p at hchain ⊢
    cases hchain
    rfl

/-! ## All threads -/

structure Stacks (cfg : Config) : Prop where
  stacked : ∀ t, Stacked cfg.shared (cfg.threads t).loc.active (cfg.threads t).stack
  apart : ∀ t u, t ≠ u → ∀ p ∈ contexts (cfg.threads t).stack, p ∉ contexts (cfg.threads u).stack

theorem stacks_start (heap : Word → Word) : Stacks (startConfig heap) where
  stacked := fun _ => .main rfl
  apart := fun _ _ _ _ hp => absurd hp (by simp [startConfig, Effect.Config.init, contexts])

theorem Stacks.step {π : Platform} {cfg cfg' : Config} {t : Nat} {m : Move} (h : Stacks cfg)
    (hsound : Config.Accounted (system π) cfg) (hs : cfg.step (system π) t m = some cfg') :
    Stacks cfg' := by
  obtain ⟨s, th, i, hst, rfl⟩ := Config.stepped hs
  obtain ⟨hnew, hkept⟩ := stepped_stacked hst (hsound.sound t) (h.stacked t)
  -- A context of another thread is in scope, so it is not the new one of this thread.
  have apart : ∀ u, u ≠ t → ∀ p ∈ contexts th.stack, p ∉ contexts (cfg.threads u).stack := by
    intro u hu p hp hpu
    rcases hkept.fresh p hp with hold | hnone
    · exact h.apart t u (Ne.symm hu) p hold hpu
    · exact (h.stacked u).inScope hpu hnone
  constructor
  · intro u
    by_cases hu : u = t
    · subst hu
      simpa using hnew
    · simp only [Function.update_of_ne hu]
      refine (h.stacked u).transport fun p hp => hkept.others p ?_ ((h.stacked u).inScope hp)
      exact h.apart u t hu p hp
  · intro u v huv p hp
    by_cases hu : u = t
    · subst hu
      simp only [Function.update_self, Function.update_of_ne (Ne.symm huv)] at hp ⊢
      exact apart v (Ne.symm huv) p hp
    · by_cases hv : v = t
      · subst hv
        simp only [Function.update_self, Function.update_of_ne hu] at hp ⊢
        exact fun hpv => apart u hu p hpv hp
      · simp only [Function.update_of_ne hu, Function.update_of_ne hv] at hp ⊢
        exact h.apart u v huv p hp

theorem stacks_of_reach {π : Platform} {legal : Config → Nat → Move → Prop} {heap : Word → Word}
    {cfg : Config} (h : Effect.Config.Reach (system π) legal (startConfig heap) cfg) :
    Stacks cfg := by
  induction h with
  | init => exact stacks_start heap
  | step hr _ hs ih => exact ih.step hr.accounted hs

/-- The walk contexts of every thread in every reachable state. -/
theorem walk_contexts {π : Platform} {legal : Config → Nat → Move → Prop} {heap : Word → Word}
    {cfg : Config} (h : Effect.Config.Reach (system π) legal (startConfig heap) cfg) (t : Nat) :
    WalksHold cfg.shared (cfg.threads t) :=
  ((stacks_of_reach h).stacked t).walksHold (h.accounted.sound t)

/-- The moves of thread `t` up to the native walk of `c`, with its context at `b`. -/
def opening (t : Nat) (c : Call) (b : Word) : List (Nat × Move) :=
  (t, .call c b ⟨0, 0, []⟩) :: List.replicate 8 (t, .op ⟨0, 0, []⟩) ++ [(t, .hand)]

/-- Two threads walk at once, and the first starts another ftw from its callback. -/
def twoThreads : List (Nat × Move) :=
  opening 0 (.ftw 1 7 5) 100 ++ opening 1 (.ftw 2 8 5) 200 ++
    [(0, .call (.callFtwCallback 3 4 0) 110 ⟨0, 0, []⟩), (0, .op ⟨0, 0, []⟩),
      (0, .op ⟨0, 0, []⟩), (0, .hand)] ++ opening 0 (.ftw 5 9 5) 120

theorem walk_contexts_two_threads :
    ∃ cfg, (startConfig fun _ => 0).run (system linux) (fun _ _ _ => True) twoThreads = some cfg ∧
      openWalks .ftw (cfg.threads 0).stack = [(120, 9), (100, 7)] ∧
      openWalks .ftw (cfg.threads 1).stack = [(200, 8)] ∧
      WalksHold cfg.shared (cfg.threads 0) ∧ WalksHold cfg.shared (cfg.threads 1) := by
  have hrun : ((startConfig fun _ => 0).run (system linux) (fun _ _ _ => True) twoThreads).map
      (fun cfg => (openWalks .ftw (cfg.threads 0).stack, openWalks .ftw (cfg.threads 1).stack)) =
      some ([(120, 9), (100, 7)], [(200, 8)]) := by decide
  obtain ⟨cfg, hcfg, hopen⟩ := Option.map_eq_some_iff.mp hrun
  obtain ⟨h0, h1⟩ := Prod.mk.inj hopen
  have hreach := Effect.Config.Reach.of_run .init hcfg
  exact ⟨cfg, hcfg, h0, h1, walk_contexts hreach 0, walk_contexts hreach 1⟩

end P101Filesystem
