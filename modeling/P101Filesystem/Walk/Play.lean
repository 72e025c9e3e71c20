import P101Filesystem.Walk.Nest

/-!
# The library's answer to each move

One theorem for each kind of move a party can make while walks are open: starting a walk,
visiting an entry, answering a visit and ending a walk. Each gives the next settled state,
its levels and what was added to the log.
-/
namespace P101Filesystem

open Effect

/-- A halted thread: its nest, and no context in scope but those of its open walks. -/
structure Standing (π : Platform) (σ : Solo) (bs : List Word) (levels : List Level) : Prop where
  nest : Nest π σ.shared σ.thread.stack σ.thread.loc.active bs levels
  inScope : ∀ p, σ.shared.cells p ≠ none → p ∈ bs

theorem standing_start (π : Platform) (heap : Word → Word) : Standing π (startSolo heap) [] [] where
  nest := .main
  inScope := fun _ hp => absurd rfl hp

/-- A party that may start walks hears something, and no open walk's context has changed. -/
theorem Standing.hear {π : Platform} {σ : Solo} {bs : List Word} {levels : List Level} {g : Party}
    {heard : List Word} {since : Local} {below : List Frame} {w : WalkCall} {s : Shared} {l : Local}
    {log : List Item} (h : Standing π σ bs levels)
    (hs : σ.thread.stack = .outside g heard since :: below) (hp : g.permits w.call = true)
    (hcells : ∀ p, s.cells p = σ.shared.cells p) (hl : l.active = σ.thread.loc.active)
    (heard' : List Word) :
    Standing π ⟨s, ⟨l, .outside g heard' since :: below⟩, log⟩ bs levels := by
  have hn := h.nest
  rw [hs, ← hl] at hn
  constructor
  · exact (hn.frame fun p _ => hcells p).hear hp _ _
  · intro p hne
    rw [hcells p] at hne
    exact h.inScope p hne

/-- What a refused walk raises: the injected code, or EINVAL for its arguments. -/
inductive Refused (π : Platform) (answer : Solo → Answer) (w : WalkCall) : Word → Word → Prop
  | faulted {σ} : (answer σ).word ≠ 0 → Refused π answer w (answer σ).word (answer σ).word
  | rejected : w.Rejected → Refused π answer w 0 π.einval

variable {π : Platform} (answer : Solo → Answer) {σ : Solo} {bs : List Word} {levels : List Level}

theorem Standing.party (h : Standing π σ bs levels) : σ.thread.party = some (partyOf levels) := by
  obtain ⟨heard, since, below, hs⟩ := h.nest.head
  simp [Thread.party, hs]

/-- A walk either returns at once or opens a level. -/
theorem play_start {w : WalkCall} {base : Word} (a : Answer) (h : Standing π σ bs levels)
    (hp : (partyOf levels).permits w.call = true) (hb : base ≠ NULL)
    (hc : σ.shared.cells base = none) :
    ∃ σ', σ.play (system π) answer (.call w.call base a) = some σ' ∧
      ((∃ es c code l₀, Refused π answer w c code ∧ Stretch es [(w.kind.api, c)] [code] ∧
          Standing π σ' bs levels ∧ σ'.thread.heard = σ.thread.heard ++ [-1] ∧
          nativeHeard σ'.thread.stack = nativeHeard σ.thread.stack ∧
          σ'.log = σ.log ++ [.call σ.log.length w.call base] ++ es.map (.event σ.log.length) ++
            [.exit σ.log.length ⟨w.call, base, l₀, es⟩ (-1)]) ∨
        ∃ es, ¬ w.Rejected ∧ Stretch es [(w.kind.api, 0)] [] ∧
          Standing π σ' (base :: bs) (.walk w :: levels) ∧ σ'.thread.heard = [] ∧
          nativeHeard σ'.thread.stack = [] :: nativeHeard σ.thread.stack ∧
          σ'.log = σ.log ++ [.call σ.log.length w.call base] ++ es.map (.event σ.log.length) ++
            [.hand σ.log.length (.native w.kind.api w.args)]) := by
  obtain ⟨heard, since, below, hs⟩ := h.nest.head
  have henter : (system π).enter w.call base a ((system π).disturb a σ.shared σ.thread.loc).1 =
      some ((σ.shared.write a.writes).put base (some ⟨w.kind, a.word, a.word, a.word⟩)) := by
    simp [system, enterFrame, disturb, hb, hc]
  have hfresh : base ∉ bs := fun hm => h.nest.inScope hm hc
  have hw := wp_walk π (Solo.given answer) w.kind w.path w.fn w.limit w.args base
    ((σ.shared.write a.writes).put base (some ⟨w.kind, a.word, a.word, a.word⟩))
    ⟨a.errno, σ.thread.loc.active⟩ (c := ⟨w.kind, a.word, a.word, a.word⟩) (by simp)
  rw [← w.call_code] at hw
  obtain ⟨halt, s', l', es, hq, hplay⟩ := Solo.play_call answer σ hs hp henter hw
  rw [hplay, hs]
  -- A walk that returns at once leaves its frame, and with it the only context it had.
  have hleave : ∀ p, (leaveFrame w.call base ((σ.shared.write a.writes).put base
      (some ⟨w.kind, a.word, a.word, a.word⟩))).cells p = σ.shared.cells p := by
    intro p
    by_cases hpb : p = base
    · simp [leaveFrame, hpb, hc]
    · simp [leaveFrame, hpb]
  have hheard : σ.thread.heard = heard := by simp [Thread.heard, hs]
  have hnatives : ∀ heard', nativeHeard (.outside (partyOf levels) heard' since :: below) =
      nativeHeard (.outside (partyOf levels) heard since :: below) := fun heard' =>
    (nativeHeard_of_permits hp).trans (nativeHeard_of_permits hp).symm
  cases hq with
  | faulted ha hne hst =>
    obtain ⟨σ₀, rfl⟩ := ha
    refine ⟨_, Solo.halted_returns ..,
      .inl ⟨es, _, _, ⟨a.errno, σ.thread.loc.active⟩, .faulted hne, hst,
      h.hear hs hp hleave (by rfl) _, ?_, hnatives _, ?_⟩⟩
    · rw [hheard]
      rfl
    · simp [Activation.pushAll, system, disturb]
  | rejected hr hst =>
    refine ⟨_, Solo.halted_returns ..,
      .inl ⟨es, _, _, ⟨a.errno, σ.thread.loc.active⟩, .rejected hr, hst,
      h.hear hs hp hleave (by rfl) _, ?_, hnatives _, ?_⟩⟩
    · rw [hheard]
      rfl
    · simp [Activation.pushAll, system, disturb]
  | running hr hst =>
    refine ⟨_, rfl, .inr ⟨es, hr, hst, ⟨?_, ?_⟩, rfl, rfl, by simp⟩⟩
    · have hn := h.nest
      rw [hs] at hn
      have hbelow : Nest π (((σ.shared.write a.writes).put base
          (some ⟨w.kind, a.word, a.word, a.word⟩)).put base
          (some ⟨w.kind, w.fn, 0, σ.thread.loc.active w.kind⟩))
          (.outside (partyOf levels) heard since :: below) σ.thread.loc.active bs levels := by
        refine hn.frame fun p hm => ?_
        have hpb : p ≠ base := fun hpb => hfresh (hpb ▸ hm)
        simp [hpb]
      have hcell : (((σ.shared.write a.writes).put base
          (some ⟨w.kind, a.word, a.word, a.word⟩)).put base
          (some ⟨w.kind, w.fn, 0, σ.thread.loc.active w.kind⟩)).cells base =
            some ⟨w.kind, w.fn, 0, σ.thread.loc.active w.kind⟩ := by
        simp
      exact .walk hbelow rfl hp rfl hr hst hfresh hcell (by simp)
    · intro p hne
      by_cases hpb : p = base
      · simp [hpb]
      · have hm := h.inScope p (by simpa [hpb] using hne)
        exact List.mem_cons_of_mem _ hm

/-- Visiting an entry calls the callback of the walk that visits it. -/
theorem play_visit {w : WalkCall} (v : Visit) (base : Word) (a : Answer)
    (h : Standing π σ bs (.walk w :: levels)) :
    ∃ σ', σ.play (system π) answer (.call (v.call w.kind) base a) = some σ' ∧
      Standing π σ' bs (.callback w.fn (v.args w.kind) :: .walk w :: levels) ∧
      σ'.thread.heard = [] ∧ nativeHeard σ'.thread.stack = nativeHeard σ.thread.stack ∧
      ∃ es, Stretch es [] [] ∧
        σ'.log = σ.log ++ [.call σ.log.length (v.call w.kind) base] ++
          es.map (.event σ.log.length) ++
            [.hand σ.log.length (.callback w.fn (v.args w.kind))] := by
  have hn := h.nest
  generalize hs : σ.thread.stack = stack at hn
  generalize hl : σ.thread.loc.active = active at hn
  have hnest := hn
  cases hn with
  | @walk _ g heard₀ since₀ below active₀ _ bs₀ _ id act heard since stopped hbelow ha hp he hr hst
      hb hc =>
    have hctx : (σ.shared.write a.writes).context w.kind (active w.kind) =
        some ⟨w.kind, w.fn, stopped, active₀ w.kind⟩ := by
      rw [ha]
      simp [Shared.context_eq_some, hc]
    have hw := wp_trampoline π (Solo.given answer) w.kind (v.args w.kind) (σ.shared.write a.writes)
      ⟨a.errno, active⟩ hctx
    rw [← v.call_code w.kind π base, ← hl] at hw
    obtain ⟨halt, s', l', es, ⟨rfl, rfl, rfl, hes⟩, hplay⟩ := Solo.play_call answer σ hs
      (v.native_permits w.kind w.args) (by simp [system, enterFrame, disturb]) hw
    rw [hs, hl] at hplay
    refine ⟨_, hplay, ⟨?_, h.inScope⟩, rfl, rfl, es, hes, by simp⟩
    exact .callback (hnest.frame fun p _ => rfl) rfl

/-- The trampoline passes a callback's answer on, and marks its walk if it is nonzero. -/
theorem play_answer {w : WalkCall} {fn : Word} {args : List Word} (v : Word) (a : Answer)
    (h : Standing π σ bs (.callback fn args :: .walk w :: levels)) :
    ∃ σ', σ.play (system π) answer (.back v a) = some σ' ∧
      Standing π σ' bs (.walk w :: levels) ∧
      (∃ heard rest, nativeHeard σ.thread.stack = heard :: rest ∧
        nativeHeard σ'.thread.stack = (heard ++ [v]) :: rest ∧ σ'.thread.heard = heard ++ [v]) ∧
      ∃ id e es act, e.op = .callback fn args ∧ e.answer = v ∧ Stretch es [] [] ∧
        act.entry.walk = none ∧
        σ'.log = σ.log ++ [.event id e] ++ es.map (.event id) ++ [.exit id act v] := by
  have hn := h.nest
  generalize hs : σ.thread.stack = stack at hn
  generalize hl : σ.thread.loc.active = active at hn
  cases hn with
  | @callback _ v₀ g heard since below _ _ _ id act heardU sinceU hnative he =>
    cases hnative with
    | @walk _ g₀ heard₀ since₀ below₀ active₀ _ bs₀ _ id₀ act₀ _ _ stopped hbelow ha hp he₀ hr hst hb
        hc hstop =>
      have hself : active w.kind = act₀.base := by rw [ha, Function.update_self]
      have hctx : (σ.shared.write a.writes).context w.kind act₀.base =
          some ⟨w.kind, w.fn, stopped, active₀ w.kind⟩ := by
        simp [Shared.context_eq_some, hc]
      have hw := wp_trampolineTail π (Solo.given answer) w.kind act₀.base v
        (σ.shared.write a.writes) ⟨a.errno, σ.thread.loc.active⟩ hctx
      rw [hself] at hs
      obtain ⟨halt, s', l', es, ⟨rfl, rfl, rfl, hes⟩, hplay⟩ := Solo.play_back answer σ hs hw
      have hleave : act.entry.walk = none := by rw [he, Visit.call_walk]
      obtain ⟨e, hev⟩ : ∃ e : Event, e = ⟨.callback w.fn (v₀.args w.kind), heardU, v, sinceU,
        ⟨a.errno, σ.thread.loc.active⟩⟩ := ⟨_, rfl⟩
      have hmem : (system π).leave act.entry act.base ((σ.shared.write a.writes).put act₀.base
          (some (Context.answered ⟨w.kind, w.fn, stopped, active₀ w.kind⟩ v))) =
          (σ.shared.write a.writes).put act₀.base
            (some ⟨w.kind, w.fn, if v = 0 then stopped else 1, active₀ w.kind⟩) := by
        by_cases hv : v = 0 <;> simp [system, leaveFrame, hleave, Context.answered, hv]
      have hnext : σ.play (system π) answer (.back v a) = some
          ⟨(σ.shared.write a.writes).put act₀.base
            (some ⟨w.kind, w.fn, if v = 0 then stopped else 1, active₀ w.kind⟩),
          ⟨⟨a.errno, σ.thread.loc.active⟩,
            .outside (.native w.kind.api w.args) (heard ++ [v]) since ::
            .code id₀ act₀ (.perform (.native w.kind.api w.args) (walkTail π w.kind act₀.base)) ::
            .outside g₀ heard₀ since₀ :: below₀⟩,
          σ.log ++ [.event id e] ++ es.map (.event id) ++
            [.exit id ((act.push e).pushAll es) v]⟩ := by
        rw [hplay, Solo.halted_returns, Activation.push_entry, Activation.push_base, hmem, hev]
        simp [system, disturb]
      refine ⟨_, hnext, ⟨?_, ?_⟩, ⟨heard, _, rfl, rfl, rfl⟩, id, e, es,
        (act.push e).pushAll es, by rw [hev], by rw [hev], hes, hleave, rfl⟩
      · have hb' : Nest π ((σ.shared.write a.writes).put act₀.base
            (some ⟨w.kind, w.fn, if v = 0 then stopped else 1, active₀ w.kind⟩))
            (.outside g₀ heard₀ since₀ :: below₀) active₀ bs₀ levels := by
          refine hbelow.frame fun p hm => ?_
          have hne : p ≠ act₀.base := fun hpa => hb (hpa ▸ hm)
          simp [hne]
        rw [hl]
        refine .walk hb' ha hp he₀ hr hst hb (Function.update_self ..) ?_
        by_cases hv : v = 0
        · simp [hv, hstop, or_imp]
        · rw [if_neg hv]
          constructor
          · intro h1
            cases h1
          · intro hall
            exact absurd (hall v (by simp)) hv
      · intro p hne
        by_cases hpa : p = act₀.base
        · simp [hpa]
        · exact h.inScope p (by simpa [hpa] using hne)

/-- A native walk that heard `heard`, returned `v` and left `e` has failed on its own if no
callback stopped it; an unset errno is reported as EIO. -/
def ownFailure (π : Platform) (heard : List Word) (v e : Word) : List Word :=
  if v = -1 ∧ ∀ r ∈ heard, r = 0 then [if e = 0 then π.eio else e] else []

/-- A walk that ends puts the pointer of its kind back, and raises if it failed on its own. -/
theorem play_finish {w : WalkCall} (v : Word) (a : Answer)
    (h : Standing π σ bs (.walk w :: levels)) :
    ∃ σ' bs', σ.play (system π) answer (.back v a) = some σ' ∧ Standing π σ' bs' levels ∧
      nativeHeard σ.thread.stack = σ.thread.heard :: nativeHeard σ'.thread.stack ∧
      (∃ heard, σ'.thread.heard = heard ++ [v]) ∧
      ∃ id e past es act, e.op = .native w.kind.api w.args ∧ e.heard = σ.thread.heard ∧
        e.answer = v ∧ e.after.errno = a.errno ∧ Stretch past [(w.kind.api, 0)] [] ∧
        Stretch es [] (ownFailure π σ.thread.heard v a.errno) ∧
        ¬ w.Rejected ∧ act.entry = w.call ∧ act.past = past ++ e :: es ∧
        σ'.log = σ.log ++ [.event id e] ++ es.map (.event id) ++ [.exit id act v] := by
  have hn := h.nest
  generalize hs : σ.thread.stack = stack at hn
  generalize hl : σ.thread.loc.active = active at hn
  cases hn with
  | @walk _ g heard₀ since₀ below active₀ _ bs₀ _ id act heard since stopped hbelow ha hp he hr hst
      hb hc hstop =>
    have hctx : (σ.shared.write a.writes).context w.kind act.base =
        some ⟨w.kind, w.fn, stopped, active₀ w.kind⟩ := by
      simp [Shared.context_eq_some, hc]
    have hw := wp_walkTail π (Solo.given answer) w.kind act.base v (σ.shared.write a.writes)
      ⟨a.errno, σ.thread.loc.active⟩ hctx
    obtain ⟨halt, s', l', es, ⟨rfl, rfl, hl', hes⟩, hplay⟩ := Solo.play_back answer σ hs hw
    obtain ⟨e, hev⟩ : ∃ e : Event, e = ⟨.native w.kind.api w.args, heard, v, since,
      ⟨a.errno, σ.thread.loc.active⟩⟩ := ⟨_, rfl⟩
    have hnext : σ.play (system π) answer (.back v a) =
        some ⟨(σ.shared.write a.writes).put act.base none,
          ⟨l', .outside g (heard₀ ++ [v]) since₀ :: below⟩,
          σ.log ++ [.event id e] ++ es.map (.event id) ++
            [.exit id ((act.push e).pushAll es) v]⟩ := by
      rw [hplay, Solo.halted_returns, hev]
      simp [system, disturb, leaveFrame, he]
    have hheard : σ.thread.heard = heard := by simp [Thread.heard, hs]
    have hraise : walkRaises π v stopped a.errno = ownFailure π σ.thread.heard v a.errno := by
      simp only [walkRaises, ownFailure, hheard, hstop]
    have hback : l'.active = active₀ := by
      rw [hl', hl, ha]
      simp
    have hnatives : nativeHeard σ.thread.stack = σ.thread.heard ::
        nativeHeard (.outside g (heard₀ ++ [v]) since₀ :: below) := by
      have hopened : nativeHeard σ.thread.stack =
          heard :: nativeHeard (.outside g heard₀ since₀ :: below) := by
        rw [hs]
        rfl
      rw [hopened, hheard, nativeHeard_of_permits hp, nativeHeard_of_permits hp]
    refine ⟨_, bs₀, hnext, ⟨?_, ?_⟩, hs ▸ hnatives, ⟨heard₀, rfl⟩, id, e, act.past, es,
      (act.push e).pushAll es, by rw [hev], by rw [hev, hheard], by rw [hev], by rw [hev], hst,
      hraise ▸ hes, hr, he, by simp, rfl⟩
    · rw [hback]
      have hb' := hbelow.hear hp (heard₀ ++ [v]) since₀
      refine hb'.frame fun p hm => ?_
      have hne : p ≠ act.base := fun hpa => hb (hpa ▸ hm)
      simp [hne]
    · intro p hne
      by_cases hpa : p = act.base
      · simp [hpa] at hne
      · have hm := h.inScope p (by simpa [hpa] using hne)
        exact (List.mem_cons.mp hm).resolve_left hpa

end P101Filesystem
