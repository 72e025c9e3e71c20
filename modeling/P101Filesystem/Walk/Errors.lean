import P101Filesystem.Walk.Play

/-!
# Which walk raises what

The native walks obey POSIX: they stop at the first nonzero callback result and return it.
A -1 is then either such a result or a failure of the walk itself, and the stopped flag of
the walk's own context tells which.
-/
namespace P101Filesystem

open Effect

/-- What a native walk may return after the callback results `heard`. -/
def Contract (heard : List Word) (v e : Word) : Prop :=
  match heard.find? (· ≠ 0) with
  | some r => v = r
  | none => v = 0 ∨ (v = -1 ∧ 0 ≤ e)

instance (heard : List Word) (v e : Word) : Decidable (Contract heard v e) := by
  unfold Contract
  split <;> infer_instance

/-- Runs of walks only, with native walks that obey POSIX: they go on while no callback has
stopped them. -/
def posix (σ : Solo) : Move → Prop
  | .call c _ _ =>
    match σ.thread.party with
    | some (.native _ _) => ∀ r ∈ σ.thread.heard, r = 0
    | _ => c.walk.isSome = true
  | .back v a =>
    match σ.thread.party with
    | some (.native _ _) => Contract σ.thread.heard v a.errno
    | _ => True
  | _ => False

instance (σ : Solo) (m : Move) : Decidable (posix σ m) :=
  match m with
  | .call c _ _ => by
    dsimp only [posix]
    split <;> infer_instance
  | .back v a => by
    dsimp only [posix]
    split <;> infer_instance
  | .invoke .. | .act .. | .op _ | .hand | .exit => instDecidableFalse

/-- Moreover, a callback returns nonzero as soon as a walk it started did. -/
def obedient (σ : Solo) (m : Move) : Prop :=
  posix σ m ∧
    match σ.thread.party, σ.thread.heard.getLast?, m with
    | some (.user _ _), some r, .back v _ => r ≠ 0 → v ≠ 0
    | some (.user _ _), some r, _ => r = 0
    | _, _, _ => True

instance (σ : Solo) (m : Move) : Decidable (obedient σ m) := by
  unfold obedient
  refine @instDecidableAnd _ _ inferInstance ?_
  match σ.thread.party, σ.thread.heard.getLast?, m with
  | some (.user _ _), some r, .back v _ => exact inferInstanceAs (Decidable (r ≠ 0 → v ≠ 0))
  | some (.user _ _), some r, .call .. | some (.user _ _), some r, .invoke ..
  | some (.user _ _), some r, .act .. | some (.user _ _), some r, .op _
  | some (.user _ _), some r, .hand | some (.user _ _), some r, .exit =>
    exact inferInstanceAs (Decidable (r = 0))
  | none, _, _ | some .main, _, _ | some (.native _ _), _, _ | some (.user _ _), none, _ =>
    exact instDecidableTrue

/-! ## The four kinds of turn -/

/-- What one move and the library's answer to it add to a run. -/
inductive Turn (π : Platform) (answer : Solo → Answer) (σ : Solo) :
    List Level → Move → Solo → List Level → Prop
  | refused {levels w base a σ' es c code l₀} : Refused π answer w c code →
      Stretch es [(w.kind.api, c)] [code] → σ'.thread.heard = σ.thread.heard ++ [-1] →
      σ'.log = σ.log ++ [.call σ.log.length w.call base] ++ es.map (.event σ.log.length) ++
        [.exit σ.log.length ⟨w.call, base, l₀, es⟩ (-1)] →
      (∀ u ∈ levels.head?, ∃ fn args, u = .callback fn args) →
      Turn π answer σ levels (.call w.call base a) σ' levels
  | opened {levels w base a σ' es} : Stretch es [(w.kind.api, 0)] [] → σ'.thread.heard = [] →
      σ'.log = σ.log ++ [.call σ.log.length w.call base] ++ es.map (.event σ.log.length) ++
        [.hand σ.log.length (.native w.kind.api w.args)] →
      (∀ u ∈ levels.head?, ∃ fn args, u = .callback fn args) →
      Turn π answer σ levels (.call w.call base a) σ' (.walk w :: levels)
  | visited {levels w base a σ' es v} : (∀ r ∈ σ.thread.heard, r = 0) → Stretch es [] [] →
      σ'.thread.heard = [] →
      σ'.log = σ.log ++ [.call σ.log.length (Visit.call v w.kind) base] ++
        es.map (.event σ.log.length) ++ [.hand σ.log.length (.callback w.fn (v.args w.kind))] →
      Turn π answer σ (.walk w :: levels) (.call (v.call w.kind) base a) σ'
        (.callback w.fn (v.args w.kind) :: .walk w :: levels)
  | answered {levels w fn args a σ' es id e act heard v} : e.op = .callback fn args →
      Stretch es [] [] → act.entry.walk = none → σ'.thread.heard = heard ++ [v] →
      σ'.log = σ.log ++ [.event id e] ++ es.map (.event id) ++ [.exit id act v] →
      Turn π answer σ (.callback fn args :: .walk w :: levels) (.back v a) σ' (.walk w :: levels)
  | finished {levels w a σ' es id e past act heard v} : Contract σ.thread.heard v a.errno →
      e.op = .native w.kind.api w.args → e.heard = σ.thread.heard → e.answer = v →
      e.after.errno = a.errno → Stretch past [(w.kind.api, 0)] [] →
      Stretch es [] (ownFailure π σ.thread.heard v a.errno) → ¬ w.Rejected →
      act.entry = w.call → act.past = past ++ e :: es → σ'.thread.heard = heard ++ [v] →
      σ'.log = σ.log ++ [.event id e] ++ es.map (.event id) ++ [.exit id act v] →
      Turn π answer σ (.walk w :: levels) (.back v a) σ' levels

variable {π : Platform} {answer : Solo → Answer} {σ σ' : Solo} {bs : List Word}
  {levels : List Level} {m : Move}

/-- A call that goes through has been permitted and has found room for its frame. -/
theorem entered_of_play {c : Call} {base : Word} {a : Answer} {g : Party}
    (hg : σ.thread.party = some g) (h : σ.play (system π) answer (.call c base a) = some σ') :
    g.permits c = true ∧ ∃ s, enterFrame c base a (σ.shared.write a.writes) = some s := by
  obtain ⟨mid, hstep, -⟩ := Option.bind_eq_some_iff.mp h
  obtain ⟨s, th, i, hst, -⟩ := Solo.stepped hstep
  obtain ⟨shared, ⟨l, stack⟩, log⟩ := σ
  cases hst with
  | call hp he =>
    obtain rfl := Option.some.inj hg
    exact ⟨hp, _, he⟩

/-- Native walks are permitted visits only. -/
theorem visit_of_permits {k : Kind} {args : List Word} {c : Call}
    (h : (Party.native k.api args).permits c = true) : ∃ v : Visit, c = v.call k := by
  cases k with
  | ftw =>
    cases c with
    | callFtwCallback path status type => exact ⟨⟨path, status, type, 0⟩, rfl⟩
    | _ => cases h
  | nftw =>
    cases c with
    | callNftwCallback path status type walk => exact ⟨⟨path, status, type, walk⟩, rfl⟩
    | _ => cases h

theorem turn_of_call (hst : Standing π σ bs levels) {w : WalkCall} {base : Word} {a : Answer}
    (hl : ∀ u ∈ levels.head?, ∃ fn args, u = .callback fn args)
    (h : σ.play (system π) answer (.call w.call base a) = some σ') :
    ∃ bs' levels', Standing π σ' bs' levels' ∧
      Turn π answer σ levels (.call w.call base a) σ' levels' := by
  obtain ⟨hp, s, he⟩ := entered_of_play hst.party h
  have hroom : base ≠ NULL ∧ σ.shared.cells base = none := by
    by_contra hno
    simp only [enterFrame, WalkCall.call_walk, Shared.write_cells, Option.isNone_iff_eq_none] at he
    rw [if_neg hno] at he
    cases he
  obtain ⟨σ₁, hplay, hout⟩ := play_start answer a hst hp hroom.1 hroom.2
  obtain rfl := Option.some.inj (h.symm.trans hplay)
  rcases hout with ⟨es, c, code, l₀, hr, hes, hst', hheard, -, hlog⟩ |
    ⟨es, -, hes, hst', hheard, -, hlog⟩
  · exact ⟨_, _, hst', .refused hr hes hheard hlog hl⟩
  · exact ⟨_, _, hst', .opened hes hheard hlog hl⟩

/-- Every legal move is one of the four kinds. -/
theorem turn_of_play (hst : Standing π σ bs levels) (hm : posix σ m)
    (h : σ.play (system π) answer m = some σ') :
    ∃ bs' levels', Standing π σ' bs' levels' ∧ Turn π answer σ levels m σ' levels' := by
  have hparty := hst.party
  cases m with
  | call c base a =>
    cases levels with
    | nil =>
      have hw : c.walk.isSome = true := by simpa [posix, hparty, partyOf] using hm
      obtain ⟨⟨k, fn⟩, hc⟩ := Option.isSome_iff_exists.mp hw
      obtain ⟨w, rfl, -, -⟩ := Call.exists_walkCall hc
      exact turn_of_call hst (by simp) h
    | cons level levels =>
      cases level with
      | walk w =>
        have hheard : ∀ r ∈ σ.thread.heard, r = 0 := by simpa [posix, hparty, partyOf] using hm
        obtain ⟨hp, -⟩ := entered_of_play hparty h
        obtain ⟨v, rfl⟩ := visit_of_permits hp
        obtain ⟨σ₁, hplay, hst', hnil, -, es, hes, hlog⟩ := play_visit answer v base a hst
        obtain rfl := Option.some.inj (h.symm.trans hplay)
        exact ⟨_, _, hst', .visited hheard hes hnil hlog⟩
      | callback fn args =>
        have hw : c.walk.isSome = true := by simpa [posix, hparty, partyOf] using hm
        obtain ⟨⟨k, fn'⟩, hc⟩ := Option.isSome_iff_exists.mp hw
        obtain ⟨w, rfl, -, -⟩ := Call.exists_walkCall hc
        exact turn_of_call hst (by simp) h
  | back v a =>
    cases levels with
    | nil =>
      obtain ⟨heard, since, hs⟩ := hst.nest.main_alone
      simp [Solo.play, Solo.step, Thread.step, hs] at h
    | cons level levels =>
      cases level with
      | walk w =>
        have hv : Contract σ.thread.heard v a.errno := by
          simpa [posix, hparty, partyOf] using hm
        obtain ⟨σ₁, bs', hplay, hst', -, ⟨heard, hheard⟩, id, e, past, es, act, h1, h2, h3, h4, h5,
          h6, h7, h8, h9, h10⟩ := play_finish answer v a hst
        obtain rfl := Option.some.inj (h.symm.trans hplay)
        exact ⟨_, _, hst', .finished hv h1 h2 h3 h4 h5 h6 h7 h8 h9 hheard h10⟩
      | callback fn args =>
        obtain ⟨w, levels', rfl, -⟩ := hst.nest.walk_of_callback
        obtain ⟨σ₁, hplay, hst', ⟨heard, _, -, -, hheard⟩, id, e, es, act, h1, h2, h3, h4, h5⟩ :=
          play_answer answer v a hst
        obtain rfl := Option.some.inj (h.symm.trans hplay)
        exact ⟨_, _, hst', .answered h1 h3 h4 hheard h5⟩
  | invoke | act | op | hand | exit => exact hm.elim

/-! ## Each walk's own errors -/

/-- How a finished walk `w` that returned `v` ended, with the codes it should have raised. A
native walk that hears no nonzero result and returns -1 has failed on its own. -/
inductive Ended (π : Platform) (w : WalkCall) (past : List Event) : Word → List Word → Prop
  | faulted {c} : consulted past = [(w.kind.api, c)] → c ≠ 0 → natives past = [] →
      Ended π w past (-1) [c]
  | rejected : consulted past = [(w.kind.api, 0)] → w.Rejected → natives past = [] →
      Ended π w past (-1) [π.einval]
  | failed {e} : consulted past = [(w.kind.api, 0)] → ¬ w.Rejected →
      natives past = [(w.kind.api, w.args, e)] → e.answer = -1 → (∀ r ∈ e.heard, r = 0) →
      Ended π w past (-1) [if e.after.errno = 0 then π.eio else e.after.errno]
  | completed {e} : consulted past = [(w.kind.api, 0)] → ¬ w.Rejected →
      natives past = [(w.kind.api, w.args, e)] → e.answer = 0 → (∀ r ∈ e.heard, r = 0) →
      Ended π w past 0 []
  | stopped {e v} : consulted past = [(w.kind.api, 0)] → ¬ w.Rejected →
      natives past = [(w.kind.api, w.args, e)] → e.answer = v → v ∈ e.heard → v ≠ 0 →
      Ended π w past v []

/-- The walk raised what it should have, and no code is 0. -/
structure Attributed (π : Platform) (act : Activation) (v : Word) : Prop where
  ended : ∃ w codes, act.entry = w.call ∧ Ended π w act.past v codes ∧
    raised act.past = codes.map (fun code => (.errno, code)) ∧ ∀ code ∈ codes, code ≠ 0

theorem Contract.cases {heard : List Word} {v e : Word} (h : Contract heard v e) :
    (v ∈ heard ∧ v ≠ 0) ∨ ((∀ r ∈ heard, r = 0) ∧ (v = 0 ∨ v = -1)) := by
  unfold Contract at h
  split at h
  · next r hr =>
    have hne := List.find?_some hr
    rw [h]
    exact .inl ⟨List.mem_of_find?_eq_some hr, by simpa using hne⟩
  · next hnone =>
    rw [List.find?_eq_none] at hnone
    refine .inr ⟨fun r hm => by simpa using hnone r hm, ?_⟩
    rcases h with h | ⟨h, -⟩
    · exact .inl h
    · exact .inr h

theorem Refused.attributed {w : WalkCall} {c code base : Word} {l : Local} {es : List Event}
    (h : Refused π answer w c code) (hes : Stretch es [(w.kind.api, c)] [code]) :
    Attributed π ⟨w.call, base, l, es⟩ (-1) := by
  cases h with
  | faulted hne =>
    exact ⟨w, _, rfl, .faulted hes.consulted hne hes.natives, hes.raised, by simpa using hne⟩
  | rejected hr =>
    exact ⟨w, _, rfl, .rejected hes.consulted hr hes.natives, hes.raised,
      by simpa using π.einval_ne_zero⟩

/-- A native walk that obeys POSIX is told apart by the results it heard. -/
theorem Contract.attributed {w : WalkCall} {v errno : Word} {e : Event} {past es : List Event}
    {act : Activation} (h : Contract e.heard v errno) (hop : e.op = .native w.kind.api w.args)
    (ha : e.answer = v) (he : e.after.errno = errno) (hpast : Stretch past [(w.kind.api, 0)] [])
    (hes : Stretch es [] (ownFailure π e.heard v errno)) (hr : ¬ w.Rejected)
    (hentry : act.entry = w.call) (hact : act.past = past ++ e :: es) : Attributed π act v := by
  have hconsulted : consulted act.past = [(w.kind.api, 0)] := by
    rw [hact, consulted_append, consulted_cons, hpast.consulted, hes.consulted]
    simp [faultOf, hop]
  have hnatives : natives act.past = [(w.kind.api, w.args, e)] := by
    rw [hact, natives_append, natives_cons, hpast.natives, hes.natives]
    simp [nativeOf, hop]
  have hraised : raised act.past =
      (ownFailure π e.heard v errno).map fun code => (.errno, code) := by
    rw [hact, raised_append, raised_cons, hpast.raised, hes.raised]
    simp [raiseOf, hop]
  rcases h.cases with ⟨hm, hne⟩ | ⟨hall, rfl | rfl⟩
  · have hown : ownFailure π e.heard v errno = [] :=
      if_neg fun hf => hne (hf.2 v hm)
    rw [hown] at hraised
    exact ⟨w, [], hentry, .stopped hconsulted hr hnatives ha hm hne, hraised, by simp⟩
  · have hown : ownFailure π e.heard 0 errno = [] := if_neg (by simp)
    rw [hown] at hraised
    exact ⟨w, [], hentry, .completed hconsulted hr hnatives ha hall, hraised, by simp⟩
  · have hown : ownFailure π e.heard (-1) errno = [if errno = 0 then π.eio else errno] :=
      if_pos ⟨rfl, hall⟩
    rw [hown, ← he] at hraised
    refine ⟨w, _, hentry, .failed hconsulted hr hnatives ha hall, hraised, ?_⟩
    intro code hc
    rw [List.mem_singleton.mp hc]
    split
    · exact π.eio_ne_zero
    · assumption

theorem exit_mem_stretch {log : List Item} {i j : Item} {es : List Event} {id id' : Nat}
    {act : Activation} {v : Word}
    (h : .exit id act v ∈ log ++ [i] ++ es.map (.event id') ++ [j]) :
    .exit id act v ∈ log ∨ .exit id act v = i ∨ .exit id act v = j := by
  simp only [List.mem_append, List.mem_singleton, List.mem_map, reduceCtorEq, and_false,
    exists_false, or_false, or_assoc] at h
  exact h

/-- A walk that finishes in a turn raises its own error and no other. -/
theorem Turn.attributed {levels' : List Level} (h : Turn π answer σ levels m σ' levels')
    {id : Nat} {act : Activation} {v : Word} (hm : .exit id act v ∈ σ'.log)
    (hw : act.entry.walk ≠ none) : .exit id act v ∈ σ.log ∨ Attributed π act v := by
  cases h with
  | refused hr hes _ hlog =>
    rw [hlog] at hm
    rcases exit_mem_stretch hm with hm | hm | hm
    · exact .inl hm
    · cases hm
    · cases hm
      exact .inr (hr.attributed hes)
  | opened hes _ hlog =>
    rw [hlog] at hm
    rcases exit_mem_stretch hm with hm | hm | hm
    · exact .inl hm
    · cases hm
    · cases hm
  | visited _ hes _ hlog =>
    rw [hlog] at hm
    rcases exit_mem_stretch hm with hm | hm | hm
    · exact .inl hm
    · cases hm
    · cases hm
  | answered _ _ hnone _ hlog =>
    rw [hlog] at hm
    rcases exit_mem_stretch hm with hm | hm | hm
    · exact .inl hm
    · cases hm
    · cases hm
      exact absurd hnone hw
  | finished hv hop hheard ha he hpast hes hr hentry hact _ hlog =>
    rw [hlog] at hm
    rcases exit_mem_stretch hm with hm | hm | hm
    · exact .inl hm
    · cases hm
    · cases hm
      rw [← hheard] at hv hes
      exact .inr (hv.attributed hop ha he hpast hes hr hentry hact)

/-! ## One error for each outermost walk -/

/-- The number of calls that are open, and what each outermost call has raised so far with
all it contains, the latest first. -/
structure Tally where
  depth : Nat
  counts : List Nat

namespace Tally

def raise (t : Tally) (n : Nat) : Tally :=
  match t.counts with
  | [] => t
  | m :: ms => ⟨t.depth, (m + n) :: ms⟩

def add (t : Tally) : Item → Tally
  | .call _ _ _ => ⟨t.depth + 1, if t.depth = 0 then 0 :: t.counts else t.counts⟩
  | .event _ e => t.raise (raiseOf e).toList.length
  | .exit _ _ _ => ⟨t.depth - 1, t.counts⟩
  | _ => t

theorem raise_raise (t : Tally) (n m : Nat) : (t.raise n).raise m = t.raise (n + m) := by
  obtain ⟨depth, counts⟩ := t
  cases counts with
  | nil => rfl
  | cons k ks => simp [raise, Nat.add_assoc]

@[simp] theorem raise_zero (t : Tally) : t.raise 0 = t := by
  obtain ⟨depth, counts⟩ := t
  cases counts <;> rfl

end Tally

def tally (log : List Item) : Tally := log.foldl Tally.add ⟨0, []⟩

theorem foldl_events (id : Nat) (es : List Event) (t : Tally) :
    (es.map (.event id)).foldl Tally.add t = t.raise (raised es).length := by
  induction es generalizing t with
  | nil => simp
  | cons e es ih =>
    rw [List.map_cons, List.foldl_cons, ih, raised_cons, List.length_append]
    exact t.raise_raise _ _

theorem tally_stretch {log : List Item} {i j : Item} {es : List Event} {id : Nat}
    {faults : List (Api × Word)} {codes : List Word} (h : Stretch es faults codes) :
    tally (log ++ [i] ++ es.map (.event id) ++ [j]) =
      (((tally log).add i).raise codes.length).add j := by
  simp only [tally, List.foldl_append, List.foldl_cons, List.foldl_nil, foldl_events, h.raised,
    List.length_map]

/-- Once the outermost walk's run has raised, its levels are left with nonzero results. -/
structure Unwinding (σ : Solo) (levels : List Level) : Prop where
  depth : (tally σ.log).depth = levels.length
  bounded : ∀ n ∈ (tally σ.log).counts, n ≤ 1
  current : levels ≠ [] → ∃ n ns, (tally σ.log).counts = n :: ns ∧
    (n = 0 ∨ ∃ r, σ.thread.heard.getLast? = some r ∧ r ≠ 0)

theorem obedient_call {c : Call} {base : Word} {a : Answer} {fn r : Word} {args : List Word}
    (h : obedient σ (.call c base a)) (hp : σ.thread.party = some (.user fn args))
    (hr : σ.thread.heard.getLast? = some r) : r = 0 := by
  have h2 := h.2
  simp only [hp, hr] at h2
  exact h2

theorem obedient_back {a : Answer} {fn r v : Word} {args : List Word}
    (h : obedient σ (.back v a)) (hp : σ.thread.party = some (.user fn args))
    (hr : σ.thread.heard.getLast? = some r) : r ≠ 0 → v ≠ 0 := by
  have h2 := h.2
  simp only [hp, hr] at h2
  exact h2

/-- A walk is only started where nothing has been raised yet. -/
theorem Unwinding.call (h : Unwinding σ levels) (hst : Standing π σ bs levels) {c : Call}
    {base : Word} {a : Answer} (hm : obedient σ (.call c base a))
    (hl : ∀ u ∈ levels.head?, ∃ fn args, u = .callback fn args) (id : Nat) :
    ∃ ns, (tally σ.log).add (.call id c base) = ⟨levels.length + 1, 0 :: ns⟩ ∧
      ∀ n ∈ ns, n ≤ 1 := by
  cases levels with
  | nil =>
    refine ⟨(tally σ.log).counts, ?_, h.bounded⟩
    have hd : (tally σ.log).depth = 0 := h.depth
    simp [Tally.add, hd]
  | cons level levels =>
    obtain ⟨fn, args, rfl⟩ := hl level rfl
    obtain ⟨n, ns, hcounts, hn⟩ := h.current (by simp)
    have hzero : n = 0 := by
      rcases hn with hn | ⟨r, hr, hne⟩
      · exact hn
      · exact absurd (obedient_call hm hst.party hr) hne
    refine ⟨ns, ?_, fun m hmem => h.bounded m (by rw [hcounts]; exact List.mem_cons_of_mem _ hmem)⟩
    simp [Tally.add, h.depth, hcounts, hzero]

theorem Unwinding.of_tally {n : Nat} {ns : List Nat} (ht : tally σ.log = ⟨levels.length, n :: ns⟩)
    (hn : n ≤ 1) (hns : ∀ m ∈ ns, m ≤ 1)
    (hlast : n = 0 ∨ ∃ r, σ.thread.heard.getLast? = some r ∧ r ≠ 0) : Unwinding σ levels where
  depth := by rw [ht]
  bounded := by
    intro m hm
    rw [ht] at hm
    rcases List.mem_cons.mp hm with rfl | hm
    · exact hn
    · exact hns m hm
  current := fun _ => ⟨n, ns, by rw [ht], hlast⟩

/-- The tally of a run in which walks are open. -/
theorem Unwinding.tallied {level : Level} (h : Unwinding σ (level :: levels)) :
    ∃ n ns, tally σ.log = ⟨levels.length + 1, n :: ns⟩ ∧ n ≤ 1 ∧ (∀ m ∈ ns, m ≤ 1) ∧
      (n = 0 ∨ ∃ r, σ.thread.heard.getLast? = some r ∧ r ≠ 0) := by
  obtain ⟨n, ns, hcounts, hlast⟩ := h.current (by simp)
  have hbounded := h.bounded
  rw [hcounts] at hbounded
  refine ⟨n, ns, ?_, hbounded n (by simp), fun m hm => hbounded m (by simp [hm]), hlast⟩
  have hdepth : (tally σ.log).depth = levels.length + 1 := h.depth
  rw [← hdepth, ← hcounts]

/-- A walk that fails on its own has heard no failure. -/
theorem ownFailure_count {heard : List Word} {v e : Word} {n : Nat} (hv : Contract heard v e)
    (hn : n ≤ 1) (hlast : n = 0 ∨ ∃ r, heard.getLast? = some r ∧ r ≠ 0) :
    n + (ownFailure π heard v e).length ≤ 1 ∧
      (n + (ownFailure π heard v e).length = 0 ∨ v ≠ 0) := by
  rcases hlast with hn0 | ⟨r, hr, hne⟩
  · unfold ownFailure
    split
    · next hf => exact ⟨by simp [hn0], .inr (by rw [hf.1]; decide)⟩
    · exact ⟨by simp [hn0], .inl (by simp [hn0])⟩
  · rcases hv.cases with ⟨hmem, hv0⟩ | ⟨hall, -⟩
    · have hown : ownFailure π heard v e = [] := if_neg fun hf => hv0 (hf.2 v hmem)
      exact ⟨by simpa [hown] using hn, .inr hv0⟩
    · exact absurd (hall r (List.mem_of_getLast? hr)) hne

theorem Turn.unwinding {levels' : List Level} (h : Turn π answer σ levels m σ' levels')
    (hst : Standing π σ bs levels) (hm : obedient σ m) (hu : Unwinding σ levels) :
    Unwinding σ' levels' := by
  cases h with
  | refused hr hes hheard hlog hl =>
    obtain ⟨ns, hadd, hns⟩ := hu.call hst hm hl σ.log.length
    have ht : tally σ'.log = ⟨levels.length, 1 :: ns⟩ := by
      rw [hlog, tally_stretch hes, hadd]
      simp [Tally.raise, Tally.add]
    exact .of_tally ht (Nat.le_refl 1) hns (.inr ⟨-1, by simp [hheard], by decide⟩)
  | @opened _ w base a _ es hes hheard hlog hl =>
    obtain ⟨ns, hadd, hns⟩ := hu.call hst hm hl σ.log.length
    have ht : tally σ'.log = ⟨levels.length + 1, 0 :: ns⟩ := by
      rw [hlog, tally_stretch hes, hadd]
      simp [Tally.raise, Tally.add]
    exact .of_tally ht (Nat.zero_le 1) hns (.inl rfl)
  | visited hzero hes hheard hlog =>
    obtain ⟨n, ns, hold, hn, hns, hlast⟩ := hu.tallied
    have hn0 : n = 0 := by
      rcases hlast with hn0 | ⟨r, hr, hne⟩
      · exact hn0
      · exact absurd (hzero r (List.mem_of_getLast? hr)) hne
    refine .of_tally ?_ hn hns (.inl hn0)
    rw [hlog, tally_stretch hes, hold]
    simp [Tally.add]
  | @answered levels w fn args a _ es id e act heard v hop hes _ hheard hlog =>
    obtain ⟨n, ns, hold, hn, hns, hlast⟩ := hu.tallied
    have ht : tally σ'.log = ⟨levels.length + 1, n :: ns⟩ := by
      rw [hlog, tally_stretch hes, hold]
      simp [Tally.add, raiseOf, hop]
    refine .of_tally ht hn hns ?_
    rcases hlast with hn0 | ⟨r, hr, hne⟩
    · exact .inl hn0
    · exact .inr ⟨v, by simp [hheard], obedient_back hm hst.party hr hne⟩
  | @finished _ w a _ es id e past act heard v hv hop _ _ _ _ hes _ _ _ hheard hlog =>
    obtain ⟨n, ns, hold, hn, hns, hlast⟩ := hu.tallied
    have ht : tally σ'.log = ⟨levels'.length,
        (n + (ownFailure π σ.thread.heard v a.errno).length) :: ns⟩ := by
      rw [hlog, tally_stretch hes, hold]
      simp [Tally.add, Tally.raise, raiseOf, hop]
    obtain ⟨hcount, hzero⟩ := ownFailure_count hv hn hlast
    refine .of_tally ht hcount hns ?_
    rcases hzero with h0 | hv0
    · exact .inl h0
    · exact .inr ⟨v, by simp [hheard], hv0⟩

theorem plays_standing {legal : Solo → Move → Prop} (hlegal : ∀ σ m, legal σ m → posix σ m)
    {heap : Word → Word}
    (h : Effect.Solo.Plays (system π) answer legal (startSolo heap) σ) :
    (∃ bs levels, Standing π σ bs levels ∧
      ((∀ σ m, legal σ m → obedient σ m) → Unwinding σ levels)) ∧
    ∀ id act v, .exit id act v ∈ σ.log → act.entry.walk ≠ none → Attributed π act v := by
  induction h with
  | start =>
    refine ⟨⟨[], [], standing_start π heap, fun _ => ⟨rfl, ?_, ?_⟩⟩, ?_⟩
    · intro n hm
      cases hm
    · intro hne
      exact absurd rfl hne
    · intro id act v hm
      cases hm
  | play _ hm hplay ih =>
    obtain ⟨⟨bs, levels, hst, hu⟩, hatt⟩ := ih
    obtain ⟨bs', levels', hst', hturn⟩ := turn_of_play hst (hlegal _ _ hm) hplay
    refine ⟨⟨bs', levels', hst', fun ho => hturn.unwinding hst (ho _ _ hm) (hu ho)⟩, ?_⟩
    intro id act v hmem hw
    rcases hturn.attributed hmem hw with hold | hnew
    · exact hatt id act v hold hw
    · exact hnew

/-- Hooks that inject nothing and leave 0. -/
def calm (_ : Solo) : Answer := ⟨0, 0, []⟩

/-- An nftw whose callback starts an ftw with a null path and passes its failure on. -/
def nestedFailure : List Move :=
  [.call (.nftw 1 7 5 0) 100 ⟨0, 0, []⟩, .call (.callNftwCallback 2 3 0 4) 200 ⟨0, 0, []⟩,
    .call (.ftw NULL 8 5) 300 ⟨0, 0, []⟩, .back (-1) ⟨0, 0, []⟩, .back (-1) ⟨0, 0, []⟩]

end P101Filesystem
