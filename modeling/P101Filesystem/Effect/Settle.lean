import P101Filesystem.Effect.Machine

/-!
# Running library code up to its next halt

Between two moves of the outside parties a single thread is deterministic: its code runs
until it returns or hands control out. `wp` reads a postcondition of such a stretch off
the program, for every answer the surroundings may give.
-/
namespace P101Filesystem.Effect

variable {Op V G C A S L X : Type}

inductive Halt (Op V G : Type) where
  | returns (v : V)
  | hands (op : Op) (g : G) (next : V → Program Op V V)

/-- Started in `s` and `l` with the events `es` behind it, the program does nothing
undefined and halts where `Q` holds, as long as every answer is one `adm` admits. -/
def System.wp (sys : System Op V G C A S L X) (adm : Op → A → Prop)
    (Q : Halt Op V G → S → L → List (Event Op V L) → Prop) :
    Program Op V V → S → L → List (Event Op V L) → Prop
  | .done v, s, l, es => Q (.returns v) s l es
  | .perform op next, s, l, es =>
    match sys.party op with
    | some g => Q (.hands op g next) s l es
    | none => ∀ a, adm op a → ∃ r, sys.run op a s l = some r ∧
        System.wp sys adm Q (next r.1) r.2.1 r.2.2 (es ++ [⟨op, [], r.1, l, r.2.2⟩])

section
variable {sys : System Op V G C A S L X} {adm : Op → A → Prop}
  {Q : Halt Op V G → S → L → List (Event Op V L) → Prop}

@[simp] theorem System.wp_done {v : V} {s : S} {l : L} {es : List (Event Op V L)} :
    sys.wp adm Q (.done v) s l es ↔ Q (.returns v) s l es := Iff.rfl

theorem System.wp_hands {op : Op} {g : G} {next : V → Program Op V V} {s : S} {l : L}
    {es : List (Event Op V L)} (hp : sys.party op = some g) :
    sys.wp adm Q (.perform op next) s l es ↔ Q (.hands op g next) s l es := by
  simp [System.wp, hp]

theorem System.wp_run {op : Op} {next : V → Program Op V V} {s : S} {l : L}
    {es : List (Event Op V L)} (hp : sys.party op = none) :
    sys.wp adm Q (.perform op next) s l es ↔ ∀ a, adm op a → ∃ r, sys.run op a s l = some r ∧
      sys.wp adm Q (next r.1) r.2.1 r.2.2 (es ++ [⟨op, [], r.1, l, r.2.2⟩]) := by
  simp [System.wp, hp]

/-- An operation whose answer does not depend on the surroundings. -/
theorem System.wp_det {op : Op} {next : V → Program Op V V} {s : S} {l : L}
    {es : List (Event Op V L)} {r : V × S × L} (hp : sys.party op = none)
    (hr : ∀ a, sys.run op a s l = some r)
    (h : sys.wp adm Q (next r.1) r.2.1 r.2.2 (es ++ [⟨op, [], r.1, l, r.2.2⟩])) :
    sys.wp adm Q (.perform op next) s l es :=
  (System.wp_run hp).mpr fun a _ => ⟨r, hr a, h⟩

end

def Activation.pushAll (act : Activation Op V C L) (es : List (Event Op V L)) :
    Activation Op V C L := { act with past := act.past ++ es }

@[simp] theorem Activation.pushAll_entry (act : Activation Op V C L) (es : List (Event Op V L)) :
    (act.pushAll es).entry = act.entry := rfl
@[simp] theorem Activation.pushAll_base (act : Activation Op V C L) (es : List (Event Op V L)) :
    (act.pushAll es).base = act.base := rfl
@[simp] theorem Activation.pushAll_past (act : Activation Op V C L) (es : List (Event Op V L)) :
    (act.pushAll es).past = act.past ++ es := rfl
@[simp] theorem Activation.pushAll_nil (act : Activation Op V C L) : act.pushAll [] = act := by
  simp [pushAll]
@[simp] theorem Activation.pushAll_push (act : Activation Op V C L) (e : Event Op V L)
    (es : List (Event Op V L)) : (act.push e).pushAll es = act.pushAll (e :: es) := by
  simp [pushAll, push]

/-- The party in control, and what it has heard. -/
def Thread.party (th : Thread Op V G C L) : Option G :=
  match th.stack with
  | .outside g _ _ :: _ => some g
  | _ => none

def Thread.heard (th : Thread Op V G C L) : List V :=
  match th.stack with
  | .outside _ heard _ :: _ => heard
  | _ => []

namespace Solo
variable (sys : System Op V G C A S L X) (answer : Solo Op V G C S L X → A)

/-- Runs the code on top, whose rest is given, to its next halt. -/
def settle : Program Op V V → Solo Op V G C S L X → Option (Solo Op V G C S L X)
  | .done _, σ => σ.step sys .exit
  | .perform op next, σ =>
    match sys.party op with
    | some _ => σ.step sys .hand
    | none =>
      match sys.run op (answer σ) σ.shared σ.thread.loc with
      | none => none
      | some r => (σ.step sys (.op (answer σ))).bind (settle (next r.1))

def settleTop (σ : Solo Op V G C S L X) : Option (Solo Op V G C S L X) :=
  match σ.thread.stack with
  | .code _ _ rest :: _ => σ.settle sys answer rest
  | _ => some σ

/-- A move of the party on top, and everything the library does in response. -/
def play (σ : Solo Op V G C S L X) (m : Move V G C A X) : Option (Solo Op V G C S L X) :=
  (σ.step sys m).bind fun σ' => σ'.settleTop sys answer

/-- The thread after a stretch of code with the events `es` has halted. -/
def halted (log : List (Item Op V G C L X)) (id : Nat) (act : Activation Op V C L)
    (below : List (Frame Op V G C L)) (es : List (Event Op V L)) (s : S) (l : L) :
    Halt Op V G → Option (Solo Op V G C S L X)
  | .returns v => (⟨s, ⟨l, .code id (act.pushAll es) (.done v) :: below⟩,
      log ++ es.map (.event id)⟩ : Solo Op V G C S L X).step sys .exit
  | .hands op g next => some ⟨s, ⟨l, .outside g [] l ::
      .code id (act.pushAll es) (.perform op next) :: below⟩,
      log ++ es.map (.event id) ++ [.hand id op]⟩

variable {sys} {answer}

@[simp] theorem halted_hands (log : List (Item Op V G C L X)) (id : Nat) (act : Activation Op V C L)
    (below : List (Frame Op V G C L)) (es : List (Event Op V L)) (s : S) (l : L) (op : Op) (g : G)
    (next : V → Program Op V V) :
    halted sys log id act below es s l (.hands op g next) =
      some ⟨s, ⟨l, .outside g [] l :: .code id (act.pushAll es) (.perform op next) :: below⟩,
        log ++ es.map (.event id) ++ [.hand id op]⟩ := rfl

@[simp] theorem halted_returns (log : List (Item Op V G C L X)) (id : Nat)
    (act : Activation Op V C L) (g : G) (heard : List V) (since : L)
    (below : List (Frame Op V G C L)) (es : List (Event Op V L)) (s : S) (l : L) (v : V) :
    halted sys log id act (.outside g heard since :: below) es s l (.returns v) =
      some ⟨sys.leave act.entry act.base s, ⟨l, .outside g (heard ++ [v]) since :: below⟩,
        log ++ es.map (.event id) ++ [.exit id (act.pushAll es) v]⟩ := by
  simp [halted, step, Thread.step]

theorem settle_of_wp {adm : Op → A → Prop} {Q : Halt Op V G → S → L → List (Event Op V L) → Prop}
    (hadm : ∀ σ op, adm op (answer σ)) {rest : Program Op V V} {s : S} {l : L} {id : Nat}
    {act : Activation Op V C L} {below : List (Frame Op V G C L)}
    {log : List (Item Op V G C L X)} {es₀ : List (Event Op V L)}
    (h : sys.wp adm Q rest s l es₀) :
    ∃ halt s' l' es, Q halt s' l' (es₀ ++ es) ∧
      (⟨s, ⟨l, .code id act rest :: below⟩, log⟩ : Solo Op V G C S L X).settle sys answer rest =
        halted sys log id act below es s' l' halt := by
  induction rest generalizing s l act log es₀ with
  | done v =>
    refine ⟨.returns v, s, l, [], by simpa using h, ?_⟩
    simp [settle, halted]
  | perform op next ih =>
    cases hp : sys.party op with
    | some g =>
      refine ⟨.hands op g next, s, l, [], ?_, ?_⟩
      · simpa using (System.wp_hands hp).mp h
      · simp [settle, halted, hp, step, Thread.step]
    | none =>
      obtain ⟨r, hr, hnext⟩ := (System.wp_run hp).mp h _
        (hadm ⟨s, ⟨l, .code id act (.perform op next) :: below⟩, log⟩ op)
      obtain ⟨halt, s', l', es, hq, hset⟩ := @ih r.1 r.2.1 r.2.2
        (act.push ⟨op, [], r.1, l, r.2.2⟩) (log ++ [.event id ⟨op, [], r.1, l, r.2.2⟩]) _ hnext
      refine ⟨halt, s', l', ⟨op, [], r.1, l, r.2.2⟩ :: es, by simpa using hq, ?_⟩
      have hstep : (⟨s, ⟨l, .code id act (.perform op next) :: below⟩, log⟩ :
          Solo Op V G C S L X).step sys (.op (answer ⟨s, ⟨l, .code id act (.perform op next) ::
            below⟩, log⟩)) = some ⟨r.2.1, ⟨r.2.2, .code id (act.push ⟨op, [], r.1, l, r.2.2⟩)
              (next r.1) :: below⟩, log ++ [.event id ⟨op, [], r.1, l, r.2.2⟩]⟩ := by
        simp [step, Thread.step, hp, hr]
      rw [settle, hp]
      simp only [hr, hstep, Option.bind_some, hset]
      cases halt <;> simp [halted]

/-- The answers the surroundings can give. -/
def given (answer : Solo Op V G C S L X → A) (_ : Op) (a : A) : Prop := ∃ σ, answer σ = a

variable (answer)

/-- A call runs its code to the next halt. -/
theorem play_call {Q : Halt Op V G → S → L → List (Event Op V L) → Prop}
    (σ : Solo Op V G C S L X) {s₁ : S} {g : G} {heard : List V} {since : L}
    {below : List (Frame Op V G C L)} {c : C} {base : V} {a : A}
    (hs : σ.thread.stack = .outside g heard since :: below) (hp : sys.permits g c = true)
    (he : sys.enter c base a (sys.disturb a σ.shared σ.thread.loc).1 = some s₁)
    (hw : sys.wp (given answer) Q (sys.code c base) s₁ (sys.disturb a σ.shared σ.thread.loc).2 []) :
    ∃ halt s' l' es, Q halt s' l' es ∧ σ.play sys answer (.call c base a) =
      halted sys (σ.log ++ [.call σ.log.length c base]) σ.log.length
        ⟨c, base, (sys.disturb a σ.shared σ.thread.loc).2, []⟩ σ.thread.stack es s' l' halt := by
  obtain ⟨s, ⟨l, stack⟩, log⟩ := σ
  dsimp only at hs
  subst hs
  obtain ⟨halt, s', l', es, hq, hset⟩ := @settle_of_wp _ _ _ _ _ _ _ _ sys answer _ Q
    (fun σ _ => ⟨σ, rfl⟩) _ _ _ log.length ⟨c, base, (sys.disturb a s l).2, []⟩
    (.outside g heard since :: below) (log ++ [.call log.length c base]) _ hw
  refine ⟨halt, s', l', es, by simpa using hq, ?_⟩
  rw [← hset]
  simp [play, step, Thread.step, hp, he, settleTop]

/-- An answer to an operation resumes the code that waits for it. -/
theorem play_back {Q : Halt Op V G → S → L → List (Event Op V L) → Prop}
    (σ : Solo Op V G C S L X) {g : G} {heard : List V} {since : L} {id : Nat}
    {act : Activation Op V C L} {op : Op} {next : V → Program Op V V}
    {below : List (Frame Op V G C L)} {v : V} {a : A}
    (hs : σ.thread.stack = .outside g heard since :: .code id act (.perform op next) :: below)
    (hw : sys.wp (given answer) Q (next v) (sys.disturb a σ.shared σ.thread.loc).1
      (sys.disturb a σ.shared σ.thread.loc).2 []) :
    ∃ halt s' l' es, Q halt s' l' es ∧ σ.play sys answer (.back v a) =
      halted sys
        (σ.log ++ [.event id ⟨op, heard, v, since, (sys.disturb a σ.shared σ.thread.loc).2⟩]) id
        (act.push ⟨op, heard, v, since, (sys.disturb a σ.shared σ.thread.loc).2⟩) below es s' l'
        halt := by
  obtain ⟨s, ⟨l, stack⟩, log⟩ := σ
  dsimp only at hs
  subst hs
  obtain ⟨halt, s', l', es, hq, hset⟩ := @settle_of_wp _ _ _ _ _ _ _ _ sys answer _ Q
    (fun σ _ => ⟨σ, rfl⟩) _ _ _ id (act.push ⟨op, heard, v, since, (sys.disturb a s l).2⟩) below
    (log ++ [.event id ⟨op, heard, v, since, (sys.disturb a s l).2⟩]) _ hw
  refine ⟨halt, s', l', es, by simpa using hq, ?_⟩
  rw [← hset]
  simp [play, step, Thread.step, settleTop]

variable {answer}

/-- Settling is a sequence of machine steps. -/
theorem Reach.settle {legal} {σ₀ σ σ' : Solo Op V G C S L X} {rest : Program Op V V}
    (hl : ∀ σ a, legal σ (.op a)) (hh : ∀ σ, legal σ .hand) (he : ∀ σ, legal σ .exit)
    (hr : Reach sys legal σ₀ σ) (h : σ.settle sys answer rest = some σ') :
    Reach sys legal σ₀ σ' := by
  induction rest generalizing σ with
  | done v => exact .step hr (he σ) h
  | perform op next ih =>
    unfold Solo.settle at h
    split at h
    · exact .step hr (hh σ) h
    · split at h
      · cases h
      · obtain ⟨mid, hm, hrest⟩ := Option.bind_eq_some_iff.mp h
        exact ih _ (.step hr (hl σ _) hm) hrest

/-- Runs in which every move is followed by all the library does in response. -/
inductive Plays (sys : System Op V G C A S L X) (answer : Solo Op V G C S L X → A)
    (legal : Solo Op V G C S L X → Move V G C A X → Prop) (σ₀ : Solo Op V G C S L X) :
    Solo Op V G C S L X → Prop
  | start : Plays sys answer legal σ₀ σ₀
  | play {σ σ' m} : Plays sys answer legal σ₀ σ → legal σ m → σ.play sys answer m = some σ' →
      Plays sys answer legal σ₀ σ'

/-- Plays a list of moves, each of which `legal` has to admit. -/
def plays (sys : System Op V G C A S L X) (answer : Solo Op V G C S L X → A)
    (legal : Solo Op V G C S L X → Move V G C A X → Prop) [∀ σ m, Decidable (legal σ m)]
    (σ : Solo Op V G C S L X) : List (Move V G C A X) → Option (Solo Op V G C S L X)
  | [] => some σ
  | m :: rest =>
    if legal σ m then (σ.play sys answer m).bind fun σ' => plays sys answer legal σ' rest else none

theorem Plays.mono {legal legal' : Solo Op V G C S L X → Move V G C A X → Prop}
    {σ₀ σ : Solo Op V G C S L X} (hl : ∀ σ m, legal σ m → legal' σ m)
    (h : Plays sys answer legal σ₀ σ) : Plays sys answer legal' σ₀ σ := by
  induction h with
  | start => exact .start
  | play _ hm hp ih => exact .play ih (hl _ _ hm) hp

theorem Plays.of_plays {legal} [∀ σ m, Decidable (legal σ m)] {σ₀ σ σ' : Solo Op V G C S L X}
    {moves : List (Move V G C A X)} (hr : Plays sys answer legal σ₀ σ)
    (h : plays sys answer legal σ moves = some σ') : Plays sys answer legal σ₀ σ' := by
  induction moves generalizing σ with
  | nil =>
    simp only [plays, Option.some.injEq] at h
    exact h ▸ hr
  | cons m rest ih =>
    simp only [plays] at h
    split at h
    · next hl =>
      obtain ⟨mid, hm, hrest⟩ := Option.bind_eq_some_iff.mp h
      exact ih (.play hr hl hm) hrest
    · cases h

theorem Reach.play {legal} {σ₀ σ σ' : Solo Op V G C S L X} {m : Move V G C A X}
    (hl : ∀ σ a, legal σ (.op a)) (hh : ∀ σ, legal σ .hand) (he : ∀ σ, legal σ .exit)
    (hr : Reach sys legal σ₀ σ) (hm : legal σ m) (h : σ.play sys answer m = some σ') :
    Reach sys legal σ₀ σ' := by
  obtain ⟨mid, hs, ht⟩ := Option.bind_eq_some_iff.mp h
  have hmid := Reach.step hr hm hs
  unfold settleTop at ht
  split at ht
  · exact hmid.settle hl hh he ht
  · simp only [Option.some.injEq] at ht
    exact ht ▸ hmid

end Solo

end P101Filesystem.Effect
