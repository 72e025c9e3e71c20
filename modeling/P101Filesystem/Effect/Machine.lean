import P101Filesystem.Effect.Program
import Mathlib.Logic.Function.Basic

/-!
# A machine for library code that calls out and is called back

Library code runs as a `Program`. An operation it cannot perform itself hands control
to an outside party, which may call library entry points, or other parties, any number
of times before it answers. What the outside does is chosen move by move; the machine
only fixes which moves exist and what the library code does in between.
-/
namespace P101Filesystem.Effect

variable {Op V G C A S L X : Type}

/-- Library code (`code`), the party an operation hands control to (`party`), what the
other operations do (`run`), and what parties may do while they are in control. -/
structure System (Op V G C A S L X : Type) where
  code : C → V → Program Op V V
  party : Op → Option G
  run : Op → A → S → L → Option (V × S × L)
  permits : G → C → Bool
  invokes : G → G → Bool
  acts : G → X → Bool
  disturb : A → S → L → S × L
  enter : C → V → A → S → Option S
  leave : C → V → S → S

/-- A call of an entry point: its frame address, the local state it started in and its
own operations so far. -/
structure Activation (Op V C L : Type) where
  entry : C
  base : V
  start : L
  past : List (Event Op V L)

def Activation.push (act : Activation Op V C L) (e : Event Op V L) : Activation Op V C L :=
  { act with past := act.past ++ [e] }

@[simp] theorem Activation.push_entry (act : Activation Op V C L) (e : Event Op V L) :
    (act.push e).entry = act.entry := rfl
@[simp] theorem Activation.push_base (act : Activation Op V C L) (e : Event Op V L) :
    (act.push e).base = act.base := rfl
@[simp] theorem Activation.push_start (act : Activation Op V C L) (e : Event Op V L) :
    (act.push e).start = act.start := rfl
@[simp] theorem Activation.push_past (act : Activation Op V C L) (e : Event Op V L) :
    (act.push e).past = act.past ++ [e] := rfl

/-- An outside party keeps what its own calls answered and the local state in which it
took control; library code keeps its activation and what is left to run. -/
inductive Frame (Op V G C L : Type) where
  | outside (g : G) (heard : List V) (since : L)
  | code (id : Nat) (act : Activation Op V C L) (rest : Program Op V V)

structure Thread (Op V G C L : Type) where
  loc : L
  stack : List (Frame Op V G C L)

inductive Move (V G C A X : Type) where
  | call (c : C) (base : V) (a : A)
  | invoke (g : G) (a : A)
  | act (x : X) (a : A)
  | back (v : V) (a : A)
  | op (a : A)
  | hand
  | exit

inductive Item (Op V G C L X : Type) where
  | call (id : Nat) (c : C) (base : V)
  | invoke (g : G)
  | act (x : X)
  | event (id : Nat) (e : Event Op V L)
  | returned (v : V)
  | hand (id : Nat) (op : Op)
  | exit (id : Nat) (act : Activation Op V C L) (v : V)

/-- One move of one thread, with the item it leaves in the log. -/
def Thread.step (sys : System Op V G C A S L X) (fresh : Nat) (s : S)
    (th : Thread Op V G C L) (m : Move V G C A X) :
    Option (S × Thread Op V G C L × Item Op V G C L X) :=
  match m, th.stack with
  | .call c base a, .outside g heard since :: below =>
    if sys.permits g c then
      (sys.enter c base a (sys.disturb a s th.loc).1).map fun s' =>
        (s', ⟨(sys.disturb a s th.loc).2,
          .code fresh ⟨c, base, (sys.disturb a s th.loc).2, []⟩ (sys.code c base) ::
            .outside g heard since :: below⟩, .call fresh c base)
    else none
  | .invoke g' a, .outside g heard since :: below =>
    if sys.invokes g g' then
      some ((sys.disturb a s th.loc).1, ⟨(sys.disturb a s th.loc).2,
        .outside g' [] (sys.disturb a s th.loc).2 :: .outside g heard since :: below⟩, .invoke g')
    else none
  | .act x a, .outside g heard since :: below =>
    if sys.acts g x then
      some ((sys.disturb a s th.loc).1,
        ⟨(sys.disturb a s th.loc).2, .outside g heard since :: below⟩, .act x)
    else none
  | .back v a, .outside _ heard since :: .code id act (.perform op next) :: below =>
    some ((sys.disturb a s th.loc).1, ⟨(sys.disturb a s th.loc).2,
      .code id (act.push ⟨op, heard, v, since, (sys.disturb a s th.loc).2⟩) (next v) :: below⟩,
      .event id ⟨op, heard, v, since, (sys.disturb a s th.loc).2⟩)
  | .back v a, .outside _ _ _ :: .outside g heard since :: below =>
    some ((sys.disturb a s th.loc).1, ⟨(sys.disturb a s th.loc).2,
      .outside g (heard ++ [v]) since :: below⟩, .returned v)
  | .op a, .code id act (.perform op next) :: below =>
    match sys.party op with
    | some _ => none
    | none => (sys.run op a s th.loc).map fun r =>
      (r.2.1, ⟨r.2.2, .code id (act.push ⟨op, [], r.1, th.loc, r.2.2⟩) (next r.1) :: below⟩,
        .event id ⟨op, [], r.1, th.loc, r.2.2⟩)
  | .hand, .code id act (.perform op next) :: below =>
    (sys.party op).map fun g =>
      (s, ⟨th.loc, .outside g [] th.loc :: .code id act (.perform op next) :: below⟩, .hand id op)
  | .exit, .code id act (.done v) :: .outside g heard since :: below =>
    some (sys.leave act.entry act.base s, ⟨th.loc, .outside g (heard ++ [v]) since :: below⟩,
      .exit id act v)
  | _, _ => none

/-- What one move can do, guards included. -/
inductive Thread.Stepped (sys : System Op V G C A S L X) (fresh : Nat) (s : S) :
    Thread Op V G C L → Move V G C A X → S → Thread Op V G C L → Item Op V G C L X → Prop
  | call {l s' g heard since below c base a} :
      sys.permits g c = true → sys.enter c base a (sys.disturb a s l).1 = some s' →
      Stepped sys fresh s ⟨l, .outside g heard since :: below⟩ (.call c base a) s'
        ⟨(sys.disturb a s l).2, .code fresh ⟨c, base, (sys.disturb a s l).2, []⟩ (sys.code c base) ::
          .outside g heard since :: below⟩ (.call fresh c base)
  | invoke {l g heard since below g' a} : sys.invokes g g' = true →
      Stepped sys fresh s ⟨l, .outside g heard since :: below⟩ (.invoke g' a)
        (sys.disturb a s l).1 ⟨(sys.disturb a s l).2,
          .outside g' [] (sys.disturb a s l).2 :: .outside g heard since :: below⟩ (.invoke g')
  | act {l g heard since below x a} : sys.acts g x = true →
      Stepped sys fresh s ⟨l, .outside g heard since :: below⟩ (.act x a)
        (sys.disturb a s l).1 ⟨(sys.disturb a s l).2, .outside g heard since :: below⟩ (.act x)
  | back {l g heard since id act op next below v a} :
      Stepped sys fresh s
        ⟨l, .outside g heard since :: .code id act (.perform op next) :: below⟩ (.back v a)
        (sys.disturb a s l).1 ⟨(sys.disturb a s l).2,
          .code id (act.push ⟨op, heard, v, since, (sys.disturb a s l).2⟩) (next v) :: below⟩
        (.event id ⟨op, heard, v, since, (sys.disturb a s l).2⟩)
  | backOutside {l g' heard' since' g heard since below v a} :
      Stepped sys fresh s
        ⟨l, .outside g' heard' since' :: .outside g heard since :: below⟩ (.back v a)
        (sys.disturb a s l).1
        ⟨(sys.disturb a s l).2, .outside g (heard ++ [v]) since :: below⟩ (.returned v)
  | op {l id act op next below a v s' l'} :
      sys.party op = none → sys.run op a s l = some (v, s', l') →
      Stepped sys fresh s ⟨l, .code id act (.perform op next) :: below⟩ (.op a) s'
        ⟨l', .code id (act.push ⟨op, [], v, l, l'⟩) (next v) :: below⟩
        (.event id ⟨op, [], v, l, l'⟩)
  | hand {l id act op next below g} : sys.party op = some g →
      Stepped sys fresh s ⟨l, .code id act (.perform op next) :: below⟩ .hand s
        ⟨l, .outside g [] l :: .code id act (.perform op next) :: below⟩ (.hand id op)
  | exit {l id act v g heard since below} :
      Stepped sys fresh s ⟨l, .code id act (.done v) :: .outside g heard since :: below⟩ .exit
        (sys.leave act.entry act.base s) ⟨l, .outside g (heard ++ [v]) since :: below⟩
        (.exit id act v)

theorem Thread.stepped_of_step {sys : System Op V G C A S L X} {fresh : Nat} {s s' : S}
    {th th' : Thread Op V G C L} {m : Move V G C A X} {i : Item Op V G C L X}
    (h : th.step sys fresh s m = some (s', th', i)) : Thread.Stepped sys fresh s th m s' th' i := by
  obtain ⟨l, stack⟩ := th
  unfold Thread.step at h
  dsimp only at h
  split at h
  · split at h
    · next hp =>
      simp only [Option.map_eq_some_iff, Prod.mk.injEq] at h
      obtain ⟨s₁, he, rfl, rfl, rfl⟩ := h
      exact .call hp he
    · cases h
  · split at h
    · next hi =>
      simp only [Option.some.injEq, Prod.mk.injEq] at h
      obtain ⟨rfl, rfl, rfl⟩ := h
      exact .invoke hi
    · cases h
  · split at h
    · next ha =>
      simp only [Option.some.injEq, Prod.mk.injEq] at h
      obtain ⟨rfl, rfl, rfl⟩ := h
      exact .act ha
    · cases h
  · simp only [Option.some.injEq, Prod.mk.injEq] at h
    obtain ⟨rfl, rfl, rfl⟩ := h
    exact .back
  · simp only [Option.some.injEq, Prod.mk.injEq] at h
    obtain ⟨rfl, rfl, rfl⟩ := h
    exact .backOutside
  · split at h
    · cases h
    · next hp =>
      simp only [Option.map_eq_some_iff, Prod.mk.injEq] at h
      obtain ⟨⟨v, s₁, l₁⟩, hr, rfl, rfl, rfl⟩ := h
      exact .op hp hr
  · simp only [Option.map_eq_some_iff, Prod.mk.injEq] at h
    obtain ⟨g, hg, rfl, rfl, rfl⟩ := h
    exact .hand hg
  · simp only [Option.some.injEq, Prod.mk.injEq] at h
    obtain ⟨rfl, rfl, rfl⟩ := h
    exact .exit
  · cases h

theorem Thread.step_of_stepped {sys : System Op V G C A S L X} {fresh : Nat} {s s' : S}
    {th th' : Thread Op V G C L} {m : Move V G C A X} {i : Item Op V G C L X}
    (h : Thread.Stepped sys fresh s th m s' th' i) : th.step sys fresh s m = some (s', th', i) := by
  cases h with
  | call hp he => simp [Thread.step, hp, he]
  | invoke hi => simp [Thread.step, hi]
  | act ha => simp [Thread.step, ha]
  | back | backOutside | exit => simp [Thread.step]
  | op hp hr => simp [Thread.step, hp, hr]
  | hand hp => simp [Thread.step, hp]

/-- Any number of threads over one shared state and one log. A call is named by its
place in the log. -/
structure Config (Op V G C S L X : Type) where
  shared : S
  threads : Nat → Thread Op V G C L
  log : List (Nat × Item Op V G C L X)

namespace Config
variable (sys : System Op V G C A S L X)

def init (main : G) (s : S) (l : L) : Config Op V G C S L X :=
  ⟨s, fun _ => ⟨l, [.outside main [] l]⟩, []⟩

def step (cfg : Config Op V G C S L X) (t : Nat) (m : Move V G C A X) :
    Option (Config Op V G C S L X) :=
  ((cfg.threads t).step sys cfg.log.length cfg.shared m).map fun r =>
    ⟨r.1, Function.update cfg.threads t r.2.1, cfg.log ++ [(t, r.2.2)]⟩

/-- Runs a list of moves, each of which `legal` has to admit. -/
def run (legal : Config Op V G C S L X → Nat → Move V G C A X → Prop)
    [∀ cfg t m, Decidable (legal cfg t m)] (cfg : Config Op V G C S L X) :
    List (Nat × Move V G C A X) → Option (Config Op V G C S L X)
  | [] => some cfg
  | (t, m) :: rest =>
    if legal cfg t m then (cfg.step sys t m).bind fun cfg' => cfg'.run legal rest else none

/-- Configurations reached from `cfg₀` when every move is one that `legal` admits. -/
inductive Reach (legal : Config Op V G C S L X → Nat → Move V G C A X → Prop)
    (cfg₀ : Config Op V G C S L X) : Config Op V G C S L X → Prop
  | init : Reach legal cfg₀ cfg₀
  | step {cfg cfg' t m} : Reach legal cfg₀ cfg → legal cfg t m →
      cfg.step sys t m = some cfg' → Reach legal cfg₀ cfg'

theorem stepped {sys : System Op V G C A S L X} {cfg cfg' : Config Op V G C S L X} {t : Nat}
    {m : Move V G C A X} (h : cfg.step sys t m = some cfg') :
    ∃ s th i, Thread.Stepped sys cfg.log.length cfg.shared (cfg.threads t) m s th i ∧
      cfg' = ⟨s, Function.update cfg.threads t th, cfg.log ++ [(t, i)]⟩ := by
  simp only [step, Option.map_eq_some_iff] at h
  obtain ⟨⟨s, th, i⟩, hs, rfl⟩ := h
  exact ⟨s, th, i, Thread.stepped_of_step hs, rfl⟩

theorem Reach.of_run {sys : System Op V G C A S L X} {legal}
    [∀ cfg t m, Decidable (legal cfg t m)] {cfg₀ cfg cfg' : Config Op V G C S L X}
    {moves : List (Nat × Move V G C A X)} (hr : Reach sys legal cfg₀ cfg)
    (h : cfg.run sys legal moves = some cfg') : Reach sys legal cfg₀ cfg' := by
  induction moves generalizing cfg with
  | nil =>
    simp only [run, Option.some.injEq] at h
    exact h ▸ hr
  | cons tm rest ih =>
    obtain ⟨t, m⟩ := tm
    simp only [run] at h
    split at h
    · next hl =>
      obtain ⟨mid, hm, hrest⟩ := Option.bind_eq_some_iff.mp h
      exact ih (.step hr hl hm) hrest
    · cases h

/-- A thread that is not moved stays as it is. -/
theorem run_unmoved {sys : System Op V G C A S L X} {legal}
    [∀ cfg t m, Decidable (legal cfg t m)] {cfg cfg' : Config Op V G C S L X} {t : Nat}
    {moves : List (Nat × Move V G C A X)} (h : cfg.run sys legal moves = some cfg')
    (ht : ∀ tm ∈ moves, tm.1 ≠ t) : cfg'.threads t = cfg.threads t := by
  induction moves generalizing cfg with
  | nil => rw [Option.some.inj h]
  | cons um rest ih =>
    obtain ⟨u, m⟩ := um
    simp only [run] at h
    split at h
    · obtain ⟨mid, hm, hrest⟩ := Option.bind_eq_some_iff.mp h
      rw [ih hrest fun tm hmem => ht tm (by simp [hmem])]
      obtain ⟨s, th, i, -, rfl⟩ := stepped hm
      exact Function.update_of_ne (Ne.symm (ht (u, m) (by simp))) _ _
    · cases h

end Config

/-! ## One thread on its own -/

structure Solo (Op V G C S L X : Type) where
  shared : S
  thread : Thread Op V G C L
  log : List (Item Op V G C L X)

namespace Solo
variable (sys : System Op V G C A S L X)

def init (main : G) (s : S) (l : L) : Solo Op V G C S L X :=
  ⟨s, ⟨l, [.outside main [] l]⟩, []⟩

def step (σ : Solo Op V G C S L X) (m : Move V G C A X) : Option (Solo Op V G C S L X) :=
  (σ.thread.step sys σ.log.length σ.shared m).map fun r => ⟨r.1, r.2.1, σ.log ++ [r.2.2]⟩

/-- Runs a list of moves, each of which `legal` has to admit. -/
def run (legal : Solo Op V G C S L X → Move V G C A X → Prop) [∀ σ m, Decidable (legal σ m)]
    (σ : Solo Op V G C S L X) : List (Move V G C A X) → Option (Solo Op V G C S L X)
  | [] => some σ
  | m :: rest => if legal σ m then (σ.step sys m).bind fun σ' => σ'.run legal rest else none

inductive Reach (legal : Solo Op V G C S L X → Move V G C A X → Prop)
    (σ₀ : Solo Op V G C S L X) : Solo Op V G C S L X → Prop
  | init : Reach legal σ₀ σ₀
  | step {σ σ' m} : Reach legal σ₀ σ → legal σ m → σ.step sys m = some σ' → Reach legal σ₀ σ'

theorem stepped {sys : System Op V G C A S L X} {σ σ' : Solo Op V G C S L X}
    {m : Move V G C A X} (h : σ.step sys m = some σ') :
    ∃ s th i, Thread.Stepped sys σ.log.length σ.shared σ.thread m s th i ∧
      σ' = ⟨s, th, σ.log ++ [i]⟩ := by
  simp only [step, Option.map_eq_some_iff] at h
  obtain ⟨⟨s, th, i⟩, hs, rfl⟩ := h
  exact ⟨s, th, i, Thread.stepped_of_step hs, rfl⟩

theorem Reach.of_run {sys : System Op V G C A S L X} {legal} [∀ σ m, Decidable (legal σ m)]
    {σ₀ σ σ' : Solo Op V G C S L X} {moves : List (Move V G C A X)}
    (hr : Reach sys legal σ₀ σ) (h : σ.run sys legal moves = some σ') :
    Reach sys legal σ₀ σ' := by
  induction moves generalizing σ with
  | nil =>
    simp only [run, Option.some.injEq] at h
    exact h ▸ hr
  | cons m rest ih =>
    simp only [run] at h
    split at h
    · next hl =>
      obtain ⟨mid, hm, hrest⟩ := Option.bind_eq_some_iff.mp h
      exact ih (.step hr hl hm) hrest
    · cases h

/-- The thread on its own as thread 0 of a configuration in which no other one moves. -/
def toConfig (main : G) (l : L) (σ : Solo Op V G C S L X) : Config Op V G C S L X :=
  ⟨σ.shared, Function.update (fun _ => ⟨l, [.outside main [] l]⟩) 0 σ.thread,
    σ.log.map fun i => (0, i)⟩

theorem toConfig_step {main : G} {l : L} {σ σ' : Solo Op V G C S L X} {m : Move V G C A X}
    (h : σ.step sys m = some σ') :
    (σ.toConfig main l).step sys 0 m = some (σ'.toConfig main l) := by
  simp only [step, Option.map_eq_some_iff] at h
  obtain ⟨r, hr, rfl⟩ := h
  simp [Config.step, toConfig, hr]

/-- A run of one thread on its own is a run of the machine. -/
theorem Reach.toConfig {sys : System Op V G C A S L X} {legal} {main : G} {s : S} {l : L}
    {σ : Solo Op V G C S L X} (h : Reach sys legal (Solo.init main s l) σ) :
    Config.Reach sys (fun _ t _ => t = 0) (Config.init main s l) (σ.toConfig main l) := by
  induction h with
  | init =>
    have hi : (Solo.init main s l : Solo Op V G C S L X).toConfig main l = Config.init main s l := by
      simp [Solo.toConfig, Solo.init, Config.init]
    rw [hi]
    exact .init
  | step _ _ hs ih => exact .step ih rfl (toConfig_step sys hs)

end Solo

end P101Filesystem.Effect
