import P101Filesystem.Effect.Machine
import P101Filesystem.Effect.Protocol
import Mathlib.Data.List.Induction

/-!
# Phases of a thread

A typestate gives every entry point a protocol. Code that hands control to a party which
may come back into the library has to be in the idle phase, so that a thread is in one
phase at a time: that of the code on top. What a run can do to the log and to the phases
is then an automaton of its own, `Traced`, that no longer mentions stacks.
-/
namespace P101Filesystem.Effect

variable {Op V G C A S L X Ph : Type}

structure Typestate (sys : System Op V G C A S L X) (Ph : Type) where
  protocol : Protocol Op V Ph
  idle : Ph
  first : C → V → Ph
  reentrant : G → Prop
  keeps : ∀ c b, protocol.Keeps (first c b) (sys.code c b)
  permits : ∀ {g c}, sys.permits g c = true → reentrant g
  invokes : ∀ {g g'}, sys.invokes g g' = true → reentrant g
  acts : ∀ {g x}, sys.acts g x = true → reentrant g
  hands : ∀ {ph op v ph' g}, protocol.next ph op v ph' → sys.party op = some g →
    reentrant g → ph = idle

namespace Typestate
variable {sys : System Op V G C A S L X} (ts : Typestate sys Ph)

/-- A stack whose topmost code is in phase `ph`. -/
inductive Phased : Ph → List (Frame Op V G C L) → Prop
  | bottom {g heard since} : Phased ts.idle [.outside g heard since]
  | outside {ph g heard since below} : Phased ph below → (ts.reentrant g → ph = ts.idle) →
      Phased ph (.outside g heard since :: below)
  | code {ph id act rest below} : Phased ts.idle below → ts.protocol.Keeps ph rest →
      Phased ph (.code id act rest :: below)

inductive Advance : Ph → Item Op V G C L X → Ph → Prop
  | call {id c base} : Advance ts.idle (.call id c base) (ts.first c base)
  | event {ph ph' id e} : ts.protocol.next ph e.op e.answer ph' → Advance ph (.event id e) ph'
  | exit {ph id act v} : ts.protocol.final ph v → Advance ph (.exit id act v) ts.idle
  | invoke {g} : Advance ts.idle (.invoke g) ts.idle
  | act {x} : Advance ts.idle (.act x) ts.idle
  | returned {ph v} : Advance ph (.returned v) ph
  | hand {ph id op} : Advance ph (.hand id op) ph

variable {ts}

/-- A party that may enter the library finds it idle. -/
theorem Phased.idle_of_reentrant {ph : Ph} {g : G} {heard : List V} {since : L}
    {below : List (Frame Op V G C L)} (h : ts.Phased ph (.outside g heard since :: below))
    (hg : ts.reentrant g) : ph = ts.idle := by
  cases h with
  | bottom => rfl
  | outside _ hi => exact hi hg

theorem Phased.heard {ph : Ph} {g : G} {heard heard' : List V} {since since' : L}
    {below : List (Frame Op V G C L)} (h : ts.Phased ph (.outside g heard since :: below)) :
    ts.Phased ph (.outside g heard' since' :: below) := by
  cases h with
  | bottom => exact .bottom
  | outside hb hi => exact .outside hb hi

theorem advance_of_stepped [Nonempty V] {fresh : Nat} {s s' : S} {th th' : Thread Op V G C L}
    {m : Move V G C A X} {i : Item Op V G C L X} {ph : Ph}
    (h : Thread.Stepped sys fresh s th m s' th' i) (hp : ts.Phased ph th.stack) :
    ∃ ph', ts.Advance ph i ph' ∧ ts.Phased ph' th'.stack := by
  cases h with
  | call hperm he =>
    obtain rfl := hp.idle_of_reentrant (ts.permits hperm)
    exact ⟨_, .call, .code hp (ts.keeps _ _)⟩
  | invoke hi =>
    obtain rfl := hp.idle_of_reentrant (ts.invokes hi)
    exact ⟨_, .invoke, .outside hp fun _ => rfl⟩
  | act ha =>
    obtain rfl := hp.idle_of_reentrant (ts.acts ha)
    exact ⟨_, .act, hp⟩
  | @back l g heard since id act op next below v a =>
    cases hp with
    | outside hp _ =>
      cases hp with
      | code hb hk =>
        obtain ⟨ph', hnext, hk'⟩ := hk v
        exact ⟨ph', .event hnext, .code hb hk'⟩
  | backOutside =>
    cases hp with
    | outside hp _ => exact ⟨ph, .returned, hp.heard⟩
  | @op l id act op next below a v s' l' hparty hr =>
    cases hp with
    | code hb hk =>
      obtain ⟨ph', hnext, hk'⟩ := hk v
      exact ⟨ph', .event hnext, .code hb hk'⟩
  | hand hparty =>
    have hp' := hp
    cases hp with
    | code hb hk =>
      obtain ⟨ph', hnext, -⟩ := hk (Classical.arbitrary V)
      exact ⟨ph, .hand, .outside hp' fun hg => ts.hands hnext hparty hg⟩
  | exit =>
    cases hp with
    | code hb hf => exact ⟨_, .exit hf, hb.heard⟩

/-- The logs that the protocols allow, when `ok` admits each item, with the phase every
thread has reached. -/
inductive Traced (ts : Typestate sys Ph) (ok : List (Nat × Item Op V G C L X) → Nat →
    Item Op V G C L X → Prop) : List (Nat × Item Op V G C L X) → (Nat → Ph) → Prop
  | nil : Traced ts ok [] fun _ => ts.idle
  | snoc {log phases t i ph'} : Traced ts ok log phases → ok log t i →
      ts.Advance (phases t) i ph' → Traced ts ok (log ++ [(t, i)]) (Function.update phases t ph')

namespace Traced
variable {ok : List (Nat × Item Op V G C L X) → Nat → Item Op V G C L X → Prop}
  {log : List (Nat × Item Op V G C L X)} {phases : Nat → Ph}

/-- What preserves an invariant of logs and phases step by step. -/
theorem invariant {Inv : List (Nat × Item Op V G C L X) → (Nat → Ph) → Prop}
    (hstart : Inv [] fun _ => ts.idle)
    (hstep : ∀ {log phases t i ph'}, Traced ts ok log phases → Inv log phases → ok log t i →
      ts.Advance (phases t) i ph' → Inv (log ++ [(t, i)]) (Function.update phases t ph'))
    (h : Traced ts ok log phases) : Inv log phases := by
  induction h with
  | nil => exact hstart
  | snoc htr hok hadv ih => exact hstep htr ih hok hadv

/-- Every item of a log is admitted after what precedes it. -/
theorem split (h : Traced ts ok log phases) {before after : List (Nat × Item Op V G C L X)}
    {t : Nat} {i : Item Op V G C L X} (hlog : log = before ++ (t, i) :: after) :
    ∃ phases' ph', Traced ts ok before phases' ∧ ok before t i ∧ ts.Advance (phases' t) i ph' := by
  induction h generalizing after with
  | nil => simp at hlog
  | @snoc log phases u j ph' htr hok hadv ih =>
    cases after using List.reverseRecOn with
    | nil =>
      obtain ⟨rfl, hj⟩ := List.append_inj' hlog rfl
      obtain ⟨rfl, rfl⟩ := Prod.mk.inj (List.singleton_inj.mp hj)
      exact ⟨phases, ph', htr, hok, hadv⟩
    | append_singleton after k =>
      rw [← List.cons_append, ← List.append_assoc] at hlog
      exact ih (List.append_inj' hlog rfl).1

/-- Threads that the run never moves stay idle. -/
theorem idle (h : Traced ts ok log phases) {u : Nat} (hu : ∀ {log t i}, ok log t i → t ≠ u) :
    phases u = ts.idle := by
  induction h with
  | nil => rfl
  | snoc _ hok _ ih => rw [Function.update_of_ne (Ne.symm (hu hok)), ih]

end Traced

end Typestate

/-- The moves whose item `ok` admits after the log so far. -/
def Config.admits (sys : System Op V G C A S L X)
    (ok : List (Nat × Item Op V G C L X) → Nat → Item Op V G C L X → Prop)
    (cfg : Config Op V G C S L X) (t : Nat) (m : Move V G C A X) : Prop :=
  ∀ r ∈ (cfg.threads t).step sys cfg.log.length cfg.shared m, ok cfg.log t r.2.2

instance {sys : System Op V G C A S L X}
    {ok : List (Nat × Item Op V G C L X) → Nat → Item Op V G C L X → Prop}
    [∀ log t i, Decidable (ok log t i)] (cfg : Config Op V G C S L X) (t : Nat)
    (m : Move V G C A X) : Decidable (cfg.admits sys ok t m) :=
  inferInstanceAs (Decidable (∀ r ∈ _, _))

/-- Every item of the log was admitted after what precedes it. -/
theorem Config.Reach.admitted {sys : System Op V G C A S L X}
    {ok : List (Nat × Item Op V G C L X) → Nat → Item Op V G C L X → Prop} {main : G} {s : S}
    {l : L} {cfg : Config Op V G C S L X}
    (h : Reach sys (Config.admits sys ok) (Config.init main s l) cfg)
    {before after : List (Nat × Item Op V G C L X)} {t : Nat} {i : Item Op V G C L X}
    (hlog : cfg.log = before ++ (t, i) :: after) : ok before t i := by
  induction h generalizing after with
  | init => simp [Config.init] at hlog
  | @step cfg cfg' u m _ hok hs ih =>
    simp only [Config.step, Option.map_eq_some_iff] at hs
    obtain ⟨⟨s', th, j⟩, hth, rfl⟩ := hs
    cases after using List.reverseRecOn with
    | nil =>
      obtain ⟨hcfg, hj⟩ := List.append_inj' hlog rfl
      obtain ⟨rfl, rfl⟩ := Prod.mk.inj (List.singleton_inj.mp hj)
      exact hcfg ▸ hok _ hth
    | append_singleton after k =>
      rw [← List.cons_append, ← List.append_assoc] at hlog
      exact ih (List.append_inj' hlog rfl).1

/-- A run leaves a log that the protocols allow. -/
theorem Config.Reach.traced [Nonempty V] {sys : System Op V G C A S L X} (ts : Typestate sys Ph)
    {ok : List (Nat × Item Op V G C L X) → Nat → Item Op V G C L X → Prop} {main : G} {s : S}
    {l : L} {cfg : Config Op V G C S L X}
    (h : Reach sys (Config.admits sys ok) (Config.init main s l) cfg) :
    ∃ phases, ts.Traced ok cfg.log phases ∧ ∀ t, ts.Phased (phases t) (cfg.threads t).stack := by
  induction h with
  | init => exact ⟨_, .nil, fun _ => .bottom⟩
  | @step cfg cfg' t m _ hok hs ih =>
    obtain ⟨phases, htr, hph⟩ := ih
    simp only [Config.step, Option.map_eq_some_iff] at hs
    obtain ⟨⟨s', th, i⟩, hth, rfl⟩ := hs
    obtain ⟨ph', hadv, hnew⟩ := Typestate.advance_of_stepped (Thread.stepped_of_step hth) (hph t)
    refine ⟨Function.update phases t ph', .snoc htr (hok _ hth) hadv, fun u => ?_⟩
    by_cases hu : u = t
    · subst hu
      simpa using hnew
    · simpa [Function.update_of_ne hu] using hph u

end P101Filesystem.Effect
