import P101Filesystem.Effect.Machine

/-!
# Every call runs its own code

Whatever the outside parties and the other threads do, the events a call has gone
through are a run of that entry point's program, linked by its thread's local state.
Facts about one program's runs therefore hold for all of its calls, at any depth.
-/
namespace P101Filesystem.Effect

variable {Op V G C A S L X : Type}

/-- An operation of the library itself answers as `run` says. -/
def System.Answers (sys : System Op V G C A S L X) (e : Event Op V L) : Prop :=
  sys.party e.op = none → ∃ a s s', sys.run e.op a s e.before = some (e.answer, s', e.after)

structure Activation.Sound (sys : System Op V G C A S L X) (act : Activation Op V C L)
    (rest : Program Op V V) (now : L) : Prop where
  follows : Follows (sys.code act.entry act.base) act.past rest
  chained : Chained act.start act.past now
  answers : ∀ e ∈ act.past, sys.Answers e

/-- The frame under an outside party is the code that handed control to it, or the
party that invoked it. -/
def Awaits (sys : System Op V G C A S L X) (g : G) : Frame Op V G C L → Prop
  | .outside g' _ _ => sys.invokes g' g = true
  | .code _ _ (.perform op _) => sys.party op = some g
  | .code _ _ (.done _) => False

def Permitted (sys : System Op V G C A S L X) (c : C) : Frame Op V G C L → Prop
  | .outside g _ _ => sys.permits g c = true
  | .code _ _ _ => False

/-- Read from the top; `now` is the local state the top frame sees. -/
def StackSound (sys : System Op V G C A S L X) : L → List (Frame Op V G C L) → Prop
  | _, [] => True
  | _, .outside g _ since :: below => (∀ f ∈ below.head?, Awaits sys g f) ∧ StackSound sys since below
  | now, .code _ act rest :: below => act.Sound sys rest now ∧
      (∃ f tail, below = f :: tail ∧ Permitted sys act.entry f) ∧ StackSound sys now below

theorem StackSound.below_permitted {sys : System Op V G C A S L X} {c : C} {now later : L}
    {below : List (Frame Op V G C L)} (hb : ∃ f tail, below = f :: tail ∧ Permitted sys c f)
    (h : StackSound sys now below) : StackSound sys later below := by
  obtain ⟨f, tail, rfl, hf⟩ := hb
  cases f with
  | outside g heard since => exact h
  | code id act rest => exact hf.elim

theorem Activation.Sound.push {sys : System Op V G C A S L X} {act : Activation Op V C L}
    {op : Op} {next : V → Program Op V V} {now : L} (h : act.Sound sys (.perform op next) now)
    {e : Event Op V L} (ho : e.op = op) (hb : e.before = now) (ha : sys.Answers e) :
    (act.push e).Sound sys (next e.answer) e.after where
  follows := h.follows.snoc ho
  chained := h.chained.snoc hb
  answers := by
    intro d hd
    rcases List.mem_append.mp hd with hd | hd
    · exact h.answers d hd
    · rw [List.mem_singleton] at hd
      exact hd ▸ ha

theorem Thread.Stepped.sound {sys : System Op V G C A S L X} {fresh : Nat} {s s' : S}
    {th th' : Thread Op V G C L} {m : Move V G C A X} {i : Item Op V G C L X}
    (h : Thread.Stepped sys fresh s th m s' th' i) (hs : StackSound sys th.loc th.stack) :
    StackSound sys th'.loc th'.stack := by
  cases h with
  | call hp he =>
    refine ⟨⟨Follows.nil_iff.mpr rfl, rfl, by simp⟩, ⟨_, _, rfl, hp⟩, hs⟩
  | invoke hi => exact ⟨by simpa [Awaits] using hi, hs⟩
  | act ha => exact hs
  | back =>
    obtain ⟨hw, hact, hbelow, hrest⟩ := hs
    have hparty := hw _ rfl
    exact ⟨hact.push rfl rfl fun hn => (by simp [Awaits, hn] at hparty), hbelow,
      hrest.below_permitted hbelow⟩
  | backOutside => exact hs.2
  | op hp hr =>
    obtain ⟨hact, hbelow, hrest⟩ := hs
    exact ⟨hact.push rfl rfl fun _ => ⟨_, _, _, hr⟩, hbelow, hrest.below_permitted hbelow⟩
  | hand hp => exact ⟨by simpa [Awaits] using hp, hs⟩
  | exit => exact hs.2.2

namespace Config

/-- The log's call `id` of thread `t` has the events `act.past` behind it: it is still on
the stack, or it has returned. -/
def Activated (cfg : Config Op V G C S L X) (t id : Nat) (act : Activation Op V C L) : Prop :=
  (∃ rest, Frame.code id act rest ∈ (cfg.threads t).stack) ∨ ∃ v, (t, Item.exit id act v) ∈ cfg.log

structure Accounted (sys : System Op V G C A S L X) (cfg : Config Op V G C S L X) : Prop where
  sound : ∀ t, StackSound sys (cfg.threads t).loc (cfg.threads t).stack
  returned : ∀ t id act v, (t, Item.exit id act v) ∈ cfg.log → ∃ now, act.Sound sys (.done v) now
  called : ∀ t id c base, (t, Item.call id c base) ∈ cfg.log →
    ∃ act, cfg.Activated t id act ∧ act.entry = c ∧ act.base = base
  happened : ∀ t id e, (t, Item.event id e) ∈ cfg.log → ∃ act, cfg.Activated t id act ∧ e ∈ act.past

theorem accounted_init (sys : System Op V G C A S L X) (main : G) (s : S) (l : L) :
    Accounted sys (init main s l : Config Op V G C S L X) where
  sound := fun t => ⟨by simp, trivial⟩
  returned := by simp [init]
  called := by simp [init]
  happened := by simp [init]

/-- One step keeps what an earlier activation had done. -/
theorem activated_step {sys : System Op V G C A S L X} {fresh : Nat}
    {cfg : Config Op V G C S L X} {s : S} {t u id : Nat} {th : Thread Op V G C L}
    {m : Move V G C A X} {i : Item Op V G C L X} {act : Activation Op V C L}
    (h : Thread.Stepped sys fresh cfg.shared (cfg.threads t) m s th i)
    (ha : cfg.Activated u id act) :
    ∃ act', Activated (⟨s, Function.update cfg.threads t th, cfg.log ++ [(t, i)]⟩ :
        Config Op V G C S L X) u id act' ∧
      act'.entry = act.entry ∧ act'.base = act.base ∧ ∀ e ∈ act.past, e ∈ act'.past := by
  rcases ha with ⟨rest, hmem⟩ | ⟨v, hmem⟩
  · by_cases htu : u = t
    · subst htu
      have keep : Frame.code id act rest ∈ th.stack → ∃ act', Activated
          (⟨s, Function.update cfg.threads u th, cfg.log ++ [(u, i)]⟩ : Config Op V G C S L X)
          u id act' ∧ act'.entry = act.entry ∧ act'.base = act.base ∧
          ∀ e ∈ act.past, e ∈ act'.past := fun hin =>
        ⟨act, .inl ⟨rest, by simpa using hin⟩, rfl, rfl, fun _ he => he⟩
      generalize hth : cfg.threads u = old at h hmem
      cases h with
      | call | invoke | act | hand =>
        apply keep
        simp only [List.mem_cons] at hmem ⊢
        tauto
      | backOutside =>
        apply keep
        simp only [List.mem_cons, reduceCtorEq, false_or] at hmem ⊢
        exact hmem
      | @back l g heard since id' act₀ op next below v a =>
        simp only [List.mem_cons, reduceCtorEq, false_or, Frame.code.injEq] at hmem
        rcases hmem with ⟨rfl, rfl, rfl⟩ | hmem
        · refine ⟨act.push _, .inl ⟨next v, by simp; left; rfl⟩, rfl, rfl, fun e he => ?_⟩
          simp [he]
        · exact keep (by simp [hmem])
      | @op l id' act₀ op next below a v s' l' hp hr =>
        simp only [List.mem_cons, Frame.code.injEq] at hmem
        rcases hmem with ⟨rfl, rfl, rfl⟩ | hmem
        · refine ⟨act.push _, .inl ⟨next v, by simp; left; rfl⟩, rfl, rfl, fun e he => ?_⟩
          simp [he]
        · exact keep (by simp [hmem])
      | @exit l id' act₀ v g heard since below =>
        simp only [List.mem_cons, Frame.code.injEq, reduceCtorEq, false_or] at hmem
        rcases hmem with ⟨rfl, rfl, rfl⟩ | hmem
        · exact ⟨act, .inr ⟨v, by simp⟩, rfl, rfl, fun _ he => he⟩
        · exact keep (by simp [hmem])
    · exact ⟨act, .inl ⟨rest, by simpa [Function.update_of_ne htu] using hmem⟩, rfl, rfl,
        fun _ he => he⟩
  · exact ⟨act, .inr ⟨v, by simp [hmem]⟩, rfl, rfl, fun _ he => he⟩

theorem Accounted.step {sys : System Op V G C A S L X} {cfg cfg' : Config Op V G C S L X}
    {t : Nat} {m : Move V G C A X} (h : Accounted sys cfg) (hs : cfg.step sys t m = some cfg') :
    Accounted sys cfg' := by
  obtain ⟨s, th, i, hst, rfl⟩ := stepped hs
  have hthread := h.sound t
  constructor
  · intro u
    by_cases htu : u = t
    · subst htu
      simpa using hst.sound hthread
    · simpa [Function.update_of_ne htu] using h.sound u
  · intro u id act v hmem
    simp only [List.mem_append, List.mem_singleton, Prod.mk.injEq] at hmem
    rcases hmem with hmem | ⟨rfl, rfl⟩
    · exact h.returned u id act v hmem
    · generalize hth : cfg.threads u = old at hst hthread
      cases hst with
      | exit => exact ⟨_, hthread.1⟩
  · intro u id c base hmem
    simp only [List.mem_append, List.mem_singleton, Prod.mk.injEq] at hmem
    rcases hmem with hmem | ⟨rfl, rfl⟩
    · obtain ⟨act, hact, rfl, rfl⟩ := h.called u id c base hmem
      obtain ⟨act', hact', he, hb, -⟩ := activated_step hst hact
      exact ⟨act', hact', he, hb⟩
    · generalize hth : cfg.threads u = old at hst
      cases hst with
      | call hp he =>
        exact ⟨⟨c, base, _, []⟩, .inl ⟨sys.code c base, by simp; left; rfl⟩, rfl, rfl⟩
  · intro u id e hmem
    simp only [List.mem_append, List.mem_singleton, Prod.mk.injEq] at hmem
    rcases hmem with hmem | ⟨rfl, rfl⟩
    · obtain ⟨act, hact, he⟩ := h.happened u id e hmem
      obtain ⟨act', hact', -, -, hp⟩ := activated_step hst hact
      exact ⟨act', hact', hp e he⟩
    · generalize hth : cfg.threads u = old at hst
      cases hst with
      | @back l g heard since id' act₀ op next below v a =>
        exact ⟨act₀.push _, .inl ⟨next v, by simp; left; rfl⟩, by simp⟩
      | @op l id' act₀ op next below a v s' l' hp hr =>
        exact ⟨act₀.push _, .inl ⟨next v, by simp; left; rfl⟩, by simp⟩

theorem Reach.accounted {sys : System Op V G C A S L X} {legal} {main : G} {s : S} {l : L}
    {cfg : Config Op V G C S L X} (h : Reach sys legal (Config.init main s l) cfg) :
    Accounted sys cfg := by
  induction h with
  | init => exact accounted_init sys main s l
  | step _ _ hs ih => exact ih.step hs

/-- An activation on a stack or in the log has gone through a run of its own program. -/
theorem Accounted.activation {sys : System Op V G C A S L X} {cfg : Config Op V G C S L X}
    (h : Accounted sys cfg) {t id : Nat} {act : Activation Op V C L}
    (ha : cfg.Activated t id act) : ∃ rest now, act.Sound sys rest now := by
  rcases ha with ⟨rest, hmem⟩ | ⟨v, hmem⟩
  · have hs := h.sound t
    generalize (cfg.threads t).loc = now at hs
    generalize (cfg.threads t).stack = stack at hs hmem
    induction stack generalizing now with
    | nil => simp at hmem
    | cons f below ih =>
      cases f with
      | outside g heard since =>
        simp only [List.mem_cons, reduceCtorEq, false_or] at hmem
        exact ih since hs.2 hmem
      | code id' act' rest' =>
        simp only [List.mem_cons, Frame.code.injEq] at hmem
        rcases hmem with ⟨rfl, rfl, rfl⟩ | hmem
        · exact ⟨rest, now, hs.1⟩
        · exact ih now hs.2.2 hmem
  · obtain ⟨now, hs⟩ := h.returned t id act v hmem
    exact ⟨.done v, now, hs⟩

end Config

end P101Filesystem.Effect
