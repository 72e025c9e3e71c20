import P101Filesystem.Effect.Prompt
import P101Filesystem.Effect.Separation

/-!
# Runs that imitate runs

One run imitates another, thread by thread. A thread makes the same moves as its model, or it
lags behind while the model goes through a stretch that leaves the shared state alone, and
comes to the same end in one go when the model is through. What it reports is then the same.
-/
namespace P101Filesystem.Effect

variable {Op V G C A S L X B : Type}

/-- The model runs as `legal` admits, the imitation as `legal'` does. `Lags th th' bs`: the
model is at `th`, the imitation still at `th'`, and the model has reported `bs` meanwhile. -/
structure Imitation (sys : System Op V G C A S L X)
    (legal legal' : Config Op V G C S L X → Nat → Move V G C A X → Prop)
    (cfg₀ : Config Op V G C S L X) (out : Report Op V C L B) where
  Lags : Thread Op V G C L → Thread Op V G C L → List B → Prop
  alike : ∀ {cfg cfg' t m s th i}, Config.Reach sys legal cfg₀ cfg →
    Config.Reach sys legal' cfg₀ cfg' → legal cfg t m →
    (cfg'.threads t).unnumbered = (cfg.threads t).unnumbered →
    Thread.Stepped sys cfg.log.length cfg.shared (cfg.threads t) m s th i →
    legal' cfg' t m ∨ s = cfg.shared ∧ Lags th (cfg'.threads t) (i.report out)
  lagging : ∀ {cfg cfg' : Config Op V G C S L X} {t m s th i bs},
    Config.Reach sys legal' cfg₀ cfg' → cfg'.shared = cfg.shared →
    Lags (cfg.threads t) (cfg'.threads t) bs →
    Thread.Stepped sys cfg.log.length cfg.shared (cfg.threads t) m s th i →
    (s = cfg.shared ∧ Lags th (cfg'.threads t) (bs ++ i.report out)) ∨
      ∃ th' cfg'', Taken sys legal' out t cfg' s th' (bs ++ i.report out) cfg'' ∧
        th'.unnumbered = th.unnumbered

namespace Imitation
variable {sys : System Op V G C A S L X}
  {legal legal' : Config Op V G C S L X → Nat → Move V G C A X → Prop}
  {cfg₀ : Config Op V G C S L X} {out : Report Op V C L B}

/-- How one thread stands to its model. -/
inductive Follows (im : Imitation sys legal legal' cfg₀ out) :
    Thread Op V G C L → Thread Op V G C L → List B → Prop
  | alike {th th'} : th'.unnumbered = th.unnumbered → Follows im th th' []
  | lags {th th' bs} : im.Lags th th' bs → Follows im th th' bs

structure Matches (im : Imitation sys legal legal' cfg₀ out) (cfg cfg' : Config Op V G C S L X) :
    Prop where
  reach : Config.Reach sys legal' cfg₀ cfg'
  shared : cfg'.shared = cfg.shared
  threads : ∀ t, ∃ bs, im.Follows (cfg.threads t) (cfg'.threads t) bs ∧
    reports out cfg.log t = reports out cfg'.log t ++ bs

variable {im : Imitation sys legal legal' cfg₀ out} {cfg cfg' cfg'' : Config Op V G C S L X}
  {t : Nat} {s : S} {th th' : Thread Op V G C L} {i : Item Op V G C L X} {bs cs bs' : List B}

/-- The model takes a step and the imitation some, or none. -/
theorem Matches.step (h : im.Matches cfg cfg') (ht : Taken sys legal' out t cfg' s th' cs cfg'')
    (hbs : reports out cfg.log t = reports out cfg'.log t ++ bs) (hf : im.Follows th th' bs')
    (hout : bs ++ i.report out = cs ++ bs') :
    im.Matches ⟨s, Function.update cfg.threads t th, cfg.log ++ [(t, i)]⟩ cfg'' where
  reach := ht.reach h.reach
  shared := ht.shared
  threads := by
    intro u
    simp only [ht.threads, ht.reports, reports_item]
    by_cases hu : u = t
    · subst hu
      refine ⟨bs', by simpa using hf, ?_⟩
      simp [hbs, hout]
    · obtain ⟨bs, hfu, hbsu⟩ := h.threads u
      refine ⟨bs, by simpa [Function.update_of_ne hu] using hfu, ?_⟩
      simp [hu, hbsu]

theorem report_alike {i i' : Item Op V G C L X} (h : i'.unnumbered = i.unnumbered) :
    i'.report out = i.report out := by
  have hsame : ∀ j : Item Op V G C L X, j.report out = j.unnumbered.report out := by
    intro j
    cases j <;> rfl
  rw [hsame i', hsame i, h]

/-- Every run has its imitation. -/
theorem run (im : Imitation sys legal legal' cfg₀ out) (h : Config.Reach sys legal cfg₀ cfg) :
    ∃ cfg', im.Matches cfg cfg' := by
  induction h with
  | init => exact ⟨cfg₀, .init, rfl, fun t => ⟨[], .alike rfl, by simp⟩⟩
  | @step cfg cfg₁ t m hr hl hs ih =>
    obtain ⟨cfg', hm⟩ := ih
    obtain ⟨bs, hf, hbs⟩ := hm.threads t
    simp only [Config.step, Option.map_eq_some_iff] at hs
    obtain ⟨⟨s, th, i⟩, hs, rfl⟩ := hs
    have hst := Thread.stepped_of_step hs
    cases hf with
    | alike halike =>
      rcases im.alike hr hm.reach hl halike hst with hl' | ⟨hshared, hlags⟩
      · have hstep := step_alike sys halike cfg'.log.length cfg.log.length cfg.shared m
        rw [hs, Option.map_some, ← hm.shared] at hstep
        obtain ⟨⟨s', th', i'⟩, hs', hsame⟩ := Option.map_eq_some_iff.mp hstep
        obtain ⟨rfl, hsame⟩ := Prod.mk.inj hsame
        obtain ⟨hthread, hitem⟩ := Prod.mk.inj hsame
        refine ⟨_, hm.step (.of_step hl' (Thread.stepped_of_step hs')) hbs (.alike hthread) ?_⟩
        simp [report_alike hitem]
      · subst hshared
        exact ⟨cfg', hm.step (.refl hm.shared) hbs (.lags hlags) rfl⟩
    | lags hlags =>
      rcases im.lagging hm.reach hm.shared hlags hst with ⟨rfl, hlags'⟩ | ⟨th', cfg'', ht, halike⟩
      · exact ⟨cfg', hm.step (.refl hm.shared) hbs (.lags hlags') rfl⟩
      · exact ⟨cfg'', hm.step ht hbs (.alike halike) (List.append_nil _).symm⟩

end Imitation

end P101Filesystem.Effect
