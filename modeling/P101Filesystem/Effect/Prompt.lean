import P101Filesystem.Effect.Observation

/-!
# Calls that are answered promptly

Code runs to its end when every party it hands control to answers at once. What it reports on
the way and where it ends is a relation on programs, with one rule for each kind of operation;
the machine takes a thread on along it, while the others stand still.
-/
namespace P101Filesystem.Effect

variable {Op V G C A S L X B : Type}

/-- What is reported of calls, of their operations and of their returns. -/
structure Report (Op V C L B : Type) where
  called : C → List B
  event : Event Op V L → List B
  returned : C → V → List B

def Item.report (out : Report Op V C L B) : Item Op V G C L X → List B
  | .call _ c _ => out.called c
  | .event _ e => out.event e
  | .exit _ done v => out.returned done.entry v
  | _ => []

/-- What is reported of thread `t`, in order. -/
def reports (out : Report Op V C L B) (log : List (Nat × Item Op V G C L X)) (t : Nat) : List B :=
  (ofThread t log).flatMap (Item.report out)

theorem reports_item {t : Nat} {i : Item Op V G C L X} (out : Report Op V C L B)
    (log : List (Nat × Item Op V G C L X)) (u : Nat) :
    reports out (log ++ [(t, i)]) u = reports out log u ++ if u = t then i.report out else [] := by
  by_cases hu : u = t
  · subst hu
    simp [reports, ofThread]
  · simp [reports, ofThread, Ne.symm hu, hu]

/-- From `s` and `l` the program may return `v` in `s'` and `l'`, having reported `bs`, with
answers of the surroundings that `adm` admits. -/
inductive Prompt (sys : System Op V G C A S L X) (adm : Op → A → Prop)
    (out : Report Op V C L B) : Program Op V V → S → L → List B → V → S → L → Prop
  | done {v s l} : Prompt sys adm out (.done v) s l [] v s l
  | op {o next a s l w s₁ l₁ bs v s' l'} : sys.party o = none → adm o a →
      sys.run o a s l = some (w, s₁, l₁) → Prompt sys adm out (next w) s₁ l₁ bs v s' l' →
      Prompt sys adm out (.perform o next) s l (out.event ⟨o, [], w, l, l₁⟩ ++ bs) v s' l'
  | answered {o next g s l bs v s' l'} (w : V) (a : A) : sys.party o = some g →
      Prompt sys adm out (next w) (sys.disturb a s l).1 (sys.disturb a s l).2 bs v s' l' →
      Prompt sys adm out (.perform o next) s l (out.event ⟨o, [], w, l, (sys.disturb a s l).2⟩ ++ bs)
        v s' l'

/-- A run in which thread `t` is taken on and reports `bs`. -/
structure Taken (sys : System Op V G C A S L X)
    (legal : Config Op V G C S L X → Nat → Move V G C A X → Prop) (out : Report Op V C L B)
    (t : Nat) (cfg : Config Op V G C S L X) (s : S) (th : Thread Op V G C L) (bs : List B)
    (cfg' : Config Op V G C S L X) : Prop where
  reach : ∀ {cfg₀}, Config.Reach sys legal cfg₀ cfg → Config.Reach sys legal cfg₀ cfg'
  shared : cfg'.shared = s
  threads : cfg'.threads = Function.update cfg.threads t th
  reports : ∀ u, Effect.reports out cfg'.log u =
    Effect.reports out cfg.log u ++ if u = t then bs else []

variable {sys : System Op V G C A S L X}
  {legal : Config Op V G C S L X → Nat → Move V G C A X → Prop} {out : Report Op V C L B}
  {t : Nat} {cfg cfg' : Config Op V G C S L X} {s : S} {th : Thread Op V G C L} {bs : List B}
  {m : Move V G C A X} {i : Item Op V G C L X}

theorem Taken.of_step (hl : legal cfg t m)
    (h : Thread.Stepped sys cfg.log.length cfg.shared (cfg.threads t) m s th i) :
    Taken sys legal out t cfg s th (i.report out)
      ⟨s, Function.update cfg.threads t th, cfg.log ++ [(t, i)]⟩ where
  reach := fun hr => .step hr hl (by simp [Config.step, Thread.step_of_stepped h])
  shared := rfl
  threads := rfl
  reports := reports_item out cfg.log

theorem Taken.refl (h : cfg.shared = s) :
    Taken sys legal out t cfg s (cfg.threads t) [] cfg where
  reach := fun hr => hr
  shared := h
  threads := (Function.update_eq_self t cfg.threads).symm
  reports := fun u => by simp

theorem Taken.trans {s' : S} {th' : Thread Op V G C L} {cs : List B}
    {cfg'' : Config Op V G C S L X} (h : Taken sys legal out t cfg s th bs cfg')
    (h' : Taken sys legal out t cfg' s' th' cs cfg'') :
    Taken sys legal out t cfg s' th' (bs ++ cs) cfg'' where
  reach := fun hr => h'.reach (h.reach hr)
  shared := h'.shared
  threads := by rw [h'.threads, h.threads, Function.update_idem]
  reports := by
    intro u
    rw [h'.reports, h.reports]
    by_cases hu : u = t <;> simp [hu]

/-- A thread whose code may run to its end so returns so. -/
theorem Prompt.taken {adm : Op → A → Prop} {p : Program Op V V} {l l' : L} {v : V} {s' : S}
    {id : Nat} {act : Activation Op V C L} {g : G} {heard : List V} {since : L}
    {below : List (Frame Op V G C L)} (h : Prompt sys adm out p s l bs v s' l')
    (hop : ∀ {cfg act o next below a},
      (cfg.threads t).stack = .code id act (.perform o next) :: below → adm o a → legal cfg t (.op a))
    (hhand : ∀ cfg, legal cfg t .hand) (hback : ∀ cfg v a, legal cfg t (.back v a))
    (hexit : ∀ cfg, legal cfg t .exit) (hs : cfg.shared = s)
    (hth : cfg.threads t = ⟨l, .code id act p :: .outside g heard since :: below⟩) :
    ∃ cfg', Taken sys legal out t cfg (sys.leave act.entry act.base s')
      ⟨l', .outside g (heard ++ [v]) since :: below⟩ (bs ++ out.returned act.entry v) cfg' := by
  induction h generalizing cfg act with
  | @done v s l =>
    rw [List.nil_append]
    refine ⟨_, .of_step (m := .exit) (i := .exit id act v) (hexit cfg) ?_⟩
    rw [hth, hs]
    exact .exit
  | @op o next a s l w s₁ l₁ bs v s' l' hp ha hr _ ih =>
    have hstack : (cfg.threads t).stack = .code id act (.perform o next) ::
        .outside g heard since :: below := by rw [hth]
    have htaken : Taken sys legal out t cfg s₁
        ⟨l₁, .code id (act.push ⟨o, [], w, l, l₁⟩) (next w) :: .outside g heard since :: below⟩
        (out.event ⟨o, [], w, l, l₁⟩) _ :=
      .of_step (m := .op a) (i := .event id ⟨o, [], w, l, l₁⟩) (hop hstack ha) (by
        rw [hth, hs]
        exact .op hp hr)
    obtain ⟨cfg', hrest⟩ := ih htaken.shared (by rw [htaken.threads, Function.update_self])
    rw [List.append_assoc]
    exact ⟨cfg', htaken.trans hrest⟩
  | @answered o next g' s l bs v s' l' w a hp _ ih =>
    have hhanded : Taken sys legal out t cfg s
        ⟨l, .outside g' [] l :: .code id act (.perform o next) :: .outside g heard since :: below⟩
        [] _ := .of_step (m := .hand) (i := .hand id o) (hhand cfg) (by
        rw [hth, hs]
        exact .hand hp)
    generalize hcfg₁ : Config.mk s _ _ = cfg₁ at hhanded
    have hback' : Taken sys legal out t cfg₁ (sys.disturb a s l).1
        ⟨(sys.disturb a s l).2, .code id (act.push ⟨o, [], w, l, (sys.disturb a s l).2⟩) (next w) ::
          .outside g heard since :: below⟩ (out.event ⟨o, [], w, l, (sys.disturb a s l).2⟩) _ :=
      .of_step (m := .back w a) (i := .event id ⟨o, [], w, l, (sys.disturb a s l).2⟩)
        (hback cfg₁ w a) (by
        rw [hhanded.threads, hhanded.shared, Function.update_self]
        exact .back)
    obtain ⟨cfg', hrest⟩ := ih hback'.shared (by rw [hback'.threads, Function.update_self])
    rw [List.append_assoc]
    exact ⟨cfg', (hhanded.trans hback').trans hrest⟩

end P101Filesystem.Effect
