import P101Filesystem.Effect.Observation

/-!
# Driving one thread

The other direction of an observation: from a reachable configuration one thread is taken
on, move by move, while the others stand still, so that it shows given labels. Stretches of
code that show nothing are driven by induction on the program.
-/
namespace P101Filesystem.Effect

variable {Op V G C A S L X Lb : Type}

/-- Thread `t` goes on from `cfg` to `cfg'`, where it has this stack, and shows `labels`. -/
structure Drives (sys : System Op V G C A S L X)
    (observe : List (Nat × Item Op V G C L X) → Item Op V G C L X → Option Lb) (t : Nat)
    (cfg cfg' : Config Op V G C S L X) (stack : List (Frame Op V G C L)) (labels : List Lb) :
    Prop where
  reach : ∀ {cfg₀}, Config.Reach sys (fun _ _ _ => True) cfg₀ cfg →
    Config.Reach sys (fun _ _ _ => True) cfg₀ cfg'
  stack : (cfg'.threads t).stack = stack
  others : ∀ u, u ≠ t → cfg'.threads u = cfg.threads u
  shows : Effect.shows observe cfg'.log = Effect.shows observe cfg.log ++ labels.map (t, ·)

variable {sys : System Op V G C A S L X}
  {observe : List (Nat × Item Op V G C L X) → Item Op V G C L X → Option Lb} {t : Nat}
  {cfg cfg' cfg'' : Config Op V G C S L X} {below : List (Frame Op V G C L)}

namespace Drives

theorem refl {stack : List (Frame Op V G C L)} (h : (cfg.threads t).stack = stack) :
    Drives sys observe t cfg cfg stack [] where
  reach := fun hr => hr
  stack := h
  others := fun _ _ => rfl
  shows := by simp

theorem trans {stack stack' : List (Frame Op V G C L)} {labels labels' : List Lb}
    (h : Drives sys observe t cfg cfg' stack labels)
    (h' : Drives sys observe t cfg' cfg'' stack' labels') :
    Drives sys observe t cfg cfg'' stack' (labels ++ labels') where
  reach := fun hr => h'.reach (h.reach hr)
  stack := h'.stack
  others := fun u hu => (h'.others u hu).trans (h.others u hu)
  shows := by simp [h'.shows, h.shows]

theorem of_step {m : Move V G C A X} {s : S} {r : Thread Op V G C L} {i : Item Op V G C L X}
    (h : Thread.Stepped sys cfg.log.length cfg.shared (cfg.threads t) m s r i) :
    Drives sys observe t cfg ⟨s, Function.update cfg.threads t r, cfg.log ++ [(t, i)]⟩ r.stack
      (observe cfg.log i).toList where
  reach := fun hr =>
    .step (t := t) (m := m) hr trivial (by simp [Config.step, Thread.step_of_stepped h])
  stack := by simp
  others := fun u hu => by simp [Function.update_of_ne hu]
  shows := shows_snoc

end Drives

/-! ## One move -/

section
variable (sys : System Op V G C A S L X)
  (observe : List (Nat × Item Op V G C L X) → Item Op V G C L X → Option Lb)
variable {id : Nat} {act : Activation Op V C L} {o : Op} {next : V → Program Op V V} {g : G}
  {heard : List V} {since : L} {v : V}

theorem drives_op (hstack : (cfg.threads t).stack = .code id act (.perform o next) :: below)
    (hp : sys.party o = none) {a : A} {s' : S} {l' : L}
    (hr : sys.run o a cfg.shared (cfg.threads t).loc = some (v, s', l')) :
    ∃ cfg' l, Drives sys observe t cfg cfg' (.code id (act.push ⟨o, [], v, l, l'⟩) (next v) :: below)
      (observe cfg.log (.event id ⟨o, [], v, l, l'⟩)).toList := by
  refine ⟨_, (cfg.threads t).loc, .of_step (m := .op a) (s := s') (r := ⟨l', _⟩) ?_⟩
  generalize cfg.threads t = th at hstack hr
  obtain ⟨l, stack⟩ := th
  obtain rfl := hstack
  exact .op hp hr

theorem drives_hand (hstack : (cfg.threads t).stack = .code id act (.perform o next) :: below)
    (hp : sys.party o = some g) :
    ∃ cfg' l, Drives sys observe t cfg cfg'
      (.outside g [] l :: .code id act (.perform o next) :: below)
      (observe cfg.log (.hand id o)).toList := by
  refine ⟨_, (cfg.threads t).loc,
    .of_step (m := .hand) (s := cfg.shared) (r := ⟨(cfg.threads t).loc, _⟩) ?_⟩
  generalize cfg.threads t = th at hstack
  obtain ⟨l, stack⟩ := th
  obtain rfl := hstack
  exact .hand hp

theorem drives_back
    (hstack : (cfg.threads t).stack =
      .outside g heard since :: .code id act (.perform o next) :: below)
    (v : V) (a : A) :
    ∃ cfg' l, Drives sys observe t cfg cfg'
      (.code id (act.push ⟨o, heard, v, since, l⟩) (next v) :: below)
      (observe cfg.log (.event id ⟨o, heard, v, since, l⟩)).toList := by
  refine ⟨_, (sys.disturb a cfg.shared (cfg.threads t).loc).2, .of_step (m := .back v a)
    (s := (sys.disturb a cfg.shared (cfg.threads t).loc).1)
    (r := ⟨(sys.disturb a cfg.shared (cfg.threads t).loc).2, _⟩) ?_⟩
  generalize cfg.threads t = th at hstack
  obtain ⟨l, stack⟩ := th
  obtain rfl := hstack
  exact .back

theorem drives_backOutside {g' : G} {heard' : List V} {since' : L}
    (hstack : (cfg.threads t).stack = .outside g' heard' since' :: .outside g heard since :: below)
    (v : V) (a : A) :
    ∃ cfg', Drives sys observe t cfg cfg' (.outside g (heard ++ [v]) since :: below)
      (observe cfg.log (.returned v)).toList := by
  refine ⟨_, .of_step (m := .back v a) (s := (sys.disturb a cfg.shared (cfg.threads t).loc).1)
    (r := ⟨(sys.disturb a cfg.shared (cfg.threads t).loc).2, _⟩) ?_⟩
  generalize cfg.threads t = th at hstack
  obtain ⟨l, stack⟩ := th
  obtain rfl := hstack
  exact .backOutside

theorem drives_exit
    (hstack : (cfg.threads t).stack = .code id act (.done v) :: .outside g heard since :: below) :
    ∃ cfg', Drives sys observe t cfg cfg' (.outside g (heard ++ [v]) since :: below)
      (observe cfg.log (.exit id act v)).toList := by
  refine ⟨_, .of_step (m := .exit) (s := sys.leave act.entry act.base cfg.shared)
    (r := ⟨(cfg.threads t).loc, _⟩) ?_⟩
  generalize cfg.threads t = th at hstack
  obtain ⟨l, stack⟩ := th
  obtain rfl := hstack
  exact .exit

theorem drives_call (hstack : (cfg.threads t).stack = .outside g heard since :: below) {c : C}
    {base : V} {a : A} {s' : S} (hp : sys.permits g c = true)
    (he : sys.enter c base a (sys.disturb a cfg.shared (cfg.threads t).loc).1 = some s') :
    ∃ cfg' l, Drives sys observe t cfg cfg'
      (.code cfg.log.length ⟨c, base, l, []⟩ (sys.code c base) :: .outside g heard since :: below)
      (observe cfg.log (.call cfg.log.length c base)).toList := by
  refine ⟨_, (sys.disturb a cfg.shared (cfg.threads t).loc).2, .of_step (m := .call c base a)
    (s := s') (r := ⟨(sys.disturb a cfg.shared (cfg.threads t).loc).2, _⟩) ?_⟩
  generalize cfg.threads t = th at hstack he
  obtain ⟨l, stack⟩ := th
  obtain rfl := hstack
  exact .call hp he

theorem drives_invoke {g' : G} (hstack : (cfg.threads t).stack = .outside g heard since :: below)
    (hi : sys.invokes g g' = true) (a : A) :
    ∃ cfg' l, Drives sys observe t cfg cfg' (.outside g' [] l :: .outside g heard since :: below)
      (observe cfg.log (.invoke g')).toList := by
  refine ⟨_, (sys.disturb a cfg.shared (cfg.threads t).loc).2, .of_step (m := .invoke g' a)
    (s := (sys.disturb a cfg.shared (cfg.threads t).loc).1)
    (r := ⟨(sys.disturb a cfg.shared (cfg.threads t).loc).2, _⟩) ?_⟩
  generalize cfg.threads t = th at hstack
  obtain ⟨l, stack⟩ := th
  obtain rfl := hstack
  exact .invoke hi

theorem drives_act {x : X} (hstack : (cfg.threads t).stack = .outside g heard since :: below)
    (ha : sys.acts g x = true) (a : A) :
    ∃ cfg', Drives sys observe t cfg cfg' (.outside g heard since :: below)
      (observe cfg.log (.act x)).toList := by
  refine ⟨_, .of_step (m := .act x a) (s := (sys.disturb a cfg.shared (cfg.threads t).loc).1)
    (r := ⟨(sys.disturb a cfg.shared (cfg.threads t).loc).2, _⟩) ?_⟩
  generalize cfg.threads t = th at hstack
  obtain ⟨l, stack⟩ := th
  obtain rfl := hstack
  exact .act ha

end

/-! ## Stretches that show nothing -/

/-- A call of thread `t` keeps `Inv`, and shows nothing, until it comes to a `stop`. -/
def Quiet (sys : System Op V G C A S L X)
    (observe : List (Nat × Item Op V G C L X) → Item Op V G C L X → Option Lb)
    (cfg₀ : Config Op V G C S L X) (t id : Nat) (below : List (Frame Op V G C L)) (c : C)
    (Inv : Program Op V V → Prop) (stop : Op → Prop) : Prop :=
  ∀ cfg act o next, Config.Reach sys (fun _ _ _ => True) cfg₀ cfg →
    (cfg.threads t).stack = .code id act (.perform o next) :: below → act.entry = c →
    Inv (.perform o next) → ¬ stop o →
    ∃ cfg' act' v, Drives sys observe t cfg cfg' (.code id act' (next v) :: below) [] ∧
      act'.entry = c ∧ Inv (next v)

/-- So it is driven to its end or to that operation. -/
theorem drives_until {cfg₀ : Config Op V G C S L X} {id : Nat} {c : C}
    {Inv : Program Op V V → Prop} {stop : Op → Prop}
    (hquiet : Quiet sys observe cfg₀ t id below c Inv stop)
    {rest : Program Op V V} {act : Activation Op V C L}
    (hr : Config.Reach sys (fun _ _ _ => True) cfg₀ cfg)
    (hstack : (cfg.threads t).stack = .code id act rest :: below) (hc : act.entry = c)
    (hinv : Inv rest) :
    ∃ cfg' act' rest', Drives sys observe t cfg cfg' (.code id act' rest' :: below) [] ∧
      act'.entry = c ∧ Inv rest' ∧
      ((∃ v, rest' = .done v) ∨ ∃ o next, rest' = .perform o next ∧ stop o) := by
  induction rest generalizing cfg act with
  | done v => exact ⟨cfg, act, _, .refl hstack, hc, hinv, .inl ⟨v, rfl⟩⟩
  | perform o next ih =>
    by_cases hs : stop o
    · exact ⟨cfg, act, _, .refl hstack, hc, hinv, .inr ⟨o, next, rfl, hs⟩⟩
    · obtain ⟨cfg₁, act₁, v, hd, hc₁, hinv₁⟩ := hquiet _ _ _ _ hr hstack hc hinv hs
      obtain ⟨cfg', act', rest', hd', h⟩ := ih v (hd.reach hr) hd.stack hc₁ hinv₁
      exact ⟨cfg', act', rest', hd.trans hd', h⟩

end P101Filesystem.Effect
