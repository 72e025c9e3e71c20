import P101Filesystem.Effect.Numbers
import Mathlib.Control.Basic

/-!
# What a thread shows, and machines that accept it

An observer makes labels of some of the items a thread leaves in the log. A mirror keeps a
state of another machine beside each stack, such that the machine accepts the label of every
step. Then it accepts all that a thread ever shows, whatever the other threads do.
-/
namespace P101Filesystem.Effect

variable {Op V G C A S L X Lb St : Type}

/-- What a log that goes on after `past` shows. -/
def showsFrom (observe : List (Nat × Item Op V G C L X) → Item Op V G C L X → Option Lb) :
    List (Nat × Item Op V G C L X) → List (Nat × Item Op V G C L X) → List (Nat × Lb)
  | _, [] => []
  | past, (u, i) :: rest =>
    (observe past i).toList.map (u, ·) ++ showsFrom observe (past ++ [(u, i)]) rest

def shows (observe : List (Nat × Item Op V G C L X) → Item Op V G C L X → Option Lb)
    (log : List (Nat × Item Op V G C L X)) : List (Nat × Lb) := showsFrom observe [] log

/-- The labels of one thread. -/
def ofThread (t : Nat) (labels : List (Nat × Lb)) : List Lb :=
  labels.filterMap fun p => if p.1 = t then some p.2 else none

section
variable {observe : List (Nat × Item Op V G C L X) → Item Op V G C L X → Option Lb} {t u : Nat}
  {past log : List (Nat × Item Op V G C L X)} {i : Item Op V G C L X} {labels : List (Nat × Lb)}

theorem showsFrom_snoc : showsFrom observe past (log ++ [(u, i)]) =
    showsFrom observe past log ++ (observe (past ++ log) i).toList.map (u, ·) := by
  induction log generalizing past with
  | nil => simp [showsFrom]
  | cons ui log ih =>
    obtain ⟨u', i'⟩ := ui
    simp [showsFrom, ih]

@[simp] theorem shows_nil : shows observe [] = [] := rfl

theorem shows_snoc : shows observe (log ++ [(u, i)]) =
    shows observe log ++ (observe log i).toList.map (u, ·) := by
  simp [shows, showsFrom_snoc]

@[simp] theorem ofThread_nil : ofThread t ([] : List (Nat × Lb)) = [] := rfl

@[simp] theorem ofThread_append (more : List (Nat × Lb)) :
    ofThread t (labels ++ more) = ofThread t labels ++ ofThread t more := List.filterMap_append

@[simp] theorem ofThread_same (new : List Lb) : ofThread t (new.map (t, ·)) = new := by
  simp [ofThread, List.filterMap_map]

theorem ofThread_other (hu : u ≠ t) (new : List Lb) : ofThread t (new.map (u, ·)) = [] := by
  simp [ofThread, hu]

end

/-- The state after the labels, if each of them is accepted. -/
def accepts (next : St → Lb → Option St) (st : St) (labels : List Lb) : Option St :=
  labels.foldlM next st

section
variable {next : St → Lb → Option St} {st st' : St} {labels : List Lb}

@[simp] theorem accepts_nil : accepts next st [] = some st := rfl

theorem accepts_append (h : accepts next st labels = some st') (rest : List Lb) :
    accepts next st (labels ++ rest) = accepts next st' rest := by
  unfold accepts at h ⊢
  rw [List.foldlM_append, h]
  rfl

@[simp] theorem accepts_single (lb : Lb) : accepts next st [lb] = next st lb := by
  simp [accepts]

theorem accepts_snoc {lb : Lb} (h : accepts next st (labels ++ [lb]) = some st') :
    ∃ mid, accepts next st labels = some mid ∧ next mid lb = some st' := by
  unfold accepts at h ⊢
  rw [List.foldlM_append] at h
  obtain ⟨mid, hmid, hlast⟩ := Option.bind_eq_some_iff.mp h
  exact ⟨mid, hmid, by simpa using hlast⟩

end

/-- `Reflects` keeps the states of another machine in step with the stacks of this one, in
configurations that are `Good`. -/
structure Mirror (sys : System Op V G C A S L X) (Good : Config Op V G C S L X → Prop)
    (Lb St : Type) where
  observe : List (Nat × Item Op V G C L X) → Item Op V G C L X → Option Lb
  next : St → Lb → Option St
  Reflects : List (Frame Op V G C L) → St → Prop
  step : ∀ {cfg t s th m i st}, Good cfg →
    Thread.Stepped sys cfg.log.length cfg.shared (cfg.threads t) m s th i →
    Reflects (cfg.threads t).stack st →
    ∃ st', accepts next st (observe cfg.log i).toList = some st' ∧ Reflects th.stack st'

namespace Config

/-- What a thread shows in any run is accepted, and the state it leads to reflects its stack. -/
theorem Reach.accepted {sys : System Op V G C A S L X} {Good : Config Op V G C S L X → Prop}
    (mir : Mirror sys Good Lb St) {legal} {main : G} {s : S} {l : L} {start : St}
    {cfg : Config Op V G C S L X} (h : Reach sys legal (Config.init main s l) cfg)
    (hgood : ∀ {cfg}, Reach sys legal (Config.init main s l) cfg → Good cfg)
    (hstart : mir.Reflects [.outside main [] l] start) (t : Nat) :
    ∃ st, accepts mir.next start (ofThread t (shows mir.observe cfg.log)) = some st ∧
      mir.Reflects (cfg.threads t).stack st := by
  induction h with
  | init => exact ⟨start, rfl, hstart⟩
  | @step cfg cfg' u m hr _ hs ih =>
    obtain ⟨s', th, i, hst, rfl⟩ := stepped hs
    obtain ⟨st, hst', href⟩ := ih
    by_cases hut : u = t
    · subst hut
      obtain ⟨st', hnext, href'⟩ := mir.step (hgood hr) hst href
      refine ⟨st', ?_, by simpa using href'⟩
      rw [shows_snoc, ofThread_append, ofThread_same, accepts_append hst', hnext]
    · refine ⟨st, ?_, by simpa [Function.update_of_ne (Ne.symm hut)] using href⟩
      rw [shows_snoc, ofThread_append, ofThread_other hut, List.append_nil, hst']

/-- A running call is named by its place in the log. -/
theorem Reach.named {sys : System Op V G C A S L X} {legal} {main : G} {s : S} {l : L}
    {cfg : Config Op V G C S L X} (h : Reach sys legal (Config.init main s l) cfg) {t id : Nat}
    {act : Activation Op V C L} (hmem : (id, act) ∈ codes (cfg.threads t).stack) :
    cfg.log[id]? = some (t, .call id act.entry act.base) := by
  induction h generalizing id act with
  | init => simp [Config.init, codes] at hmem
  | @step cfg cfg' u m hr _ hs ih =>
    obtain ⟨s', th, i, hst, rfl⟩ := stepped hs
    have older : ∀ {act'}, (id, act') ∈ codes (cfg.threads t).stack →
        act'.entry = act.entry → act'.base = act.base →
        (cfg.log ++ [(u, i)])[id]? = some (t, .call id act.entry act.base) := by
      intro act' hold hentry hbase
      have hlt := (hr.numbered t).bounded id act' hold
      rw [List.getElem?_append_left hlt, ih hold, hentry, hbase]
    by_cases hut : u = t
    · subst hut
      simp only [Function.update_self] at hmem
      generalize hth : cfg.threads u = old at hst older
      cases hst with
      | call =>
        rcases List.mem_cons.mp hmem with hnew | hold
        · obtain ⟨rfl, rfl⟩ := Prod.mk.inj hnew
          simp
        · exact older hold rfl rfl
      | back | op =>
        rcases List.mem_cons.mp hmem with hnew | hold
        · obtain ⟨rfl, rfl⟩ := Prod.mk.inj hnew
          exact older (List.mem_cons_self ..) rfl rfl
        · exact older (List.mem_cons_of_mem _ hold) rfl rfl
      | exit => exact older (List.mem_cons_of_mem _ hmem) rfl rfl
      | invoke | act | backOutside | hand => exact older hmem rfl rfl
    · simp only [Function.update_of_ne (Ne.symm hut)] at hmem
      exact older hmem rfl rfl

end Config

end P101Filesystem.Effect
