import P101Filesystem.Ledger.Balance

/-!
# The directory ledger of many threads

closedir records what it has closed after the native call has given it back. Threads that
interleave keep the ledger right as long as nothing is handed out again in between; if it
is, the records of two threads get in the wrong order.
-/
namespace P101Filesystem

open Effect Ledger

variable {π : Platform} {ν : NativeDirectory} {heap : Word → Word} {cfg : Config}

/-- Any interleaving in which every native closedir succeeds. -/
def interleaved (π : Platform) (ν : NativeDirectory) (log : List (Nat × Item)) (_ : Nat)
    (i : Item) : Prop :=
  (Handles.after π ν log).Admits ν i ∧ i.closes = true

instance (log : List (Nat × Item)) (t : Nat) (i : Item) : Decidable (interleaved π ν log t i) :=
  inferInstanceAs (Decidable (_ ∧ _))

/-- What a native closedir gives back. -/
def Handles.givesBack (π : Platform) (h : Handles) : Item → List DirectoryKey
  | .event _ e => match e.op with
    | .native .closedir [p] => if e.answer = -1 then [] else h.keys π p
    | _ => []
  | _ => []

def stillUnrecorded (π : Platform) (h : Handles) (ks : List DirectoryKey) (i : Nat × Item) :
    List DirectoryKey :=
  match Item.mark Record.directory Foreign.directory i with
  | some (k, false) => (h.givesBack π i.2 ++ ks).erase k
  | _ => h.givesBack π i.2 ++ ks

/-- What closedir calls in progress have given back and not recorded yet. -/
def unrecorded (π : Platform) (ν : NativeDirectory) (log : List (Nat × Item)) :
    List DirectoryKey :=
  (log.foldl (fun (s : Handles × List DirectoryKey) i =>
    ((s.1.happened π ν i).tick, stillUnrecorded π s.1 s.2 i)) (Handles.start, [])).2

/-- Interleavings in which nothing is handed out again before it is recorded as closed. -/
def separated (π : Platform) (ν : NativeDirectory) (log : List (Nat × Item)) (t : Nat)
    (i : Item) : Prop :=
  interleaved π ν log t i ∧ ∀ k ∈ (Handles.after π ν log).handsOut π ν i, k ∉ unrecorded π ν log

instance (log : List (Nat × Item)) (t : Nat) (i : Item) : Decidable (separated π ν log t i) :=
  inferInstanceAs (Decidable (_ ∧ _))

theorem unrecorded_snoc (log : List (Nat × Item)) (i : Nat × Item) :
    unrecorded π ν (log ++ [i]) =
      stillUnrecorded π (Handles.after π ν log) (unrecorded π ν log) i := by
  have hfst : ∀ (log : List (Nat × Item)) (h : Handles) (ks : List DirectoryKey),
      (log.foldl (fun (s : Handles × List DirectoryKey) i =>
        ((s.1.happened π ν i).tick, stillUnrecorded π s.1 s.2 i)) (h, ks)).1 =
      log.foldl (fun h i => (h.happened π ν i).tick) h := by
    intro log
    induction log with
    | nil => exact fun _ _ => rfl
    | cons i log ih => exact fun h ks => ih _ _
  have hafter := hfst log Handles.start []
  unfold unrecorded
  rw [List.foldl_append]
  simp only [List.foldl_cons, List.foldl_nil]
  rw [hafter]
  rfl

theorem mem_stillUnrecorded {h : Handles} {ks : List DirectoryKey} {i : Nat × Item}
    {k : DirectoryKey} (hk : k ∈ h.givesBack π i.2 ∨ k ∈ ks)
    (hm : Item.mark Record.directory Foreign.directory i ≠ some (k, false)) :
    k ∈ stillUnrecorded π h ks i := by
  have hmem : k ∈ h.givesBack π i.2 ++ ks := List.mem_append.mpr hk
  unfold stillUnrecorded
  split
  · next j hj =>
    have hne : k ≠ j := by
      rintro rfl
      exact hm hj
    exact (List.mem_erase_of_ne hne).mpr hmem
  · exact hmem

/-- A thread records as closed what is its own to record, or closes a loose descriptor. -/
theorem giver_of_mark {h : Handles} {phases : Nat → DirectoryPhase} {t : Nat} {i : Item}
    {ph' : DirectoryPhase} {k : DirectoryKey} (hok : h.Admits ν i)
    (hadv : (directoryTypestate π).Advance (phases t) i ph')
    (hk : Item.mark Record.directory Foreign.directory (t, i) = some (k, false)) :
    (phases t).closing π = k :: ph'.closing π ∨ ph'.closing π = [] ∧ h.Live π k := by
  generalize hph : phases t = ph at hadv
  cases hadv with
  | event hstep =>
    rename_i e
    obtain ⟨o, heard, v, before, after⟩ := e
    cases hstep with
    | inert _ hd =>
      cases o with
      | record r => exact absurd (hd.symm.trans hk) (by simp)
      | _ => cases hk
    | noteClosed | noteReleased =>
      cases hk
      exact .inl rfl
    | _ => cases hk
  | @act x =>
    cases x with
    | close fd =>
      cases hk
      exact .inr ⟨rfl, by simp [Handles.Live, (show h.Loose fd from hok).2]⟩
    | «open» | free => cases hk
  | _ => cases hk

/-- What a step leaves to record as closed was left before, or is given back by it. -/
theorem Books.leaves {h : Handles} {marks : DirectoryKey → List Bool}
    {phases : Nat → DirectoryPhase} {t : Nat} {i : Item} {ph' : DirectoryPhase} {k : DirectoryKey}
    (hb : Books π h marks phases) (hadv : (directoryTypestate π).Advance (phases t) i ph')
    (hk : k ∈ ph'.closing π) : k ∈ h.givesBack π i ∨ k ∈ (phases t).closing π := by
  have hholds := hb.holds t
  generalize hph : phases t = ph at hadv hholds
  cases hadv with
  | @call id c base => cases c <;> cases hk
  | event hstep =>
    rename_i e
    obtain ⟨o, heard, v, before, after⟩ := e
    cases hstep with
    | inert => exact .inr hk
    | @close p fd _ hne hnn =>
      obtain ⟨s, hp, -, ht⟩ := hholds
      refine .inl ?_
      have hkeys := keys_of_tells π hb.wf hp ht
      have hv : ¬ v = -1 := hne
      rw [if_pos hnn] at hkeys
      simpa [Handles.givesBack, hv, hkeys, DirectoryPhase.closing] using hk
    | @closeUnknown p fd _ hne hneg =>
      obtain ⟨s, hp, -, ht⟩ := hholds
      refine .inl ?_
      have hkeys := keys_of_tells π hb.wf hp ht
      have hv : ¬ v = -1 := hne
      rw [if_neg (Int.not_le.mpr hneg)] at hkeys
      simpa [Handles.givesBack, hv, hkeys, DirectoryPhase.closing] using hk
    | noteClosed => exact .inr (List.mem_cons_of_mem _ hk)
    | _ => cases hk
  | returned | hand => exact .inr hk
  | _ => cases hk

/-- The books of a separated interleaving, and what is left to record in them. -/
theorem books_of_separated {log : List (Nat × Item)} {phases : Nat → DirectoryPhase}
    (h : (directoryTypestate π).Traced (separated π ν) log phases) :
    Books π (Handles.after π ν log) (directoryMarks log) phases ∧
      ∀ u, ∀ k ∈ (phases u).closing π, k ∈ unrecorded π ν log := by
  induction h with
  | nil => exact ⟨books_start, fun u k hk => by cases hk⟩
  | @snoc log phases t i ph' htr ho hadv ih =>
    obtain ⟨hb, hclosing⟩ := ih
    have hwin : ∀ k ∈ (Handles.after π ν log).handsOut π ν i, ∀ u, k ∉ (phases u).closing π :=
      fun k hk u hku => ho.2 k hk (hclosing u k hku)
    refine ⟨?_, fun u k hk => ?_⟩
    · have hmarks : directoryMarks (log ++ [(t, i)]) = marked (directoryMarks log)
          (Item.mark Record.directory Foreign.directory (t, i)) := marks_snoc _ log (t, i)
      rw [hmarks, Handles.after_snoc]
      exact (hb.step ho.1.1 hadv hwin).tick
    · rw [unrecorded_snoc]
      by_cases hu : u = t
      · subst hu
        rw [Function.update_self] at hk
        refine mem_stillUnrecorded ?_ fun hm => ?_
        · rcases hb.leaves hadv hk with hgive | hold
          · exact .inl hgive
          · exact .inr (hclosing u k hold)
        -- What it records it has no more to record.
        · rcases giver_of_mark ho.1.1 hadv hm with hhead | hlive
          · have hnd : ((phases u).closing π).Nodup := hb.agrees.closeOnce u
            rw [hhead] at hnd
            exact (List.nodup_cons.mp hnd).1 hk
          · rw [hlive.1] at hk
            cases hk
      · rw [Function.update_of_ne hu] at hk
        refine mem_stillUnrecorded (.inr (hclosing u k hk)) fun hm => ?_
        rcases giver_of_mark ho.1.1 hadv hm with hhead | hlive
        · exact hu (hb.agrees.closeApart u t k hk (show k ∈ (phases t).closing π by simp [hhead]))
        · exact hb.agrees.closes u k hk hlive.2

/-- In every separated interleaving the records alternate, and whenever no call is in
progress the ledger holds exactly the open descriptors and the live streams. -/
theorem threads_balance
    (h : Effect.Config.Reach (system π) (Config.admits (system π) (separated π ν))
      (startConfig heap) cfg) :
    (∀ k, Alternates (directoryMarks cfg.log k)) ∧
      ((∀ t, UserRuns cfg t) → DirectoryLedger π (Handles.after π ν cfg.log) cfg.log) := by
  obtain ⟨phases, htr, hph⟩ := h.traced (directoryTypestate π)
  have hb := (books_of_separated htr).1
  have hlost : (Handles.after π ν cfg.log).lost = [] :=
    lost_of_traced (fun ho => .inr ho.1.2) htr
  refine ⟨fun k => hb.agrees.alternates k (by simp [directoryAccount, hlost]), fun hu => ?_⟩
  exact .of_books hb (fun t => idle_of_userRuns (fun _ hg => hg) (hph t) (hu t)) hlost

/-- dirfd tells 3 for every stream. -/
def threes : NativeDirectory := ⟨fun _ => some 3, false⟩

/-- Thread 1 is given the stream and the descriptor that thread 0 has just closed, before
thread 0 has recorded that. -/
def window : List (Nat × Move) :=
  opens 0 1 3 ++ closes 0 1 3 0 ++ opens 1 1 3 ++ settles 0

theorem window_breaks :
    ∃ cfg, (startConfig fun _ => 0).run (system linux)
        (Config.admits (system linux) (interleaved linux threes)) window = some cfg ∧
      ¬ Alternates (directoryMarks cfg.log (.descriptor 3)) ∧
      ¬ Alternates (directoryMarks cfg.log (streamKey linux 1)) := by
  have hrun : ((startConfig fun _ => 0).run (system linux)
      (Config.admits (system linux) (interleaved linux threes)) window).map
      (fun cfg => (directoryMarks cfg.log (.descriptor 3),
        directoryMarks cfg.log (streamKey linux 1))) =
      some ([true, true, false], [true, true, false]) := by decide
  have hbad : ¬ Alternates [true, true, false] := by
    intro h
    have hsecond := h 1 true rfl
    simp at hsecond
  obtain ⟨cfg, hcfg, hstate⟩ := Option.map_eq_some_iff.mp hrun
  obtain ⟨hdescriptor, hstream⟩ := Prod.mk.inj hstate
  refine ⟨cfg, hcfg, ?_, ?_⟩
  · rw [hdescriptor]
    exact hbad
  · rw [hstream]
    exact hbad

/-- The same calls with the reuse after the records, and a temporary file in between. -/
def apart : List (Nat × Move) :=
  opens 0 1 3 ++ closes 0 1 3 0 ++ makes 1 4 ++ settles 0 ++ opens 1 1 3

theorem threads_balance_apart :
    ∃ cfg, (startConfig fun _ => 0).run (system linux)
        (Config.admits (system linux) (separated linux threes)) apart = some cfg ∧
      (∀ k, Alternates (directoryMarks cfg.log k)) ∧
      DirectoryLedger linux (Handles.after linux threes cfg.log) cfg.log := by
  have hrun : ((startConfig fun _ => 0).run (system linux)
      (Config.admits (system linux) (separated linux threes)) apart).map
      (fun cfg => decide (∀ t : Nat, t < 2 → UserRuns cfg t)) = some true := by decide
  obtain ⟨cfg, hcfg, hu⟩ := Option.map_eq_some_iff.mp hrun
  have husers := userRuns_of_run hcfg (n := 2) (by decide) (of_decide_eq_true hu)
  obtain ⟨halt, hledger⟩ := threads_balance (Effect.Config.Reach.of_run .init hcfg)
  exact ⟨cfg, hcfg, halt, hledger husers⟩

end P101Filesystem
