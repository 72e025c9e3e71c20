import P101Filesystem.Ledger.Balance

/-!
# A failing closedir that ends the stream

closedir reports the stream as released only if the native call succeeds. Where a failing
native call ends the stream as well, its records are never made up for: each failure leaves
one acquisition of the stream id, and of its descriptor, in the ledger for good.
-/
namespace P101Filesystem

open Effect Ledger

variable {π : Platform} {ν : NativeDirectory} {heap : Word → Word} {cfg : Config}

/-- How many failing closedir calls have ended what `k` stands for. -/
def failedCloses (π : Platform) (ν : NativeDirectory) (log : List (Nat × Item))
    (k : DirectoryKey) : Nat := (Handles.after π ν log).lost.count k

/-- Acquisitions recorded and not released again. -/
def unreleased (log : List (Nat × Item)) (k : DirectoryKey) : Int :=
  (directoryMarks log k).count true - (directoryMarks log k).count false

/-- What the ledger has too much is exactly what failed to close. -/
structure FailuresRemain (π : Platform) (ν : NativeDirectory) (log : List (Nat × Item)) : Prop where
  live : ∀ k, (Handles.after π ν log).Live π k → unreleased log k = failedCloses π ν log k + 1
  dead : ∀ k, ¬ (Handles.after π ν log).Live π k → unreleased log k = failedCloses π ν log k
  held : ∀ k, held (directoryMarks log k) = true →
    (Handles.after π ν log).Live π k ∨ 0 < failedCloses π ν log k

theorem unreleased_of_notDue {log : List (Nat × Item)} {phases : Nat → DirectoryPhase}
    (hb : Books π (Handles.after π ν log) (directoryMarks log) phases) {k : DirectoryKey}
    (hk : ¬ (directoryAccount π (Handles.after π ν log) phases).Due k) :
    unreleased log k = failedCloses π ν log k := by
  have hcount := hb.agrees.notDue k hk
  unfold unreleased failedCloses
  simp only [directoryAccount] at hcount
  omega

/-- After every call the unreleased acquisitions are those of what is live and one for each
failing close; something is acquired again while unreleased only if every acquisition left
is one whose close failed. -/
theorem failed_close
    (h : Effect.Config.Reach (system π) (Config.admits (system π) (trusted π ν)) (startConfig heap)
      cfg) :
    (UserRuns cfg 0 → FailuresRemain π ν cfg.log) ∧
      ∀ before t i after k, cfg.log = before ++ (t, i) :: after →
        Item.mark Record.directory Foreign.directory (t, i) = some (k, true) →
        unreleased before k = failedCloses π ν before k := by
  obtain ⟨phases, htr, hph⟩ := h.traced (directoryTypestate π)
  constructor
  · intro hu
    have hb : Books π (Handles.after π ν cfg.log) (directoryMarks cfg.log) phases :=
      books_of_single (trusted π ν) (fun ho => ho) htr
    have hidle : ∀ t, phases t = .idle := by
      intro t
      by_cases ht : t = 0
      · subst ht
        exact idle_of_userRuns (fun _ hg => hg) (hph 0) hu
      · exact htr.idle fun ho ht' => ht (ht'.symm.trans ho.1)
    have hdue : ∀ k, (directoryAccount π (Handles.after π ν cfg.log) phases).Due k ↔
        (Handles.after π ν cfg.log).Live π k := by
      intro k
      simp [Account.Due, directoryAccount, hidle, DirectoryPhase.opening, DirectoryPhase.closing]
    refine ⟨fun k hl => ?_, fun k hl => ?_, fun k hk => (hb.settled hidle k).mp hk⟩
    · have hcount := hb.agrees.due k ((hdue k).mpr hl)
      unfold unreleased failedCloses
      simp only [directoryAccount] at hcount
      omega
    · exact unreleased_of_notDue hb fun hd => hl ((hdue k).mp hd)
  · intro before t i after k hlog hmark
    obtain ⟨phases', ph', htr', ho, hadv⟩ := htr.split hlog
    have hb : Books π (Handles.after π ν before) (directoryMarks before) phases' :=
      books_of_single (trusted π ν) (fun ho => ho) htr'
    exact unreleased_of_notDue hb (hb.notDue_of_take ho.2 hadv
      (window_of_single (fun hl => hl.1) htr' ho hadv) hmark)

/-- The only stream, with descriptor 3, fails to close and is gone. -/
def lostStream : List (Nat × Move) := opens 0 1 3 ++ closes 0 1 3 (-1) ++ settles 0

/-- Every stream has descriptor 3, and a failing closedir ends it. -/
def closeIsFinal : NativeDirectory := ⟨fun _ => some 3, true⟩

/-- Its id stays in the ledger, and is acquired again when the address is reused. -/
theorem dead_stream_held :
    (∃ cfg, (startConfig fun _ => 0).run (system linux)
        (Config.admits (system linux) (trusted linux closeIsFinal)) lostStream = some cfg ∧
      UserRuns cfg 0 ∧ held (directoryMarks cfg.log (streamKey linux 1)) = true ∧
      ¬ (Handles.after linux closeIsFinal cfg.log).Live linux (streamKey linux 1)) ∧
    ∃ cfg, (startConfig fun _ => 0).run (system linux)
        (Config.admits (system linux) (trusted linux closeIsFinal))
        (lostStream ++ opens 0 1 3) = some cfg ∧
      directoryMarks cfg.log (streamKey linux 1) = [true, true] ∧
      directoryMarks cfg.log (.descriptor 3) = [true, true] := by
  constructor
  · have hrun : ((startConfig fun _ => 0).run (system linux)
        (Config.admits (system linux) (trusted linux closeIsFinal)) lostStream).map
        (fun cfg => (decide (UserRuns cfg 0), held (directoryMarks cfg.log (streamKey linux 1)),
          (Handles.after linux closeIsFinal cfg.log).streams 1)) = some (true, true, none) := by
      decide
    obtain ⟨cfg, hcfg, hstate⟩ := Option.map_eq_some_iff.mp hrun
    obtain ⟨hu, hrest⟩ := Prod.mk.inj hstate
    obtain ⟨hheld, hdead⟩ := Prod.mk.inj hrest
    exact ⟨cfg, hcfg, of_decide_eq_true hu, hheld, not_live_of_none hdead⟩
  · have hrun : ((startConfig fun _ => 0).run (system linux)
        (Config.admits (system linux) (trusted linux closeIsFinal))
        (lostStream ++ opens 0 1 3)).map
        (fun cfg => (directoryMarks cfg.log (streamKey linux 1),
          directoryMarks cfg.log (.descriptor 3))) = some ([true, true], [true, true]) := by
      decide
    obtain ⟨cfg, hcfg, hstate⟩ := Option.map_eq_some_iff.mp hrun
    obtain ⟨hstream, hdescriptor⟩ := Prod.mk.inj hstate
    exact ⟨cfg, hcfg, hstream, hdescriptor⟩

theorem failed_close_lost :
    ∃ cfg, (startConfig fun _ => 0).run (system linux)
        (Config.admits (system linux) (trusted linux closeIsFinal)) lostStream = some cfg ∧
      FailuresRemain linux closeIsFinal cfg.log := by
  have hrun : ((startConfig fun _ => 0).run (system linux)
      (Config.admits (system linux) (trusted linux closeIsFinal)) lostStream).map
      (fun cfg => decide (UserRuns cfg 0)) = some true := by decide
  obtain ⟨cfg, hcfg, hu⟩ := Option.map_eq_some_iff.mp hrun
  have hreach := Effect.Config.Reach.of_run .init hcfg
  exact ⟨cfg, hcfg, (failed_close hreach).1 (of_decide_eq_true hu)⟩

end P101Filesystem
