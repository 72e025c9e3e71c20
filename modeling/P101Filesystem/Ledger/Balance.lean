import P101Filesystem.Ledger.Books

/-!
# The directory ledger of one thread

Between the calls of a single thread, in its callbacks too, the ledger holds exactly what
is open, and the records of every descriptor and every stream id alternate.
-/
namespace P101Filesystem

open Effect Ledger

variable {π : Platform} {ν : NativeDirectory} {heap : Word → Word} {cfg : Config}

/-- Runs of thread 0 in which the native layer and the callers are as trusted. -/
def trusted (π : Platform) (ν : NativeDirectory) (log : List (Nat × Item)) (t : Nat) (i : Item) :
    Prop :=
  t = 0 ∧ (Handles.after π ν log).Admits ν i

instance (log : List (Nat × Item)) (t : Nat) (i : Item) : Decidable (trusted π ν log t i) :=
  inferInstanceAs (Decidable (_ ∧ _))

/-- What the ledger holds is what is open. A stream for which dirfd fails has no descriptor
that anyone could name. -/
structure DirectoryLedger (π : Platform) (h : Handles) (log : List (Nat × Item)) : Prop where
  descriptors : ∀ fd, held (directoryMarks log (.descriptor fd)) = true ↔ (h.descriptors fd).isSome
  streams : ∀ id, held (directoryMarks log (.stream id)) = true ↔
    ∃ p, (h.streams p).isSome ∧ π.pointerResourceId p = id

/-- A closedir that succeeds loses nothing, nor does a failing one that leaves the stream. -/
theorem lost_happened (h : Handles) (t : Nat) {i : Item}
    (hi : ν.final = false ∨ i.closes = true) : (h.happened π ν (t, i)).lost = h.lost := by
  cases i with
  | event id e =>
    obtain ⟨o, heard, v, before, after⟩ := e
    unfold Handles.happened Handles.answered
    dsimp only
    split
    · split <;> simp
    · split <;> simp
    · split <;> simp
    · split
      · simp
      · next hv =>
        rcases hi with hfinal | hcloses
        · simp [hfinal]
        · simp [Item.closes] at hcloses
          exact absurd hcloses hv
    · rfl
  | call id c base => cases c <;> rfl
  | act x => cases x <;> rfl
  | _ => rfl

theorem lost_of_traced {ok : List (Nat × Item) → Nat → Item → Prop} {log : List (Nat × Item)}
    {phases : Nat → DirectoryPhase}
    (hok : ∀ {log t i}, ok log t i → ν.final = false ∨ i.closes = true)
    (h : (directoryTypestate π).Traced ok log phases) : (Handles.after π ν log).lost = [] := by
  induction h with
  | nil => rfl
  | snoc _ ho _ ih =>
    rw [Handles.after_snoc]
    exact (lost_happened _ _ (hok ho)).trans ih

/-- While callers are in control of every thread, nothing is left to record. -/
theorem Books.settled {h : Handles} {marks : DirectoryKey → List Bool}
    {phases : Nat → DirectoryPhase} (hb : Books π h marks phases) (hidle : ∀ t, phases t = .idle)
    (k : DirectoryKey) : held (marks k) = true ↔ h.Live π k ∨ 0 < h.lost.count k :=
  hb.agrees.settled (fun t => by simp [directoryAccount, hidle t, DirectoryPhase.opening])
    (fun t => by simp [directoryAccount, hidle t, DirectoryPhase.closing]) k

theorem idle_of_userRuns {Ph : Type} {ts : Typestate (system π) Ph} {t : Nat} {ph : Ph}
    (hre : ∀ g, Party.reentrant g → ts.reentrant g) (hp : ts.Phased ph (cfg.threads t).stack)
    (hu : UserRuns cfg t) : ph = ts.idle := by
  unfold UserRuns at hu
  split at hu
  · next hs =>
    rw [hs] at hp
    exact hp.idle_of_reentrant (hre _ trivial)
  · next hs =>
    rw [hs] at hp
    exact hp.idle_of_reentrant (hre _ trivial)
  · exact hu.elim

/-- Users run in the threads that a run has not moved, so the others decide. -/
theorem userRuns_of_run {legal} [∀ cfg t m, Decidable (legal cfg t m)] {moves : List (Nat × Move)}
    {n : Nat} (h : (startConfig heap).run (system π) legal moves = some cfg)
    (hn : ∀ tm ∈ moves, tm.1 < n) (hu : ∀ t < n, UserRuns cfg t) (t : Nat) : UserRuns cfg t := by
  by_cases ht : t < n
  · exact hu t ht
  · have hsame := Effect.Config.run_unmoved (t := t) h fun tm hm htm => ht (htm ▸ hn tm hm)
    rw [UserRuns, hsame]
    trivial

theorem DirectoryLedger.of_books {log : List (Nat × Item)} {phases : Nat → DirectoryPhase}
    (hb : Books π (Handles.after π ν log) (directoryMarks log) phases)
    (hidle : ∀ t, phases t = .idle) (hlost : (Handles.after π ν log).lost = []) :
    DirectoryLedger π (Handles.after π ν log) log where
  descriptors := fun fd => by simpa [hlost, Handles.Live] using hb.settled hidle (.descriptor fd)
  streams := fun id => by simpa [hlost, Handles.Live] using hb.settled hidle (.stream id)

/-- In every run of one thread the records alternate, and after every call, nested or not,
the ledger holds exactly the open descriptors and the live streams. -/
theorem directory_balance (hν : ν.final = false)
    (h : Effect.Config.Reach (system π) (Config.admits (system π) (trusted π ν)) (startConfig heap)
      cfg) :
    (∀ k, Alternates (directoryMarks cfg.log k)) ∧
      (UserRuns cfg 0 → DirectoryLedger π (Handles.after π ν cfg.log) cfg.log) := by
  obtain ⟨phases, htr, hph⟩ := h.traced (directoryTypestate π)
  have hb : Books π (Handles.after π ν cfg.log) (directoryMarks cfg.log) phases :=
    books_of_single (trusted π ν) (fun ho => ho) htr
  have hlost : (Handles.after π ν cfg.log).lost = [] := lost_of_traced (fun _ => .inl hν) htr
  refine ⟨fun k => hb.agrees.alternates k (by simp [directoryAccount, hlost]), fun hu => ?_⟩
  refine .of_books hb (fun t => ?_) hlost
  by_cases ht : t = 0
  · subst ht
    exact idle_of_userRuns (fun _ hg => hg) (hph 0) hu
  · exact htr.idle fun ho ht' => ht (ht'.symm.trans ho.1)

/-! ## Scripts of calls -/

/-- opendir hands out the stream `p` with descriptor `fd`. -/
def opens (t : Nat) (p fd : Word) : List (Nat × Move) :=
  (t, .call (.opendir 9) 0 calm₀) :: runs t 3 ++ answers t p ++ answers t fd ++ runs t 3 ++
    [(t, .exit)]

/-- closedir on `p` up to its native call, which answers `v`. -/
def closes (t : Nat) (p fd v : Word) : List (Nat × Move) :=
  (t, .call (.closedir p) 0 calm₀) :: runs t 2 ++ answers t fd ++ runs t 1 ++ answers t v

/-- The rest of a closedir call. -/
def settles (t : Nat) : List (Nat × Move) := runs t 3 ++ [(t, .exit)]

def makes (t : Nat) (fd : Word) : List (Nat × Move) :=
  (t, .call (.mkstemp 9) 0 calm₀) :: runs t 3 ++ answers t fd ++ runs t 2 ++ [(t, .exit)]

def adopts (t : Nat) (fd p : Word) : List (Nat × Move) :=
  (t, .call (.fdopendir fd) 0 calm₀) :: runs t 3 ++ answers t p ++ runs t 2 ++ [(t, .exit)]

/-- A stream is opened, fails to close, is closed, and its address and number are reused;
a temporary file's descriptor is closed elsewhere, another one is adopted. -/
def reuse : List (Nat × Move) :=
  opens 0 1 3 ++ makes 0 4 ++ closes 0 1 3 (-1) ++ settles 0 ++ closes 0 1 3 0 ++ settles 0 ++
    opens 0 1 3 ++ [(0, .act (.close 4) calm₀)] ++ makes 0 4 ++ adopts 0 4 2

theorem directory_balance_reuse :
    ∃ cfg, (startConfig fun _ => 0).run (system linux) (Config.admits (system linux)
        (trusted linux ⟨fun _ => some 3, false⟩)) reuse = some cfg ∧
      (∀ k, Alternates (directoryMarks cfg.log k)) ∧ DirectoryLedger linux
        (Handles.after linux ⟨fun _ => some 3, false⟩ cfg.log) cfg.log := by
  have hrun : ((startConfig fun _ => 0).run (system linux) (Config.admits (system linux)
      (trusted linux ⟨fun _ => some 3, false⟩)) reuse).map
      (fun cfg => decide (UserRuns cfg 0)) = some true := by decide
  obtain ⟨cfg, hcfg, hu⟩ := Option.map_eq_some_iff.mp hrun
  have hreach := Effect.Config.Reach.of_run .init hcfg
  obtain ⟨halt, hledger⟩ := directory_balance rfl hreach
  exact ⟨cfg, hcfg, halt, hledger (of_decide_eq_true hu)⟩

end P101Filesystem
