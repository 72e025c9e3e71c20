import P101Filesystem.Ledger.Balance
import P101Filesystem.Effect.Numbers

/-!
# The ledger of heap blocks

realpath and getcwd hand out a block that the caller frees when they are given no buffer.
The realpath wrapper records the block, the getcwd wrapper does not: the ledger is right as
long as no getcwd without a buffer succeeds.
-/
namespace P101Filesystem

open Effect Ledger Protocol

variable {π : Platform} {heap : Word → Word} {cfg : Config}

/-! ## Phases -/

inductive BlockPhase where
  | idle | allocated (p : Word) | scanned
  deriving DecidableEq, Repr

def Op.block : Op → Option (Word × Bool)
  | .record r => r.block
  | _ => none

inductive BlockStep : BlockPhase → Op → Word → BlockPhase → Prop
  | inert {ph o v} : o.party = none → o.block = none → BlockStep ph o v ph
  | other {f args v} : f ≠ .realpath → f ≠ .scandir → BlockStep .idle (.native f args) v .idle
  | callback {fn args v} : BlockStep .idle (.callback fn args) v .idle
  | realpath {fileName v} : v ≠ NULL →
      BlockStep .idle (.native .realpath [fileName, NULL]) v (.allocated v)
  | realpathKept {fileName resolvedName v} : (resolvedName = NULL → v = NULL) →
      BlockStep .idle (.native .realpath [fileName, resolvedName]) v .idle
  | noteAlloc {p size v} : BlockStep (.allocated p) (.record (.alloc p size)) v .idle
  | scandir {args v} : v ≠ -1 → BlockStep .idle (.native .scandir args) v .scanned
  | scandirFailed {args} : BlockStep .idle (.native .scandir args) (-1) .idle
  | list {o v} : o.party = none → BlockStep .scanned o v .scanned

/-- A call leaves no block of realpath unrecorded. -/
def blockProtocol : Protocol Op Word BlockPhase :=
  ⟨BlockStep, fun ph _ => ∀ p, ph ≠ .allocated p⟩

/-- The wrappers that record blocks. -/
def Api.allocates (f : Api) : Bool := f = .realpath ∨ f = .scandir

theorem Api.allocates_eq_false {f : Api} :
    f.allocates = false ↔ f ≠ .realpath ∧ f ≠ .scandir := by
  simp [Api.allocates]

theorem Record.block_eq_none {f : Api} {r : Record} (hf : f.allocates = false)
    (hr : r.madeBy f = true) : r.block = none := by
  cases r with
  | alloc => simp [Record.madeBy, Api.allocates_eq_false.mp hf] at hr
  | _ => rfl

theorem block_concerns : Concerns blockProtocol .idle Api.allocates where
  routine := by
    intro ph o v ho
    cases o with
    | native | callback | load | record => cases ho
    | _ => exact .inert rfl rfl
  load := .inert rfl rfl
  callback := .callback
  native := by
    intro f args v hf
    obtain ⟨h1, h2⟩ := Api.allocates_eq_false.mp hf
    exact .other h1 h2
  record hf hr := .inert rfl (Record.block_eq_none hf hr)
  final := by simp [blockProtocol]
  dirfd := rfl

/-- A protocol with a phase for the block of realpath, from its native call to its record. -/
theorem Concerns.realpath {Ph : Type} {pr : Protocol Op Word Ph} {idle : Ph} {about : Api → Bool}
    (h : Concerns pr idle about) (allocated : Word → Ph)
    (hout : ∀ {fileName v}, v ≠ NULL →
      pr.next idle (.native .realpath [fileName, NULL]) v (allocated v))
    (hkept : ∀ {fileName resolvedName v}, (resolvedName = NULL → v = NULL) →
      pr.next idle (.native .realpath [fileName, resolvedName]) v idle)
    (hnote : ∀ {p size v}, pr.next (allocated p) (.record (.alloc p size)) v idle)
    (fileName resolvedName : Word) : pr.Keeps idle (p101Realpath π fileName resolvedName) := by
  rw [p101Realpath_eq]
  refine h.guarded (fun _ => h.final) (h.pass rfl fun _ => fun retVal => ?_)
  by_cases hv : retVal = NULL
  · refine ⟨idle, hkept fun _ => hv, ?_⟩
    simp only [hv, if_true]
    exact h.failing h.final
  · simp only [hv, if_false]
    by_cases hr : resolvedName = NULL
    · subst hr
      refine ⟨allocated retVal, hout hv, ?_⟩
      simp only [if_true]
      refine h.pass rfl fun _ => ?_
      exact keeps_step (fun _ => idle) (fun _ => hnote) fun _ => h.exiting h.final
    · refine ⟨idle, hkept fun hnull => absurd hnull hr, ?_⟩
      simp only [hr, if_false]
      exact h.exiting h.final

theorem scandir_keeps (dir namelist sel compar : Word) :
    blockProtocol.Keeps .idle (p101Scandir π dir namelist sel compar) := by
  rw [p101Scandir_eq]
  refine block_concerns.guarded (fun _ => block_concerns.final) ?_
  refine block_concerns.pass rfl fun _ => fun retVal => ?_
  by_cases hv : retVal = -1
  · subst hv
    refine ⟨.idle, .scandirFailed, ?_⟩
    simp only [if_true]
    exact block_concerns.failing block_concerns.final
  · refine ⟨.scanned, .scandir hv, ?_⟩
    simp only [hv, if_false]
    have htail : ((trackList π namelist retVal).bind fun _ => exiting .scandir retVal).Avoids
        fun o => o.party ≠ none :=
      (trackList_inside π namelist retVal).bind fun _ => ⟨not_not.mpr rfl, fun _ => trivial⟩
    exact keeps_of_avoids htail (fun o v ho => .list (not_not.mp ho)) fun _ => by simp [blockProtocol]

theorem blockCode_keeps (c : Call) (b : Word) : blockProtocol.Keeps .idle (c.code π b) := by
  cases c with
  | realpath => exact block_concerns.realpath .allocated .realpath .realpathKept .noteAlloc _ _
  | scandir => exact scandir_keeps _ _ _ _
  | _ => exact block_concerns.code (fun f hf => by cases hf <;> rfl) b

def blockTypestate (π : Platform) : Typestate (system π) BlockPhase where
  protocol := blockProtocol
  idle := .idle
  first := fun _ _ => .idle
  reentrant := Party.reentrant
  keeps := blockCode_keeps
  permits := reentrant_of_permits
  invokes := reentrant_of_invokes
  acts := reentrant_of_acts
  hands := by
    intro ph o v ph' g hs hp hg
    cases hs with
    | inert hn => exact absurd (hn.symm.trans hp) (by simp)
    | list hn => exact absurd (hn.symm.trans hp) (by simp)
    | other | callback | realpath | realpathKept | scandir | scandirFailed => rfl
    | noteAlloc => cases hp

/-! ## Blocks -/

/-- The block that a native call hands out. -/
def handedOut (e : Event) : Option Word :=
  match e.op with
  | .native .realpath [_, resolvedName] =>
    if resolvedName = NULL ∧ e.answer ≠ NULL then some e.answer else none
  | .native .getcwd [buf, _] => if buf = NULL ∧ e.answer ≠ NULL then some e.answer else none
  | _ => none

def ownBlock (blocks : Word → Bool) : Nat × Item → Word → Bool
  | (_, .event _ e) =>
    match handedOut e with
    | some p => Function.update blocks p true
    | none => blocks
  | (_, .act (.free p)) => Function.update blocks p false
  | _ => blocks

/-- The blocks handed out and not yet freed after a log. -/
def blocksOf (log : List (Nat × Item)) : Word → Bool := log.foldl ownBlock fun _ => false

/-- A block that is handed out is fresh, and callers free what was handed out. Nothing is
said here about the lists of scandir, so no scandir succeeds. -/
def BlockCaller (blocks : Word → Bool) : Item → Prop
  | .event _ e => (∀ p ∈ handedOut e, blocks p = false) ∧
    match e.op with
    | .native .scandir _ => e.answer = -1
    | _ => True
  | .act (.free p) => blocks p = true
  | _ => True

/-- Without a buffer, getcwd fails. -/
def BlockFits : Item → Prop
  | .event _ e =>
    match e.op with
    | .native .getcwd [buf, _] => buf = NULL → e.answer = NULL
    | _ => True
  | _ => True

instance (blocks : Word → Bool) (i : Item) : Decidable (BlockCaller blocks i) :=
  match i with
  | .event _ e => by
    refine @instDecidableAnd _ _ inferInstance ?_
    generalize e.op = o
    split <;> exact inferInstance
  | .act (.free _) => inferInstanceAs (Decidable (_ = true))
  | .act (.open _) | .act (.close _) => instDecidableTrue
  | .call .. | .invoke _ | .returned _ | .hand .. | .exit .. => instDecidableTrue

instance (i : Item) : Decidable (BlockFits i) :=
  match i with
  | .event _ e => by
    dsimp only [BlockFits]
    generalize e.op = o
    split <;> exact inferInstance
  | .call .. | .invoke _ | .act _ | .returned _ | .hand .. | .exit .. => instDecidableTrue

def blockCallers (log : List (Nat × Item)) (t : Nat) (i : Item) : Prop :=
  t = 0 ∧ BlockCaller (blocksOf log) i

instance (log : List (Nat × Item)) (t : Nat) (i : Item) : Decidable (blockCallers log t i) :=
  inferInstanceAs (Decidable (_ ∧ _))

/-- Runs of thread 0 in which no getcwd hands out a block. -/
def blockFitting (log : List (Nat × Item)) (t : Nat) (i : Item) : Prop :=
  blockCallers log t i ∧ BlockFits i

instance (log : List (Nat × Item)) (t : Nat) (i : Item) : Decidable (blockFitting log t i) :=
  inferInstanceAs (Decidable (_ ∧ _))

@[simp] theorem blocksOf_snoc (log : List (Nat × Item)) (i : Nat × Item) :
    blocksOf (log ++ [i]) = ownBlock (blocksOf log) i := by
  simp [blocksOf]

/-! ## One step -/

def BlockPhase.opening : BlockPhase → List Word
  | .allocated p => [p]
  | _ => []

def blockAccount (blocks : Word → Bool) (ph : BlockPhase) : Account Word Unit where
  live := fun p => blocks p = true
  opening := fun _ => ph.opening
  closing := fun _ => []
  lost := fun _ => 0

structure BlockBooks (blocks : Word → Bool) (marks : Word → List Bool) (ph : BlockPhase) :
    Prop where
  noList : ph ≠ .scanned
  agrees : (blockAccount blocks ph).Agrees marks

theorem live_handedOut {blocks : Word → Bool} {p : Word} (q : Word) :
    Function.update blocks p true q = true ↔ blocks q = true ∨ q ∈ [p] := by
  by_cases hq : q = p
  · simp [hq]
  · simp [hq]

theorem live_freed {blocks : Word → Bool} {p : Word} (q : Word) :
    Function.update blocks p false q = true ↔ blocks q = true ∧ q ∉ [p] := by
  by_cases hq : q = p
  · simp [hq]
  · simp [hq]

theorem handedOut_of_party {e : Event} (h : e.op.party = none) : handedOut e = none := by
  unfold handedOut
  split
  · next ho =>
    rw [ho] at h
    cases h
  · next ho =>
    rw [ho] at h
    cases h
  · rfl

/-- A block is handed out; its record comes next. -/
theorem BlockBooks.handOut {blocks : Word → Bool} {marks : Word → List Bool} {p : Word}
    (hb : BlockBooks blocks marks .idle) (hfresh : blocks p = false) :
    BlockBooks (Function.update blocks p true) marks (.allocated p) := by
  have hopen := hb.agrees.open () [p] rfl (fun k hk => by
    rw [List.mem_singleton.mp hk]
    exact ⟨by simp [blockAccount, hfresh], fun _ => by simp [blockAccount]⟩) (by simp)
  exact ⟨by simp, hopen.congr live_handedOut (funext fun _ => rfl) rfl fun _ => rfl⟩

/-- A block is freed and the release recorded at once. -/
theorem BlockBooks.free {blocks : Word → Bool} {marks : Word → List Bool} {p : Word}
    (hb : BlockBooks blocks marks .idle) (hlive : blocks p = true) :
    BlockBooks (Function.update blocks p false) (marked marks (some (p, false))) .idle := by
  have hclose := hb.agrees.close () [p] rfl (fun k hk => by
    rw [List.mem_singleton.mp hk]
    exact ⟨hlive, fun _ => by simp [blockAccount, BlockPhase.opening]⟩) (by simp)
  have hgive := hclose.give () p [] rfl
  exact ⟨hb.noList, hgive.congr live_freed rfl (funext fun _ => rfl) fun _ => rfl⟩

theorem BlockBooks.step {blocks : Word → Bool} {marks : Word → List Bool} {ph ph' : BlockPhase}
    {t : Nat} {i : Item} (hb : BlockBooks blocks marks ph) (hcaller : BlockCaller blocks i)
    (hfits : BlockFits i) (hadv : (blockTypestate π).Advance ph i ph') :
    BlockBooks (ownBlock blocks (t, i))
      (marked marks (Item.mark Record.block Foreign.block (t, i))) ph' := by
  cases hadv with
  | @event _ _ id e hstep =>
    have unowned : handedOut e = none → ownBlock blocks (t, .event id e) = blocks := fun h => by
      simp only [ownBlock, h]
    cases e with
    | mk o heard v before after =>
    cases hstep with
    | inert hp hd =>
      have hmark : Item.mark Record.block Foreign.block
          (t, .event id ⟨o, heard, v, before, after⟩) = none := by
        cases o <;> first | rfl | exact hd
      rw [unowned (handedOut_of_party hp), hmark]
      exact hb
    | @other f args _ h1 h2 =>
      have hnone : handedOut ⟨.native f args, heard, v, before, after⟩ = none := by
        unfold handedOut
        split
        · next ho => exact absurd (Op.native.inj ho).1 h1
        · next buf size ho =>
          obtain ⟨rfl, rfl⟩ := Op.native.inj ho
          have hnull : buf = NULL → v = NULL := hfits
          simp only [ite_eq_right_iff, reduceCtorEq, imp_false, not_and, not_not]
          exact hnull
        · rfl
      rw [unowned hnone]
      exact hb
    | callback =>
      rw [unowned rfl]
      exact hb
    | @realpath fileName v hv =>
      have hout : handedOut ⟨.native .realpath [fileName, NULL], heard, v, before, after⟩ =
          some v := by simp [handedOut, hv]
      have howner : ownBlock blocks (t, .event id
          ⟨.native .realpath [fileName, NULL], heard, v, before, after⟩) =
          Function.update blocks v true := by simp only [ownBlock, hout]
      rw [howner]
      exact hb.handOut (hcaller.1 v hout)
    | @realpathKept fileName resolvedName _ hv =>
      have hnone : handedOut
          ⟨.native .realpath [fileName, resolvedName], heard, v, before, after⟩ = none := by
        simpa [handedOut] using hv
      rw [unowned hnone]
      exact hb
    | noteAlloc =>
      rw [unowned rfl]
      exact ⟨by simp, (hb.agrees.take () _ [] rfl).congr (fun _ => Iff.rfl) (funext fun _ => rfl)
        rfl fun _ => rfl⟩
    | scandir hv => exact absurd hcaller.2 hv
    | scandirFailed =>
      rw [unowned rfl]
      exact hb
    | list => exact absurd rfl hb.noList
  | @act x =>
    cases x with
    | free p => exact hb.free hcaller
    | «open» | close => exact hb
  | exit hfinal =>
    cases ph with
    | idle => exact hb
    | allocated p => exact absurd rfl (hfinal p)
    | scanned => exact absurd rfl hb.noList
  | call | invoke | returned | hand => exact hb

theorem blockBooks_of_traced {log : List (Nat × Item)} {phases : Nat → BlockPhase}
    (h : (blockTypestate π).Traced blockFitting log phases) :
    BlockBooks (blocksOf log) (blockMarks log) (phases 0) := by
  induction h with
  | nil =>
    have hnone : ∀ p, ¬ blocksOf [] p = true := fun p hp => by cases hp
    exact ⟨by simp [blockTypestate], Account.agrees_nothing.congr (fun p => iff_false_intro (hnone p))
      (funext fun _ => rfl) rfl fun _ => rfl⟩
  | @snoc log phases t i ph' _ ho hadv ih =>
    obtain rfl : t = 0 := ho.1.1
    have hmarks : blockMarks (log ++ [(0, i)]) = marked (blockMarks log)
        (Item.mark Record.block Foreign.block (0, i)) := marks_snoc _ log (0, i)
    rw [hmarks, blocksOf_snoc, Function.update_self]
    exact ih.step ho.1.2 ho.2 hadv

/-! ## The records of one call -/

/-- The block that a returned call of a path wrapper hands out. -/
def Call.block (c : Call) (v : Word) : Option Word :=
  match c with
  | .realpath _ resolvedName => if resolvedName = NULL ∧ v ≠ NULL then some v else none
  | .getcwd buf _ => if buf = NULL ∧ v ≠ NULL then some v else none
  | _ => none

/-- The block is recorded once, with the size of the string in it, and nothing else is. -/
def RecordsBlock (π : Platform) (es : List Event) : Option Word → Prop
  | some p => ∃ e ∈ es, e.op = .strlen p ∧
      recorded es = [.alloc p ((e.answer.toNat + 1) % 2 ^ π.sizeBits)]
  | none => recorded es = []

theorem realpath_records {fileName resolvedName v : Word} {es : List Event}
    (h : Follows (p101Realpath π fileName resolvedName) es (.done v)) :
    RecordsBlock π es ((Call.realpath fileName resolvedName).block v) := by
  rw [p101Realpath_eq] at h
  obtain ⟨entry, check, es, rfl, hentry, hcheck, h⟩ := guarded_done h
  rcases h with ⟨-, rfl, raise, exit, rfl, hraise, hexit⟩ | ⟨-, h⟩
  · simp [Call.block, RecordsBlock, recordOf, hentry, hcheck, hraise, hexit]
  obtain ⟨reset, es, rfl, hreset, h⟩ := h.perform_done
  obtain ⟨main, es, rfl, hmain, h⟩ := h.perform_done
  by_cases hv : main.answer = NULL
  · simp only [hv, if_true] at h
    obtain ⟨rfl, get, raise, exit, rfl, hget, hraise, hexit⟩ := failing_done h
    simp [Call.block, RecordsBlock, recordOf, hentry, hcheck, hreset, hmain, hget, hraise, hexit]
  simp only [hv, if_false] at h
  by_cases hr : resolvedName = NULL
  · simp only [hr, if_true] at h
    obtain ⟨measure, es, rfl, hmeasure, h⟩ := h.perform_done
    obtain ⟨note, es, rfl, hnote, h⟩ := h.perform_done
    obtain ⟨rfl, exit, rfl, hexit⟩ := exiting_done h
    have hblock : (Call.realpath fileName resolvedName).block main.answer = some main.answer := by
      simp [Call.block, hr, hv]
    rw [hblock]
    refine ⟨measure, by simp, hmeasure, ?_⟩
    simp [recordOf, hentry, hcheck, hreset, hmain, hmeasure, hnote, hexit]
  · simp only [hr, if_false] at h
    obtain ⟨rfl, exit, rfl, hexit⟩ := exiting_done h
    simp [Call.block, hr, RecordsBlock, recordOf, hentry, hcheck, hreset, hmain, hexit]

theorem getcwd_records {buf size v : Word} {es : List Event}
    (h : Follows (p101Getcwd buf size) es (.done v)) :
    recorded es = [] ∧ (v = NULL ∨ ∃ e ∈ es, e.op = .native .getcwd [buf, size] ∧ e.answer = v) := by
  rw [p101Getcwd, errnoWrapper_eq] at h
  obtain ⟨entry, check, es, rfl, hentry, hcheck, h⟩ := guarded_done h
  rcases h with ⟨-, rfl, raise, exit, rfl, hraise, hexit⟩ | ⟨-, h⟩
  · simp [recordOf, hentry, hcheck, hraise, hexit]
  obtain ⟨reset, es, rfl, hreset, h⟩ := h.perform_done
  obtain ⟨main, es, rfl, hmain, h⟩ := h.perform_done
  by_cases hv : main.answer = NULL
  · simp only [hv, if_true] at h
    obtain ⟨rfl, get, raise, exit, rfl, hget, hraise, hexit⟩ := failing_done h
    simp [recordOf, hentry, hcheck, hreset, hmain, hget, hraise, hexit]
  · simp only [hv, if_false] at h
    obtain ⟨rfl, exit, rfl, hexit⟩ := exiting_done h
    refine ⟨?_, .inr ⟨main, by simp, hmain, rfl⟩⟩
    simp [recordOf, hentry, hcheck, hreset, hmain, hexit]

/-! ## Runs -/

/-- In runs in which no getcwd hands out a block, the records of every pointer alternate,
after every call the ledger holds exactly the blocks handed out and not yet freed, and
every call of a path wrapper records the block it returns, if any, and nothing else. -/
theorem block_balance
    (h : Effect.Config.Reach (system π) (Config.admits (system π) blockFitting) (startConfig heap)
      cfg) :
    (∀ p, Alternates (blockMarks cfg.log p)) ∧
      (UserRuns cfg 0 → ∀ p, held (blockMarks cfg.log p) = true ↔ blocksOf cfg.log p = true) ∧
      ∀ t id act v, (t, .exit id act v) ∈ cfg.log →
        act.entry.api = some .realpath ∨ act.entry.api = some .getcwd →
        RecordsBlock π act.past (act.entry.block v) := by
  obtain ⟨phases, htr, hph⟩ := h.traced (blockTypestate π)
  have hb := blockBooks_of_traced htr
  refine ⟨fun p => hb.agrees.alternates p rfl, fun hu p => ?_, fun t id act v hexit hapi => ?_⟩
  · have hidle : phases 0 = .idle := idle_of_userRuns (fun _ hg => hg) (hph 0) hu
    have hsettled := hb.agrees.settled (fun _ => by simp [blockAccount, hidle, BlockPhase.opening])
      (fun _ => rfl) p
    simpa [blockAccount] using hsettled
  · obtain ⟨now, hsound⟩ := h.accounted.returned t id act v hexit
    have hlogged : ∀ e ∈ act.past, (t, .event id e) ∈ cfg.log :=
      fun _ he => h.logged (.inr ⟨v, hexit⟩) he
    obtain ⟨entry, base, start, past⟩ := act
    have hfollows := hsound.follows
    cases entry with
    | realpath fileName resolvedName => exact realpath_records hfollows
    | getcwd buf size =>
      obtain ⟨hnone, hanswer⟩ := getcwd_records hfollows
      have hblock : (Call.getcwd buf size).block v = none := by
        simp only [Call.block, ite_eq_right_iff, reduceCtorEq, imp_false, not_and, not_not]
        intro hbuf
        rcases hanswer with hv | ⟨e, he, hop, rfl⟩
        · exact hv
        · obtain ⟨before, after, hlog⟩ := List.append_of_mem (hlogged e he)
          have hfits : BlockFits (.event id e) := (h.admitted hlog).2
          simp only [BlockFits, hop] at hfits
          exact hfits hbuf
      show RecordsBlock π past ((Call.getcwd buf size).block v)
      rw [hblock]
      exact hnone
    | _ => simp [Call.api] at hapi

/-! ## What does not fit -/

/-- realpath that answers `v`; `n` operations follow the native call. -/
def realpaths (resolvedName v : Word) (n : Nat) : List (Nat × Move) :=
  (0, .call (.realpath 9 resolvedName) 0 calm₀) :: runs 0 3 ++ answers 0 v ++ runs 0 n ++
    [(0, .exit)]

def getcwds (buf v : Word) (n : Nat) : List (Nat × Move) :=
  (0, .call (.getcwd buf 64) 0 calm₀) :: runs 0 3 ++ answers 0 v ++ runs 0 n ++ [(0, .exit)]

/-- The caller owns the block of a getcwd without a buffer and the ledger does not hold it;
freeing it is a release of something that was never taken. -/
theorem getcwd_unrecorded :
    (∃ cfg, (startConfig fun _ => 0).run (system linux) (Config.admits (system linux) blockCallers)
        (getcwds NULL 1 1) = some cfg ∧ UserRuns cfg 0 ∧ blocksOf cfg.log 1 = true ∧
      held (blockMarks cfg.log 1) = false) ∧
    ∃ cfg, (startConfig fun _ => 0).run (system linux) (Config.admits (system linux) blockCallers)
        (getcwds NULL 1 1 ++ [(0, .act (.free 1) calm₀)]) = some cfg ∧
      ¬ Alternates (blockMarks cfg.log 1) := by
  constructor
  · have hrun : ((startConfig fun _ => 0).run (system linux)
        (Config.admits (system linux) blockCallers) (getcwds NULL 1 1)).map
        (fun cfg => (decide (UserRuns cfg 0), blocksOf cfg.log 1, held (blockMarks cfg.log 1))) =
        some (true, true, false) := by decide +kernel
    obtain ⟨cfg, hcfg, hstate⟩ := Option.map_eq_some_iff.mp hrun
    obtain ⟨hu, hrest⟩ := Prod.mk.inj hstate
    obtain ⟨hown, hheld⟩ := Prod.mk.inj hrest
    exact ⟨cfg, hcfg, of_decide_eq_true hu, hown, hheld⟩
  · have hrun : ((startConfig fun _ => 0).run (system linux)
        (Config.admits (system linux) blockCallers)
        (getcwds NULL 1 1 ++ [(0, .act (.free 1) calm₀)])).map
        (fun cfg => blockMarks cfg.log 1) = some [false] := by decide +kernel
    obtain ⟨cfg, hcfg, hmarks⟩ := Option.map_eq_some_iff.mp hrun
    refine ⟨cfg, hcfg, ?_⟩
    rw [hmarks]
    intro halt
    have hfirst := halt 0 false rfl
    simp at hfirst

/-- Two blocks are handed out, one of them is freed and its address is handed out again;
buffers and failures are between them. -/
theorem block_balance_reuse :
    ∃ cfg, (startConfig fun _ => 0).run (system linux) (Config.admits (system linux) blockFitting)
        (realpaths NULL 1 3 ++ realpaths 5 5 1 ++ realpaths NULL 2 3 ++ getcwds 6 6 1 ++
          [(0, .act (.free 1) calm₀)] ++ realpaths NULL 0 3 ++ getcwds NULL 0 3 ++
          realpaths NULL 1 3) = some cfg ∧
      (∀ p, Alternates (blockMarks cfg.log p)) ∧
      (∀ p, held (blockMarks cfg.log p) = true ↔ blocksOf cfg.log p = true) ∧
      ∀ t id act v, (t, .exit id act v) ∈ cfg.log →
        act.entry.api = some .realpath ∨ act.entry.api = some .getcwd →
        RecordsBlock linux act.past (act.entry.block v) := by
  have hrun : ((startConfig fun _ => 0).run (system linux)
      (Config.admits (system linux) blockFitting)
      (realpaths NULL 1 3 ++ realpaths 5 5 1 ++ realpaths NULL 2 3 ++ getcwds 6 6 1 ++
        [(0, .act (.free 1) calm₀)] ++ realpaths NULL 0 3 ++ getcwds NULL 0 3 ++
        realpaths NULL 1 3)).map (fun cfg => decide (UserRuns cfg 0)) = some true := by decide +kernel
  obtain ⟨cfg, hcfg, hu⟩ := Option.map_eq_some_iff.mp hrun
  have hreach := Effect.Config.Reach.of_run .init hcfg
  obtain ⟨halt, hheld, hrecords⟩ := block_balance hreach
  exact ⟨cfg, hcfg, halt, hheld (of_decide_eq_true hu), hrecords⟩

end P101Filesystem
