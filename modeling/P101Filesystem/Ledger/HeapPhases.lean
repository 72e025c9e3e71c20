import P101Filesystem.Ledger.Blocks
import P101Filesystem.Calls.Lists
import P101Filesystem.Threads.Alone

/-!
# Phases of the wrappers that allocate

Between its native call and its return, realpath has one block to record, and scandir an array
and the entries in it, which it reads one by one. Every other wrapper is idle throughout.
-/
namespace P101Filesystem

open Effect Ledger Protocol

variable {π : Platform}

/-- `allocated`, `array` and `entry` have a block at hand that is recorded next. In `round`,
`n` entries are left from index `i` on; in `slot`, one more. -/
inductive HeapPhase where
  | idle
  | allocated (p : Word)
  | scanned (namelist v : Word) | found (namelist v : Word) | array (namelist v block : Word)
  | round (namelist : Word) (n i : Nat) | slot (namelist list : Word) (n i : Nat)
  | entry (namelist block : Word) (n i : Nat)
  deriving DecidableEq, Repr

inductive HeapStep (π : Platform) : HeapPhase → Op → Word → HeapPhase → Prop
  | inert {ph o v} : o.party = none → o.block = none → o.reads = none → HeapStep π ph o v ph
  | glance {p v} : HeapStep π .idle (.load p) v .idle
  | other {f args v} : f ≠ .realpath → f ≠ .scandir → HeapStep π .idle (.native f args) v .idle
  | callback {fn args v} : HeapStep π .idle (.callback fn args) v .idle
  | realpath {fileName v} : v ≠ NULL →
      HeapStep π .idle (.native .realpath [fileName, NULL]) v (.allocated v)
  | realpathKept {fileName resolvedName v} : (resolvedName = NULL → v = NULL) →
      HeapStep π .idle (.native .realpath [fileName, resolvedName]) v .idle
  | noteAlloc {p size v} : HeapStep π (.allocated p) (.record (.alloc p size)) v .idle
  | scandirFailed {dir namelist sel compar} :
      HeapStep π .idle (.native .scandir [dir, namelist, sel, compar]) (-1) .idle
  | scandir {dir namelist sel compar v} : v ≠ -1 →
      HeapStep π .idle (.native .scandir [dir, namelist, sel, compar]) v (.scanned namelist v)
  | empty {namelist v} : HeapStep π (.scanned namelist v) (.load namelist) NULL .idle
  | find {namelist v list} : list ≠ NULL →
      HeapStep π (.scanned namelist v) (.load namelist) list (.found namelist v)
  | fetch {namelist v block} :
      HeapStep π (.found namelist v) (.load namelist) block (.array namelist v block)
  | noteArray {namelist v block size u} : HeapStep π (.array namelist v block)
      (.record (.alloc block size)) u (.round namelist v.toNat 0)
  | look {namelist n i list} :
      HeapStep π (.round namelist (n + 1) i) (.load namelist) list (.slot namelist list n i)
  | take {namelist list n i block} : HeapStep π (.slot namelist list n i)
      (.load (slotAt π list i)) block (.entry namelist block n i)
  | noteEntry {namelist block n i size u} : HeapStep π (.entry namelist block n i)
      (.record (.alloc block size)) u (.round namelist n (i + 1))

/-- Nothing is left to record. -/
def HeapPhase.Settled : HeapPhase → Prop
  | .idle => True
  | .round _ n _ => n = 0
  | _ => False

def heapProtocol (π : Platform) : Protocol Op Word HeapPhase :=
  ⟨HeapStep π, fun ph _ => ph.Settled⟩

theorem heap_concerns (π : Platform) : Concerns (heapProtocol π) .idle Api.allocates where
  routine := by
    intro ph o v ho
    cases o with
    | native | callback | load | record => cases ho
    | _ => exact .inert rfl rfl rfl
  load := .glance
  callback := .callback
  native := by
    intro f args v hf
    obtain ⟨h1, h2⟩ := Api.allocates_eq_false.mp hf
    exact .other h1 h2
  record hf hr := .inert rfl (Record.block_eq_none hf hr) rfl
  final := trivial
  dirfd := rfl

/-- The loop over the entries, one round for each. -/
theorem trackEntries_allocates (namelist v : Word) (n i : Nat) :
    (heapProtocol π).Keeps (.round namelist n i)
      ((trackEntries π namelist n i).bind fun _ => exiting .scandir v) := by
  induction n generalizing i with
  | zero => exact (heap_concerns π).exiting rfl
  | succ n ih =>
    simp only [trackEntries, load, trackAlloc, Program.bind_def, Program.op_bind, act_bind,
      Program.perform_bind]
    refine keeps_step (.slot namelist · n i) (fun _ => .look) fun list => ?_
    refine keeps_step (.entry namelist · n i) (fun _ => .take) fun block => ?_
    exact keeps_step (fun _ => .round namelist n (i + 1)) (fun _ => .noteEntry) fun _ => ih (i + 1)

theorem scandir_allocates (dir namelist sel compar : Word) :
    (heapProtocol π).Keeps .idle (p101Scandir π dir namelist sel compar) := by
  have hh := heap_concerns π
  rw [p101Scandir_eq]
  refine hh.guarded (fun _ => trivial) (hh.pass rfl fun _ => ?_)
  intro retVal
  by_cases hv : retVal = -1
  · subst hv
    refine ⟨.idle, .scandirFailed, ?_⟩
    simp only [if_true]
    exact hh.failing trivial
  · refine ⟨.scanned namelist retVal, .scandir hv, ?_⟩
    simp only [hv, if_false, trackList, load, trackAlloc, Program.bind_def, Program.op_bind,
      act_bind, Program.perform_bind]
    intro list
    by_cases hnull : list = NULL
    · subst hnull
      refine ⟨.idle, .empty, ?_⟩
      simp only [when, ne_eq, not_true_eq_false, if_false, Program.pure_def, Program.done_bind]
      exact hh.exiting trivial
    · refine ⟨.found namelist retVal, .find hnull, ?_⟩
      simp only [when, hnull, ne_eq, not_false_eq_true, if_true, Program.perform_bind]
      refine keeps_step (.array namelist retVal ·) (fun _ => .fetch) fun block => ?_
      refine keeps_step (fun _ => .round namelist retVal.toNat 0) (fun _ => .noteArray) fun _ => ?_
      exact trackEntries_allocates namelist retVal retVal.toNat 0

theorem code_allocates (c : Call) (b : Word) : (heapProtocol π).Keeps .idle (c.code π b) := by
  cases c with
  | realpath => exact (heap_concerns π).realpath .allocated .realpath .realpathKept .noteAlloc _ _
  | scandir => exact scandir_allocates _ _ _ _
  | _ => exact (heap_concerns π).code (fun f hf => by cases hf <;> rfl) b

def heapTypestate (π : Platform) : Typestate (system π) HeapPhase where
  protocol := heapProtocol π
  idle := .idle
  first := fun _ _ => .idle
  reentrant := Party.reentrant
  keeps := code_allocates
  permits := reentrant_of_permits
  invokes := reentrant_of_invokes
  acts := reentrant_of_acts
  hands := by
    intro ph o v ph' g hs hp hg
    cases hs with
    | inert hn => exact absurd (hn.symm.trans hp) (by simp)
    | other | callback | realpath | realpathKept | scandir | scandirFailed => rfl
    | _ => cases hp

end P101Filesystem
