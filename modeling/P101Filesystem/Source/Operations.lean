import P101Filesystem.Effect.Machine
import Mathlib.Algebra.Group.Int.Defs
import Mathlib.Algebra.Group.Nat.Defs

/-!
# What the wrappers are made of

Every value the C code handles is a machine word; pointers are addresses and NULL is 0.
The operations are the p101_env and p101_error macros, errno, the native calls and the
accesses to the walk contexts of ftw.c.
-/
namespace P101Filesystem

open Effect

abbrev Word := Int

abbrev NULL : Word := 0

/-- The wrapped functions. The wrapper of `f` is `p101_f`; it calls the native `f`. -/
inductive Api where
  | access | alphasort | basename | chdir | chmod | chown | closedir | dirfd | dirname
  | faccessat | fchdir | fchmod | fchmodat | fchown | fchownat | fdopendir | fnmatch
  | fpathconf | fstat | fstatat | fstatvfs | ftruncate | ftw | futimens | getcwd | glob
  | globfree | lchown | link | linkat | lstat | mkdir | mkdirat | mkdtemp | mknod | mkstemp
  | nftw | opendir | pathconf | readdir | readlink | readlinkat | realpath | renameat
  | rewinddir | rmdir | scandir | seekdir | stat | statvfs | symlink | symlinkat | sync
  | telldir | truncate | umask | unlink | unlinkat | utimensat
  deriving DecidableEq, Repr

/-- The two kinds of tree walk. -/
inductive Kind where
  | ftw | nftw
  deriving DecidableEq, Repr

def Kind.api : Kind → Api
  | .ftw => .ftw
  | .nftw => .nftw

inductive Domain where
  | errno | system
  deriving DecidableEq, Repr

inductive ResourceClass where
  | directoryStream | globResult
  deriving DecidableEq, Repr

/-- The metadata string of an acquire record. -/
inductive Label where
  | absent
  | text (s : String)
  | pointer (p : Word)
  deriving DecidableEq, Repr

/-- What the P101_TRACK macros report. -/
inductive Record where
  | openFd (fd : Word)
  | closeFd (fd : Word)
  | alloc (p : Word) (size : Nat)
  | acquire (cls : ResourceClass) (id : String) (size : Nat) (label : Label)
  | release (cls : ResourceClass) (id : String)
  deriving DecidableEq, Repr

/-- The fields of `struct ftw_callback_context` and `struct nftw_callback_context`. -/
inductive Field where
  | callback | stopped | previous
  deriving DecidableEq, Repr

structure Context where
  kind : Kind
  callback : Word
  stopped : Word
  previous : Word
  deriving DecidableEq, Repr

def Context.get (c : Context) : Field → Word
  | .callback => c.callback
  | .stopped => c.stopped
  | .previous => c.previous

def Context.set (c : Context) (v : Word) : Field → Context
  | .callback => { c with callback := v }
  | .stopped => { c with stopped := v }
  | .previous => { c with previous := v }

@[simp] theorem Context.set_kind (c : Context) (v : Word) (f : Field) :
    (c.set v f).kind = c.kind := by
  cases f <;> rfl

inductive Op where
  | traceEntry (f : Api)
  | traceExit (f : Api)
  | checkFault (f : Api)
  | raise (domain : Domain) (message : Option String) (code : Word)
  | getErrno
  | setErrno (e : Word)
  | native (f : Api) (args : List Word)
  | callback (fn : Word) (args : List Word)
  | strlen (s : Word)
  | load (p : Word)
  | record (r : Record)
  | getActive (k : Kind)
  | setActive (k : Kind) (p : Word)
  | loadField (k : Kind) (p : Word) (f : Field)
  | storeField (k : Kind) (p : Word) (f : Field) (v : Word)
  deriving DecidableEq, Repr

/-- Values the platform's headers and p101_env fix. Resource ids spell pointers
injectively; the glob results are distinct and nonzero. -/
structure Platform where
  pointerResourceId : Word → String
  pointerResourceId_injective : Function.Injective pointerResourceId
  einval : Word
  eio : Word
  einval_ne_zero : einval ≠ 0
  eio_ne_zero : eio ≠ 0
  fnmNomatch : Word
  globNomatch : Word
  globAborted : Word
  globNospace : Word
  glob_results : [0, globNomatch, globAborted, globNospace].Nodup
  sizeofDirent : Nat
  sizeofDirentPointer : Nat
  sizeBits : Nat

/-- A 64-bit Linux with glibc. The id of a pointer need only be injective, so it is
spelled in unary. -/
def linux : Platform where
  pointerResourceId p :=
    String.ofList (List.replicate p.toNat 'p' ++ List.replicate (-p).toNat 'n')
  pointerResourceId_injective := by
    intro (p : Int) (q : Int) h
    have hl := String.ofList_injective h
    have hp := congrArg (List.count 'p') hl
    have hn := congrArg (List.count 'n') hl
    simp [List.count_replicate] at hp hn
    change @Eq Int p q
    omega
  einval := 22
  eio := 5
  einval_ne_zero := by decide
  eio_ne_zero := by decide
  fnmNomatch := 1
  globNomatch := 3
  globAborted := 2
  globNospace := 1
  glob_results := by decide
  sizeofDirent := 280
  sizeofDirentPointer := 8
  sizeBits := 64

/-- What the surroundings contribute to one step: a word (an injector's answer, the
content of fresh storage), the errno left behind, and writes to ordinary memory. -/
structure Answer where
  word : Word
  errno : Word
  writes : List (Word × Word)
  deriving DecidableEq, Repr

/-- Thread-local state: errno, `active_ftw_context` and `active_nftw_context`. -/
structure Local where
  errno : Word
  active : Kind → Word

/-- Walk contexts that are in scope, by address, and ordinary memory. -/
structure Shared where
  cells : Word → Option Context
  heap : Word → Word

/-- The live context of kind `k` at `p`; reading or writing any other is undefined. -/
def Shared.context (s : Shared) (k : Kind) (p : Word) : Option Context :=
  (s.cells p).filter fun c => c.kind = k

def Shared.put (s : Shared) (p : Word) (c : Option Context) : Shared :=
  { s with cells := Function.update s.cells p c }

def Shared.write (s : Shared) (writes : List (Word × Word)) : Shared :=
  { s with heap := writes.foldl (fun h w => Function.update h w.1 w.2) s.heap }

@[simp] theorem Shared.write_cells (s : Shared) (writes : List (Word × Word)) :
    (s.write writes).cells = s.cells := rfl
@[simp] theorem Shared.put_cells (s : Shared) (p : Word) (c : Option Context) :
    (s.put p c).cells = Function.update s.cells p c := rfl
@[simp] theorem Shared.put_heap (s : Shared) (p : Word) (c : Option Context) :
    (s.put p c).heap = s.heap := rfl

/-- Outside parties: the main program, a user function with its arguments, a native call. -/
inductive Party where
  | main
  | user (fn : Word) (args : List Word)
  | native (f : Api) (args : List Word)
  deriving DecidableEq, Repr

/-- Wrappers of other p101 libraries that report into the same ledger. -/
inductive Foreign where
  | open (fd : Word)
  | close (fd : Word)
  | free (p : Word)
  deriving DecidableEq, Repr

def Op.party : Op → Option Party
  | .native f args => some (.native f args)
  | .callback fn args => some (.user fn args)
  | _ => none

/-- Tracing, the injector and the ledger observers run code that may leave any errno;
raising preserves it. -/
def Op.run : Op → Answer → Shared → Local → Option (Word × Shared × Local)
  | .traceEntry _, a, s, l => some (0, s, { l with errno := a.errno })
  | .traceExit _, a, s, l => some (0, s, { l with errno := a.errno })
  | .checkFault _, a, s, l => some (a.word, s, { l with errno := a.errno })
  | .raise _ _ _, _, s, l => some (0, s, l)
  | .getErrno, _, s, l => some (l.errno, s, l)
  | .setErrno e, _, s, l => some (0, s, { l with errno := e })
  | .native _ _, _, _, _ => none
  | .callback _ _, _, _, _ => none
  | .strlen _, a, s, l => some (a.word, s, { l with errno := a.errno })
  | .load p, _, s, l => some (s.heap p, s, l)
  | .record _, a, s, l => some (0, s, { l with errno := a.errno })
  | .getActive k, _, s, l => some (l.active k, s, l)
  | .setActive k p, _, s, l => some (0, s, { l with active := Function.update l.active k p })
  | .loadField k p f, _, s, l => (s.context k p).map fun c => (c.get f, s, l)
  | .storeField k p f v, _, s, l => (s.context k p).map fun c => (0, s.put p (some (c.set v f)), l)

abbrev Code := Program Op Word

abbrev Event := Effect.Event Op Word Local

end P101Filesystem
