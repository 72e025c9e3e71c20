import P101Filesystem.Calls.Guards
import P101Filesystem.Effect.Observation

/-!
# The bare machine

What the library stands for: user code that calls the native functions itself. A call is
refused by the injector, or on the spot if it is a walk with bad arguments. Otherwise its
native function runs once, with the arguments and the callback the caller gave, and its
answer is the caller's. Hooks, records, walk contexts, trampolines and the descriptor
queries of opendir and closedir do not exist here.
-/
namespace P101Filesystem

/-- The arguments as the caller gives them. -/
def Call.args : Call → List Word
  | .access path amode => [path, amode]
  | .alphasort d1 d2 => [d1, d2]
  | .basename path => [path]
  | .chdir path => [path]
  | .chmod path mode => [path, mode]
  | .chown path owner group => [path, owner, group]
  | .closedir dirp => [dirp]
  | .dirfd dirp => [dirp]
  | .dirname path => [path]
  | .faccessat fd path amode flag => [fd, path, amode, flag]
  | .fchdir fildes => [fildes]
  | .fchmod fildes mode => [fildes, mode]
  | .fchmodat fd path mode flag => [fd, path, mode, flag]
  | .fchown fildes owner group => [fildes, owner, group]
  | .fchownat fd path owner group flag => [fd, path, owner, group, flag]
  | .fdopendir fd => [fd]
  | .fnmatch pattern string flags => [pattern, string, flags]
  | .fpathconf fildes name => [fildes, name]
  | .fstat fildes buf => [fildes, buf]
  | .fstatat fd path buf flag => [fd, path, buf, flag]
  | .fstatvfs fildes buf => [fildes, buf]
  | .ftruncate fildes length => [fildes, length]
  | .ftw path fn ndirs => [path, fn, ndirs]
  | .futimens fd times => [fd, times]
  | .getcwd buf size => [buf, size]
  | .glob pattern flags errfunc pglob => [pattern, flags, errfunc, pglob]
  | .globfree pglob => [pglob]
  | .lchown path owner group => [path, owner, group]
  | .link path1 path2 => [path1, path2]
  | .linkat fd1 path1 fd2 path2 flag => [fd1, path1, fd2, path2, flag]
  | .lstat path buf => [path, buf]
  | .mkdir path mode => [path, mode]
  | .mkdirat fd path mode => [fd, path, mode]
  | .mkdtemp nameTemplate => [nameTemplate]
  | .mknod path mode dev => [path, mode, dev]
  | .mkstemp nameTemplate => [nameTemplate]
  | .nftw path fn fdLimit flags => [path, fn, fdLimit, flags]
  | .opendir name => [name]
  | .pathconf path name => [path, name]
  | .readdir dirp => [dirp]
  | .readlink path buf bufsize => [path, buf, bufsize]
  | .readlinkat fd path buf bufsize => [fd, path, buf, bufsize]
  | .realpath fileName resolvedName => [fileName, resolvedName]
  | .renameat oldfd oldName newfd newName => [oldfd, oldName, newfd, newName]
  | .rewinddir dirp => [dirp]
  | .rmdir path => [path]
  | .scandir dir namelist sel compar => [dir, namelist, sel, compar]
  | .seekdir dirp loc => [dirp, loc]
  | .stat path buf => [path, buf]
  | .statvfs path buf => [path, buf]
  | .symlink path1 path2 => [path1, path2]
  | .symlinkat path1 fd path2 => [path1, fd, path2]
  | .sync => []
  | .telldir dirp => [dirp]
  | .truncate path length => [path, length]
  | .umask cmask => [cmask]
  | .unlink path => [path]
  | .unlinkat fd path flag => [fd, path, flag]
  | .utimensat fd path times flag => [fd, path, times, flag]
  | .callFtwCallback path status type => [path, status, type]
  | .callNftwCallback path status type walk => [path, status, type, walk]

/-- What the wrapper hands to its native function: the callback of a walk stays behind. -/
def Call.passed : Call → List Word
  | .ftw path _ ndirs => [path, ndirs]
  | .nftw path _ fdLimit flags => [path, fdLimit, flags]
  | c => c.args

/-- What the caller is told of a native answer; nothing by a void function. -/
def Call.returns (c : Call) (v : Word) : Word :=
  match c with
  | .rewinddir _ => 0
  | .seekdir _ _ => 0
  | .sync => 0
  | .globfree _ => 0
  | _ => v

/-- Walks answer bad arguments themselves. -/
def Call.rejected : Call → Bool
  | .ftw path fn ndirs => path = NULL ∨ fn = NULL ∨ ndirs < 1
  | .nftw path fn fdLimit _ => path = NULL ∨ fn = NULL ∨ fdLimit < 1
  | _ => false

namespace Bare

/-- A party with what its own calls answered; a call that was made; one that has its answer. -/
inductive Frame where
  | party (g : Party) (heard : List Word)
  | asked (c : Call)
  | settled (c : Call) (v : Word)
  deriving DecidableEq, Repr

inductive Label where
  | ask (c : Call)
  | refuse (code : Word)
  | start (f : Api) (args : List Word)
  | answer (v : Word)
  | visit (g : Party)
  | back (v : Word)
  | deliver (v : Word)
  | act (x : Foreign)
  deriving DecidableEq, Repr

/-- A native function calls the user functions it was given and no others. -/
def visits : Party → Party → Bool
  | .native .ftw [_, fn, _], .user g [_, _, _] => g = fn
  | .native .nftw [_, fn, _, _], .user g [_, _, _, _] => g = fn
  | d, g => d.invokes g

def step (st : List Frame) (lb : Label) : Option (List Frame) :=
  match lb, st with
  | .ask c, .party g heard :: below =>
    if g.permits c ∧ c.api.isSome then some (.asked c :: .party g heard :: below) else none
  | .refuse code, .asked c :: below =>
    match c.guard with
    | some (_, _, failure) => if code ≠ 0 then some (.settled c (failure code) :: below) else none
    | none => none
  | .start f args, .asked c :: below =>
    if c.api = some f ∧ args = c.passed ∧ c.rejected = false then
      some (.party (.native f c.args) [] :: .asked c :: below)
    else none
  | .answer v, .party _ _ :: .asked c :: below => some (.settled c (c.returns v) :: below)
  | .visit g', .party g heard :: below =>
    if visits g g' then some (.party g' [] :: .party g heard :: below) else none
  | .back v, .party _ _ :: .party g heard :: below => some (.party g (heard ++ [v]) :: below)
  | .deliver v, .settled _ w :: .party g heard :: below =>
    if v = w then some (.party g (heard ++ [v]) :: below) else none
  | .deliver v, .asked c :: .party g heard :: below =>
    if c.rejected ∧ v = -1 then some (.party g (heard ++ [v]) :: below) else none
  | .act x, .party g heard :: below => if g.acts x then some (.party g heard :: below) else none
  | _, _ => none

/-! ## What a thread of the library shows of it -/

/-- The call that the log has at `id`. -/
def calledAs (log : List (Nat × Item)) (id : Nat) : Option Call :=
  match log[id]? with
  | some (_, .call _ c _) => some c
  | _ => none

/-- A descriptor query that the caller did not make. -/
def bookkeeping (f g : Api) : Bool := g = .dirfd ∧ f ≠ .dirfd

/-- What call `id` shows of a native call of `g`. -/
def unlessBookkeeping (log : List (Nat × Item)) (id : Nat) (g : Api) (lb : Label) : Option Label :=
  match (calledAs log id).bind Call.api with
  | some f => if bookkeeping f g then none else some lb
  | none => some lb

def observe (log : List (Nat × Item)) : Item → Option Label
  | .call _ c _ => if c.api.isSome then some (.ask c) else none
  | .invoke g => some (.visit g)
  | .act x => some (.act x)
  | .returned v => some (.back v)
  | .hand id (.native f args) => unlessBookkeeping log id f (.start f args)
  | .hand _ (.callback fn args) => some (.visit (.user fn args))
  | .hand _ _ => none
  | .event id e =>
    match e.op with
    | .native f _ => unlessBookkeeping log id f (.answer e.answer)
    | .callback _ _ => some (.back e.answer)
    | .checkFault _ => if e.answer = 0 then none else some (.refuse e.answer)
    | _ => none
  | .exit _ act v => if act.entry.api.isSome then some (.deliver v) else none

/-- What the threads show, in the order in which they show it. -/
abbrev history (log : List (Nat × Item)) : List (Nat × Label) := Effect.shows observe log

/-- A thread of the bare machine before it does anything. -/
def quiet : List Frame := [.party .main []]

end Bare

end P101Filesystem
