import P101Filesystem.Source.Dirent
import P101Filesystem.Source.Stdlib
import P101Filesystem.Source.Unistd
import P101Filesystem.Source.Stat
import P101Filesystem.Source.Paths
import P101Filesystem.Source.Ftw

/-!
# The library as a system

User code calls the wrappers. The native walks call the trampolines; scandir and glob
call the user's functions directly. No other native call calls back.
-/
namespace P101Filesystem

open Effect

inductive Call where
  | access (path amode : Word)
  | alphasort (d1 d2 : Word)
  | basename (path : Word)
  | chdir (path : Word)
  | chmod (path mode : Word)
  | chown (path owner group : Word)
  | closedir (dirp : Word)
  | dirfd (dirp : Word)
  | dirname (path : Word)
  | faccessat (fd path amode flag : Word)
  | fchdir (fildes : Word)
  | fchmod (fildes mode : Word)
  | fchmodat (fd path mode flag : Word)
  | fchown (fildes owner group : Word)
  | fchownat (fd path owner group flag : Word)
  | fdopendir (fd : Word)
  | fnmatch (pattern string flags : Word)
  | fpathconf (fildes name : Word)
  | fstat (fildes buf : Word)
  | fstatat (fd path buf flag : Word)
  | fstatvfs (fildes buf : Word)
  | ftruncate (fildes length : Word)
  | ftw (path fn ndirs : Word)
  | futimens (fd times : Word)
  | getcwd (buf size : Word)
  | glob (pattern flags errfunc pglob : Word)
  | globfree (pglob : Word)
  | lchown (path owner group : Word)
  | link (path1 path2 : Word)
  | linkat (fd1 path1 fd2 path2 flag : Word)
  | lstat (path buf : Word)
  | mkdir (path mode : Word)
  | mkdirat (fd path mode : Word)
  | mkdtemp (nameTemplate : Word)
  | mknod (path mode dev : Word)
  | mkstemp (nameTemplate : Word)
  | nftw (path fn fdLimit flags : Word)
  | opendir (dirname : Word)
  | pathconf (path name : Word)
  | readdir (dirp : Word)
  | readlink (path buf bufsize : Word)
  | readlinkat (fd path buf bufsize : Word)
  | realpath (fileName resolvedName : Word)
  | renameat (oldfd oldName newfd newName : Word)
  | rewinddir (dirp : Word)
  | rmdir (path : Word)
  | scandir (dir namelist sel compar : Word)
  | seekdir (dirp loc : Word)
  | stat (path buf : Word)
  | statvfs (path buf : Word)
  | symlink (path1 path2 : Word)
  | symlinkat (path1 fd path2 : Word)
  | sync
  | telldir (dirp : Word)
  | truncate (path length : Word)
  | umask (cmask : Word)
  | unlink (path : Word)
  | unlinkat (fd path flag : Word)
  | utimensat (fd path times flag : Word)
  | callFtwCallback (path status type : Word)
  | callNftwCallback (path status type walk : Word)
  deriving DecidableEq, Repr

/-- The wrapper a call enters; the trampolines are none. -/
def Call.api : Call → Option Api
  | .access .. => some .access
  | .alphasort .. => some .alphasort
  | .basename .. => some .basename
  | .chdir .. => some .chdir
  | .chmod .. => some .chmod
  | .chown .. => some .chown
  | .closedir .. => some .closedir
  | .dirfd .. => some .dirfd
  | .dirname .. => some .dirname
  | .faccessat .. => some .faccessat
  | .fchdir .. => some .fchdir
  | .fchmod .. => some .fchmod
  | .fchmodat .. => some .fchmodat
  | .fchown .. => some .fchown
  | .fchownat .. => some .fchownat
  | .fdopendir .. => some .fdopendir
  | .fnmatch .. => some .fnmatch
  | .fpathconf .. => some .fpathconf
  | .fstat .. => some .fstat
  | .fstatat .. => some .fstatat
  | .fstatvfs .. => some .fstatvfs
  | .ftruncate .. => some .ftruncate
  | .ftw .. => some .ftw
  | .futimens .. => some .futimens
  | .getcwd .. => some .getcwd
  | .glob .. => some .glob
  | .globfree .. => some .globfree
  | .lchown .. => some .lchown
  | .link .. => some .link
  | .linkat .. => some .linkat
  | .lstat .. => some .lstat
  | .mkdir .. => some .mkdir
  | .mkdirat .. => some .mkdirat
  | .mkdtemp .. => some .mkdtemp
  | .mknod .. => some .mknod
  | .mkstemp .. => some .mkstemp
  | .nftw .. => some .nftw
  | .opendir .. => some .opendir
  | .pathconf .. => some .pathconf
  | .readdir .. => some .readdir
  | .readlink .. => some .readlink
  | .readlinkat .. => some .readlinkat
  | .realpath .. => some .realpath
  | .renameat .. => some .renameat
  | .rewinddir .. => some .rewinddir
  | .rmdir .. => some .rmdir
  | .scandir .. => some .scandir
  | .seekdir .. => some .seekdir
  | .stat .. => some .stat
  | .statvfs .. => some .statvfs
  | .symlink .. => some .symlink
  | .symlinkat .. => some .symlinkat
  | .sync => some .sync
  | .telldir .. => some .telldir
  | .truncate .. => some .truncate
  | .umask .. => some .umask
  | .unlink .. => some .unlink
  | .unlinkat .. => some .unlinkat
  | .utimensat .. => some .utimensat
  | .callFtwCallback .. => none
  | .callNftwCallback .. => none

/-- The kind of walk a call starts, and the callback it was given. -/
def Call.walk : Call → Option (Kind × Word)
  | .ftw _ fn _ => some (.ftw, fn)
  | .nftw _ fn _ _ => some (.nftw, fn)
  | _ => none

def Call.code (π : Platform) (base : Word) : Call → Code Word
  | .access path amode => p101Access path amode
  | .alphasort d1 d2 => p101Alphasort d1 d2
  | .basename path => p101Basename path
  | .chdir path => p101Chdir path
  | .chmod path mode => p101Chmod path mode
  | .chown path owner group => p101Chown path owner group
  | .closedir dirp => p101Closedir π dirp
  | .dirfd dirp => p101Dirfd dirp
  | .dirname path => p101Dirname path
  | .faccessat fd path amode flag => p101Faccessat fd path amode flag
  | .fchdir fildes => p101Fchdir fildes
  | .fchmod fildes mode => p101Fchmod fildes mode
  | .fchmodat fd path mode flag => p101Fchmodat fd path mode flag
  | .fchown fildes owner group => p101Fchown fildes owner group
  | .fchownat fd path owner group flag => p101Fchownat fd path owner group flag
  | .fdopendir fd => p101Fdopendir π fd
  | .fnmatch pattern string flags => p101Fnmatch π pattern string flags
  | .fpathconf fildes name => p101Fpathconf fildes name
  | .fstat fildes buf => p101Fstat fildes buf
  | .fstatat fd path buf flag => p101Fstatat fd path buf flag
  | .fstatvfs fildes buf => p101Fstatvfs fildes buf
  | .ftruncate fildes length => p101Ftruncate fildes length
  | .ftw path fn ndirs => p101Ftw π path fn ndirs base
  | .futimens fd times => p101Futimens fd times
  | .getcwd buf size => p101Getcwd buf size
  | .glob pattern flags errfunc pglob => p101Glob π pattern flags errfunc pglob
  | .globfree pglob => p101Globfree π pglob
  | .lchown path owner group => p101Lchown path owner group
  | .link path1 path2 => p101Link path1 path2
  | .linkat fd1 path1 fd2 path2 flag => p101Linkat fd1 path1 fd2 path2 flag
  | .lstat path buf => p101Lstat path buf
  | .mkdir path mode => p101Mkdir path mode
  | .mkdirat fd path mode => p101Mkdirat fd path mode
  | .mkdtemp nameTemplate => p101Mkdtemp nameTemplate
  | .mknod path mode dev => p101Mknod path mode dev
  | .mkstemp nameTemplate => p101Mkstemp nameTemplate
  | .nftw path fn fdLimit flags => p101Nftw π path fn fdLimit flags base
  | .opendir name => p101Opendir π name
  | .pathconf path name => p101Pathconf path name
  | .readdir dirp => p101Readdir dirp
  | .readlink path buf bufsize => p101Readlink path buf bufsize
  | .readlinkat fd path buf bufsize => p101Readlinkat fd path buf bufsize
  | .realpath fileName resolvedName => p101Realpath π fileName resolvedName
  | .renameat oldfd oldName newfd newName => p101Renameat π oldfd oldName newfd newName
  | .rewinddir dirp => p101Rewinddir dirp
  | .rmdir path => p101Rmdir path
  | .scandir dir namelist sel compar => p101Scandir π dir namelist sel compar
  | .seekdir dirp loc => p101Seekdir dirp loc
  | .stat path buf => p101Stat path buf
  | .statvfs path buf => p101Statvfs path buf
  | .symlink path1 path2 => p101Symlink path1 path2
  | .symlinkat path1 fd path2 => p101Symlinkat path1 fd path2
  | .sync => p101Sync
  | .telldir dirp => p101Telldir dirp
  | .truncate path length => p101Truncate path length
  | .umask cmask => p101Umask cmask
  | .unlink path => p101Unlink path
  | .unlinkat fd path flag => p101Unlinkat fd path flag
  | .utimensat fd path times flag => p101Utimensat fd path times flag
  | .callFtwCallback path status type => P101Filesystem.callFtwCallback path status type
  | .callNftwCallback path status type walk =>
    P101Filesystem.callNftwCallback path status type walk

def Party.permits : Party → Call → Bool
  | .native .ftw _, .callFtwCallback .. => true
  | .native .nftw _, .callNftwCallback .. => true
  | .native _ _, _ => false
  | _, c => c.api.isSome

/-- scandir calls its selector and comparator, glob its error function. -/
def Party.invokes : Party → Party → Bool
  | .native .scandir [_, _, sel, compar], .user fn _ => fn ≠ NULL ∧ (fn = sel ∨ fn = compar)
  | .native .glob [_, _, errfunc, _], .user fn _ => fn ≠ NULL ∧ fn = errfunc
  | _, _ => false

def Party.acts : Party → Foreign → Bool
  | .native _ _, _ => false
  | _, _ => true

/-- A walk wrapper has a context in its frame, with arbitrary content at first. -/
def enterFrame (c : Call) (base : Word) (a : Answer) (s : Shared) : Option Shared :=
  match c.walk with
  | none => some s
  | some (k, _) =>
    if base ≠ NULL ∧ (s.cells base).isNone then
      some (s.put base (some ⟨k, a.word, a.word, a.word⟩))
    else none

def leaveFrame (c : Call) (base : Word) (s : Shared) : Shared :=
  match c.walk with
  | none => s
  | some _ => s.put base none

/-- An outside party may leave any errno and write ordinary memory. The walk contexts
and the thread-local pointers are private to ftw.c. -/
def disturb (a : Answer) (s : Shared) (l : Local) : Shared × Local :=
  (s.write a.writes, { l with errno := a.errno })

def system (π : Platform) : System Op Word Party Call Answer Shared Local Foreign where
  code := fun c base => c.code π base
  party := Op.party
  run := Op.run
  permits := Party.permits
  invokes := Party.invokes
  acts := Party.acts
  disturb := disturb
  enter := enterFrame
  leave := leaveFrame

abbrev Activation := Effect.Activation Op Word Call Local
abbrev Frame := Effect.Frame Op Word Party Call Local
abbrev Thread := Effect.Thread Op Word Party Call Local
abbrev Move := Effect.Move Word Party Call Answer Foreign
abbrev Item := Effect.Item Op Word Party Call Local Foreign
abbrev Config := Effect.Config Op Word Party Call Shared Local Foreign
abbrev Solo := Effect.Solo Op Word Party Call Shared Local Foreign

/-- No walk is running: both pointers are NULL and no context is in scope. -/
def quietLocal : Local := ⟨0, fun _ => NULL⟩
def quietShared (heap : Word → Word) : Shared := ⟨fun _ => none, heap⟩

def startConfig (heap : Word → Word) : Config :=
  Effect.Config.init .main (quietShared heap) quietLocal

def startSolo (heap : Word → Word) : Solo :=
  Effect.Solo.init .main (quietShared heap) quietLocal

/-! Scripts of moves. -/

/-- Surroundings that inject nothing and leave errno alone. -/
def calm₀ : Answer := ⟨0, 0, []⟩

def runs (t n : Nat) : List (Nat × Move) := List.replicate n (t, .op calm₀)

/-- A native call that answers `v`. -/
def answers (t : Nat) (v : Word) : List (Nat × Move) := [(t, .hand), (t, .back v calm₀)]

end P101Filesystem
