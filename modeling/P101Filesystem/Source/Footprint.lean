import P101Filesystem.Source.Interface

/-!
# Shapes and footprints

Every wrapper has one of a few shapes. Its footprint is what it can do at all: it traces
and consults under its own name, calls its own native function, and only opendir and
closedir call another one, for their bookkeeping. The contexts of ftw.c are touched by the
walks and the trampolines alone. Each kind of record is made by one or two wrappers. Four
native calls may come back into the library.
-/
namespace P101Filesystem

open Effect (Program)

/-- The wrappers that report nothing, and those that spell out what they do. -/
inductive Shape (π : Platform) (base : Word) : Api → Code Word → Prop
  | errno {f} (failure : Word) (args : List Word) : Shape π base f (errnoWrapper f failure args)
  | inBand {f} (failure : Word) (args : List Word) : Shape π base f (inBandWrapper f failure args)
  | plain {f} (args : List Word) : Shape π base f (plainWrapper f args)
  | void {f} (args : List Word) : Shape π base f (voidWrapper f args (pure ()))
  | closedir (dirp : Word) : Shape π base .closedir (p101Closedir π dirp)
  | fdopendir (fd : Word) : Shape π base .fdopendir (p101Fdopendir π fd)
  | opendir (dirname : Word) : Shape π base .opendir (p101Opendir π dirname)
  | scandir (dir namelist sel compar : Word) :
      Shape π base .scandir (p101Scandir π dir namelist sel compar)
  | mkstemp (nameTemplate : Word) : Shape π base .mkstemp (p101Mkstemp nameTemplate)
  | realpath (fileName resolvedName : Word) :
      Shape π base .realpath (p101Realpath π fileName resolvedName)
  | renameat (oldfd oldName newfd newName : Word) :
      Shape π base .renameat (p101Renameat π oldfd oldName newfd newName)
  | fnmatch (pattern string flags : Word) :
      Shape π base .fnmatch (p101Fnmatch π pattern string flags)
  | glob (pattern flags errfunc pglob : Word) :
      Shape π base .glob (p101Glob π pattern flags errfunc pglob)
  | globfree (pglob : Word) : Shape π base .globfree (p101Globfree π pglob)
  | walk (k : Kind) (path fn limit : Word) (args : List Word) :
      Shape π base k.api (walk π k path fn limit args base)

theorem code_shape (π : Platform) (base : Word) {c : Call} {f : Api} (h : c.api = some f) :
    Shape π base f (c.code π base) := by
  cases c with
  | access | chdir | chmod | chown | dirfd | faccessat | fchdir | fchmod | fchmodat | fchown
  | fchownat | fstat | fstatat | fstatvfs | ftruncate | futimens | getcwd | lchown | link
  | linkat | lstat | mkdir | mkdirat | mkdtemp | mknod | readlink | readlinkat | rmdir | stat
  | statvfs | symlink | symlinkat | truncate | unlink | unlinkat | utimensat =>
    cases h
    exact .errno _ _
  | basename | dirname | fpathconf | pathconf | readdir | telldir =>
    cases h
    exact .inBand _ _
  | alphasort | umask =>
    cases h
    exact .plain _
  | rewinddir | seekdir | sync =>
    cases h
    exact .void _
  | closedir =>
    cases h
    exact .closedir _
  | fdopendir =>
    cases h
    exact .fdopendir _
  | opendir =>
    cases h
    exact .opendir _
  | scandir =>
    cases h
    exact .scandir _ _ _ _
  | mkstemp =>
    cases h
    exact .mkstemp _
  | realpath =>
    cases h
    exact .realpath _ _
  | renameat =>
    cases h
    exact .renameat _ _ _ _
  | fnmatch =>
    cases h
    exact .fnmatch _ _ _
  | glob =>
    cases h
    exact .glob _ _ _ _
  | globfree =>
    cases h
    exact .globfree _
  | ftw =>
    cases h
    exact .walk .ftw _ _ _ _
  | nftw =>
    cases h
    exact .walk .nftw _ _ _ _
  | callFtwCallback | callNftwCallback => cases h

/-- The wrappers that make a record of each kind. -/
def Record.madeBy (f : Api) : Record → Bool
  | .openFd _ => f = .opendir ∨ f = .mkstemp
  | .closeFd _ => f = .closedir
  | .alloc _ _ => f = .scandir ∨ f = .realpath
  | .acquire .directoryStream _ _ _ => f = .opendir ∨ f = .fdopendir
  | .acquire .globResult _ _ _ => f = .glob
  | .release .directoryStream _ => f = .closedir
  | .release .globResult _ => f = .globfree

def Op.footprint (f : Api) : Op → Bool
  | .traceEntry g => g = f
  | .traceExit g => g = f
  | .checkFault g => g = f
  | .native g _ => g = f ∨ (g = .dirfd ∧ (f = .opendir ∨ f = .closedir))
  | .raise _ _ _ => true
  | .getErrno => true
  | .setErrno _ => true
  | .strlen _ => true
  | .load _ => true
  | .record r => r.madeBy f
  | .callback _ _ => false
  | .getActive _ => f = .ftw ∨ f = .nftw
  | .setActive _ _ => f = .ftw ∨ f = .nftw
  | .loadField _ _ _ => f = .ftw ∨ f = .nftw
  | .storeField _ _ _ _ => f = .ftw ∨ f = .nftw

def Outside (f : Api) (o : Op) : Prop := o.footprint f = false

theorem trackEntries_footprint (π : Platform) (namelist : Word) (remaining index : Nat) :
    (trackEntries π namelist remaining index).Avoids (Outside .scandir) := by
  induction remaining generalizing index with
  | zero => simp [trackEntries]
  | succ remaining ih =>
    simp [trackEntries, load, trackAlloc, Outside, Op.footprint, Record.madeBy, ih]

theorem Shape.footprint {π : Platform} {base : Word} {f : Api} {p : Code Word}
    (h : Shape π base f p) : p.Avoids (Outside f) := by
  cases h with
  | errno | inBand | plain | void =>
    simp [errnoWrapper, inBandWrapper, plainWrapper, voidWrapper, wrapper, faultReturn, trace,
      traceExit, checkFault, raiseErrno, setErrno, native, when, raiseCurrentErrno,
      P101Filesystem.errno, Outside, Op.footprint]
  | closedir | fdopendir | opendir | mkstemp | realpath | renameat =>
    simp [p101Closedir, p101Fdopendir, p101Opendir, p101Mkstemp, p101Realpath, p101Renameat,
      wrapper, faultReturn, trace, traceExit, checkFault, raiseErrno, setErrno, native, when,
      raiseCurrentErrno, P101Filesystem.errno, trackOpen, trackClose, trackAlloc, trackAcquire,
      trackRelease, Outside, Op.footprint, Record.madeBy]
  | fnmatch | glob | globfree =>
    simp [p101Fnmatch, p101Glob, p101Globfree, voidWrapper, wrapper, faultReturnSystemCode, trace,
      traceExit, checkFault, raiseSystem, setErrno, native, when, trackAcquire, trackRelease,
      Outside, Op.footprint, Record.madeBy]
  | scandir =>
    simp [p101Scandir, wrapper, faultReturn, trace, traceExit, checkFault, raiseErrno, setErrno,
      native, when, raiseCurrentErrno, P101Filesystem.errno, load, trackAlloc, Outside,
      Op.footprint, Record.madeBy]
    intro v _ list _
    have hloop := trackEntries_footprint π
    refine ((hloop _ _ _).bind fun _ => ?_).bind fun _ => ?_
    · exact Program.avoids_done _ _
    · simp [Outside, Op.footprint]
  | walk k =>
    cases k <;>
      simp [P101Filesystem.walk, wrapper, faultReturn, trace, traceExit, checkFault, raiseErrno,
        setErrno, native, when, P101Filesystem.errno, getActive, setActive, loadField, storeField,
        Kind.api, Outside, Op.footprint]

/-- What a trampoline can do. -/
def Op.trampolined : Op → Bool
  | .callback _ _ | .getActive _ | .loadField _ _ _ | .storeField _ _ _ _ => true
  | _ => false

/-- What a call can do at all. -/
def Call.allows (c : Call) (o : Op) : Prop :=
  match c.api with
  | some f => o.footprint f = true
  | none => o.trampolined = true

theorem trampoline_footprint (k : Kind) (args : List Word) :
    (trampoline k args).Avoids fun o => o.trampolined = false := by
  simp [trampoline, getActive, loadField, storeField, when, Op.trampolined]

theorem Call.footprint (π : Platform) (base : Word) (c : Call) :
    (c.code π base).Avoids fun o => ¬ c.allows o := by
  cases hc : c.api with
  | some f =>
    simp only [Call.allows, hc, Bool.not_eq_true]
    exact (code_shape π base hc).footprint
  | none =>
    simp only [Call.allows, hc, Bool.not_eq_true]
    cases c with
    | callFtwCallback path status type => exact trampoline_footprint .ftw _
    | callNftwCallback path status type walk => exact trampoline_footprint .nftw _
    | _ => cases hc

/-- Native calls that may come back into the library. -/
def Party.reentrant : Party → Prop
  | .native f _ => f = .ftw ∨ f = .nftw ∨ f = .scandir ∨ f = .glob
  | _ => True

theorem reentrant_of_permits {g : Party} {c : Call} (h : g.permits c = true) : g.reentrant := by
  cases g with
  | main | user => trivial
  | native f args => cases f <;> first | cases h | simp [Party.reentrant]

theorem reentrant_of_invokes {g g' : Party} (h : g.invokes g' = true) : g.reentrant := by
  unfold Party.invokes at h
  split at h
  · simp [Party.reentrant]
  · simp [Party.reentrant]
  · cases h

theorem reentrant_of_acts {g : Party} {x : Foreign} (h : g.acts x = true) : g.reentrant := by
  cases g with
  | main | user => trivial
  | native => cases h

end P101Filesystem
