import P101Filesystem.Source.Footprint
import P101Filesystem.Source.Normal

/-!
# Which wrappers can be faulted

A wrapper that takes an error object is its guard and a body, and the body never consults
the injector. The six that take none and the trampolines never consult it at all.
-/
namespace P101Filesystem

open Effect

variable {π : Platform}

/-- The domain in which an injected code is raised, and the value that is then returned. -/
def Api.guard : Api → Option (Domain × (Word → Word))
  | .alphasort | .rewinddir | .seekdir | .umask | .sync | .globfree => none
  | .fnmatch | .glob => some (.system, fun fault => fault)
  | .basename | .dirname | .fdopendir | .getcwd | .mkdtemp | .opendir | .readdir | .realpath =>
    some (.errno, fun _ => NULL)
  | _ => some (.errno, fun _ => -1)

/-- The guard of the wrapper that a call enters. -/
def Call.guard (c : Call) : Option (Api × Domain × (Word → Word)) :=
  c.api.bind fun f => f.guard.map fun g => (f, g)

def Op.consults : Op → Bool
  | .checkFault _ => true
  | _ => false

/-- Programs without a consultation. -/
def Unguarded (p : Code Word) : Prop := p.Avoids fun o => o.consults = true

section
variable {o : Op} {next : Word → Code Word}

theorem unguarded_perform (ho : o.consults = false) (h : ∀ v, Unguarded (next v)) :
    Unguarded (.perform o next) := ⟨by simp [ho], h⟩

theorem unguarded_ite {c : Prop} [Decidable c] {p q : Code Word} (hp : Unguarded p)
    (hq : Unguarded q) : Unguarded (if c then p else q) := by
  split
  · exact hp
  · exact hq

theorem unguarded_exiting (f : Api) (v : Word) : Unguarded (exiting f v) :=
  unguarded_perform rfl fun _ => trivial

theorem unguarded_failing (f : Api) (v : Word) : Unguarded (failing f v) :=
  unguarded_perform rfl fun _ => unguarded_perform rfl fun _ => unguarded_exiting f v

end

/-- A wrapper is its guard and a body that does not consult the injector. -/
def Faultable (f : Api) (domain : Domain) (failure : Word → Word) (p : Code Word) : Prop :=
  ∃ body, p = guarded f domain failure body ∧ Unguarded body

theorem errnoWrapper_faultable (f : Api) (failure : Word) (args : List Word) :
    Faultable f .errno (fun _ => failure) (errnoWrapper f failure args) := by
  refine ⟨_, errnoWrapper_eq f failure args, unguarded_perform rfl fun _ => ?_⟩
  refine unguarded_perform rfl fun _ => unguarded_ite ?_ ?_
  · exact unguarded_failing f _
  · exact unguarded_exiting f _

theorem inBandWrapper_faultable (f : Api) (failure : Word) (args : List Word) :
    Faultable f .errno (fun _ => failure) (inBandWrapper f failure args) := by
  refine ⟨_, inBandWrapper_eq f failure args, unguarded_perform rfl fun _ => ?_⟩
  refine unguarded_perform rfl fun _ => unguarded_ite ?_ (unguarded_exiting f _)
  refine unguarded_perform rfl fun _ => unguarded_ite ?_ ?_
  · exact unguarded_failing f _
  · exact unguarded_exiting f _

theorem closedir_faultable (dirp : Word) :
    Faultable .closedir .errno (fun _ => -1) (p101Closedir π dirp) := by
  refine ⟨_, p101Closedir_eq π dirp, unguarded_perform rfl fun fd => ?_⟩
  refine unguarded_perform rfl fun _ => unguarded_perform rfl fun _ => unguarded_ite ?_ ?_
  · exact unguarded_failing .closedir _
  · refine unguarded_ite (unguarded_perform rfl fun _ => ?_) ?_
    · exact unguarded_perform rfl fun _ => unguarded_exiting .closedir _
    · exact unguarded_perform rfl fun _ => unguarded_exiting .closedir _

theorem fdopendir_faultable (fd : Word) :
    Faultable .fdopendir .errno (fun _ => NULL) (p101Fdopendir π fd) := by
  refine ⟨_, p101Fdopendir_eq π fd, unguarded_perform rfl fun _ => ?_⟩
  refine unguarded_perform rfl fun _ => unguarded_ite (unguarded_perform rfl fun _ => ?_) ?_
  · exact unguarded_ite (unguarded_failing .fdopendir _) (unguarded_exiting .fdopendir _)
  · exact unguarded_perform rfl fun _ => unguarded_exiting .fdopendir _

theorem opendir_faultable (dirname : Word) :
    Faultable .opendir .errno (fun _ => NULL) (p101Opendir π dirname) := by
  refine ⟨_, p101Opendir_eq π dirname, unguarded_perform rfl fun _ => ?_⟩
  refine unguarded_perform rfl fun _ => unguarded_ite (unguarded_failing .opendir _) ?_
  refine unguarded_perform rfl fun fd => unguarded_ite (unguarded_perform rfl fun _ => ?_) ?_
  · exact unguarded_perform rfl fun _ => unguarded_exiting .opendir _
  · exact unguarded_perform rfl fun _ => unguarded_exiting .opendir _

theorem scandir_faultable (dir namelist sel compar : Word) :
    Faultable .scandir .errno (fun _ => -1) (p101Scandir π dir namelist sel compar) := by
  refine ⟨_, p101Scandir_eq π dir namelist sel compar, unguarded_perform rfl fun _ => ?_⟩
  refine unguarded_perform rfl fun retVal => unguarded_ite (unguarded_failing .scandir _) ?_
  have hlist : (trackList π namelist retVal).Avoids fun o => o.consults = true :=
    (trackList_lists π namelist retVal).mono fun o ho => by
      cases o with
      | checkFault => rfl
      | _ => cases ho
  exact hlist.bind fun _ => unguarded_exiting .scandir _

theorem mkstemp_faultable (nameTemplate : Word) :
    Faultable .mkstemp .errno (fun _ => -1) (p101Mkstemp nameTemplate) := by
  refine ⟨_, p101Mkstemp_normal nameTemplate, unguarded_perform rfl fun _ => ?_⟩
  refine unguarded_perform rfl fun _ => unguarded_ite (unguarded_failing .mkstemp _) ?_
  exact unguarded_perform rfl fun _ => unguarded_exiting .mkstemp _

theorem realpath_faultable (fileName resolvedName : Word) :
    Faultable .realpath .errno (fun _ => NULL) (p101Realpath π fileName resolvedName) := by
  refine ⟨_, p101Realpath_eq π fileName resolvedName, unguarded_perform rfl fun _ => ?_⟩
  refine unguarded_perform rfl fun _ => unguarded_ite (unguarded_failing .realpath _) ?_
  refine unguarded_ite (unguarded_perform rfl fun _ => ?_) (unguarded_exiting .realpath _)
  exact unguarded_perform rfl fun _ => unguarded_exiting .realpath _

theorem renameat_faultable (oldfd oldName newfd newName : Word) :
    Faultable .renameat .errno (fun _ => -1) (p101Renameat π oldfd oldName newfd newName) := by
  refine ⟨_, p101Renameat_eq π oldfd oldName newfd newName, unguarded_perform rfl fun _ => ?_⟩
  refine unguarded_perform rfl fun _ => unguarded_ite ?_ (unguarded_exiting .renameat _)
  refine unguarded_perform rfl fun _ => unguarded_perform rfl fun _ => ?_
  exact unguarded_exiting .renameat _

theorem fnmatch_faultable (pattern string flags : Word) :
    Faultable .fnmatch .system (fun fault => fault) (p101Fnmatch π pattern string flags) := by
  refine ⟨_, p101Fnmatch_eq π pattern string flags, unguarded_perform rfl fun _ => ?_⟩
  refine unguarded_perform rfl fun _ => unguarded_ite ?_ (unguarded_exiting .fnmatch _)
  exact unguarded_perform rfl fun _ => unguarded_exiting .fnmatch _

theorem glob_faultable (pattern flags errfunc pglob : Word) :
    Faultable .glob .system (fun fault => fault) (p101Glob π pattern flags errfunc pglob) := by
  refine ⟨_, p101Glob_eq π pattern flags errfunc pglob, unguarded_perform rfl fun _ => ?_⟩
  refine unguarded_perform rfl fun _ => unguarded_ite (unguarded_perform rfl fun _ => ?_) ?_
  · exact unguarded_exiting .glob _
  · refine unguarded_ite (unguarded_perform rfl fun _ => ?_) (unguarded_exiting .glob _)
    exact unguarded_exiting .glob _

/-- Arguments are checked after the injector is consulted. -/
theorem walk_faultable (k : Kind) (path fn limit : Word) (args : List Word) (context : Word) :
    Faultable k.api .errno (fun _ => -1) (walk π k path fn limit args context) := by
  refine ⟨_, wrapper_faultReturn k.api (-1) _, Program.Avoids.bind ?_ fun _ => ?_⟩
  · simp [when, raiseErrno, storeField, getActive, setActive, setErrno, native, errno, loadField,
      Op.consults]
  · exact unguarded_exiting k.api _

theorem code_faultable {c : Call} {f : Api} {domain : Domain} {failure : Word → Word} (base : Word)
    (h : c.guard = some (f, domain, failure)) : Faultable f domain failure (c.code π base) := by
  cases c with
  | alphasort | rewinddir | seekdir | umask | sync | globfree | callFtwCallback
  | callNftwCallback => cases h
  | access | chdir | chmod | chown | dirfd | faccessat | fchdir | fchmod | fchmodat | fchown
  | fchownat | fstat | fstatat | fstatvfs | ftruncate | futimens | getcwd | lchown | link
  | linkat | lstat | mkdir | mkdirat | mkdtemp | mknod | readlink | readlinkat | rmdir | stat
  | statvfs | symlink | symlinkat | truncate | unlink | unlinkat | utimensat =>
    cases h
    exact errnoWrapper_faultable _ _ _
  | basename | dirname | fpathconf | pathconf | readdir | telldir =>
    cases h
    exact inBandWrapper_faultable _ _ _
  | closedir =>
    cases h
    exact closedir_faultable _
  | fdopendir =>
    cases h
    exact fdopendir_faultable _
  | opendir =>
    cases h
    exact opendir_faultable _
  | scandir =>
    cases h
    exact scandir_faultable _ _ _ _
  | mkstemp =>
    cases h
    exact mkstemp_faultable _
  | realpath =>
    cases h
    exact realpath_faultable _ _
  | renameat =>
    cases h
    exact renameat_faultable _ _ _ _
  | fnmatch =>
    cases h
    exact fnmatch_faultable _ _ _
  | glob =>
    cases h
    exact glob_faultable _ _ _ _
  | ftw =>
    cases h
    exact walk_faultable .ftw _ _ _ _ _
  | nftw =>
    cases h
    exact walk_faultable .nftw _ _ _ _ _

theorem code_unguarded {c : Call} (base : Word) (h : c.guard = none) :
    Unguarded (c.code π base) := by
  cases c with
  | alphasort | umask =>
    refine unguarded_perform rfl fun _ => unguarded_perform rfl fun _ => ?_
    exact unguarded_perform rfl fun v => unguarded_perform rfl fun _ => trivial
  | rewinddir | seekdir | sync =>
    refine unguarded_perform rfl fun _ => unguarded_perform rfl fun _ => ?_
    exact unguarded_perform rfl fun _ => unguarded_perform rfl fun _ => trivial
  | globfree pglob =>
    show Unguarded (p101Globfree π pglob)
    rw [p101Globfree_eq]
    refine unguarded_perform rfl fun _ => unguarded_perform rfl fun _ => ?_
    refine unguarded_perform rfl fun _ => unguarded_perform rfl fun _ => ?_
    exact unguarded_exiting .globfree 0
  | callFtwCallback | callNftwCallback =>
    refine (trampoline_footprint _ _).mono fun o ho => ?_
    cases o with
    | checkFault => rfl
    | _ => cases ho
  | _ => cases h

end P101Filesystem
