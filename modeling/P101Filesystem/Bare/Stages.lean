import P101Filesystem.Bare.Machine
import P101Filesystem.Walk.Phases

/-!
# How far a call is, seen from outside

A wrapper has its answer, or has not come to it yet: it gets it from an injected fault, from
its own check of a walk's arguments, or from its native call, which it makes with the
arguments it was given. A trampoline looks the callback up, calls it with its own arguments,
and passes the result on.
-/
namespace P101Filesystem

open Effect

inductive Stage where
  | asked | settled (v : Word)
  | looking | calling (fn : Word) | passed (v : Word)
  deriving DecidableEq, Repr

/-- Operations of the wrapper of `f` that the outside learns nothing from. -/
def Op.aside (f : Api) : Op → Bool
  | .native g _ => Bare.bookkeeping f g
  | .callback _ _ => false
  | .checkFault _ => false
  | _ => true

inductive StageStep (c : Call) : Stage → Op → Word → Stage → Prop
  | wait {f o v} : c.api = some f → o.aside f = true → StageStep c .asked o v .asked
  | leave {f o u v} : c.api = some f → o.aside f = true → StageStep c (.settled u) o v (.settled u)
  | spare {f} : c.api = some f → StageStep c .asked (.checkFault f) 0 .asked
  | fault {f domain failure code} : c.guard = some (f, domain, failure) → code ≠ 0 →
      StageStep c .asked (.checkFault f) code (.settled (failure code))
  | reject {domain message code v} : c.rejected = true →
      StageStep c .asked (.raise domain message code) v (.settled (-1))
  | serve {f v} : c.api = some f → c.rejected = false →
      StageStep c .asked (.native f c.passed) v (.settled (c.returns v))
  | look {k p} : c.role = .trampoline k → StageStep c .looking (.getActive k) p .looking
  | fetch {k p fn} : c.role = .trampoline k →
      StageStep c .looking (.loadField k p .callback) fn (.calling fn)
  | call {k fn v} : c.role = .trampoline k →
      StageStep c (.calling fn) (.callback fn c.args) v (.passed v)
  | mark {k p u v w} : c.role = .trampoline k →
      StageStep c (.passed v) (.storeField k p .stopped u) w (.passed v)

/-- A call returns the answer it has. -/
def Stage.Final : Stage → Word → Prop
  | .settled u, v => v = u
  | .passed u, v => v = u
  | _, _ => False

def stageProtocol (c : Call) : Protocol Op Word Stage := ⟨StageStep c, Stage.Final⟩

def Call.firstStage (c : Call) : Stage := if c.api.isSome then .asked else .looking

section
open Protocol
variable {c : Call} {f : Api} {π : Platform}

theorem stage_wait (hf : c.api = some f) {o : Op} {next : Word → Code Word}
    (ho : o.aside f = true) (h : ∀ v, (stageProtocol c).Keeps .asked (next v)) :
    (stageProtocol c).Keeps .asked (.perform o next) :=
  keeps_step (fun _ => .asked) (fun _ => .wait hf ho) h

theorem stage_leave (hf : c.api = some f) {o : Op} {next : Word → Code Word} {u : Word}
    (ho : o.aside f = true) (h : ∀ v, (stageProtocol c).Keeps (.settled u) (next v)) :
    (stageProtocol c).Keeps (.settled u) (.perform o next) :=
  keeps_step (fun _ => .settled u) (fun _ => .leave hf ho) h

theorem stage_serve (hf : c.api = some f) (hr : c.rejected = false) {next : Word → Code Word}
    (h : ∀ v, (stageProtocol c).Keeps (.settled (c.returns v)) (next v)) :
    (stageProtocol c).Keeps .asked (.perform (.native f c.passed) next) :=
  keeps_step (fun v => .settled (c.returns v)) (fun _ => .serve hf hr) h

theorem stage_exiting (hf : c.api = some f) (g : Api) (u : Word) :
    (stageProtocol c).Keeps (.settled u) (exiting g u) :=
  stage_leave hf rfl fun _ => rfl

theorem stage_failing (hf : c.api = some f) (g : Api) (u : Word) :
    (stageProtocol c).Keeps (.settled u) (failing g u) :=
  stage_leave hf rfl fun _ => stage_leave hf rfl fun _ => stage_exiting hf g u

theorem stage_guarded {domain : Domain} {failure : Word → Word} {body : Code Word}
    (hf : c.api = some f) (hg : f.guard = some (domain, failure))
    (h : (stageProtocol c).Keeps .asked body) :
    (stageProtocol c).Keeps .asked (guarded f domain failure body) := by
  have hguard : c.guard = some (f, domain, failure) := by simp [Call.guard, hf, hg]
  refine stage_wait hf rfl fun _ => keeps_perform.mpr fun code => ?_
  by_cases hcode : code = 0
  · subst hcode
    exact ⟨.asked, .spare hf, h⟩
  · refine ⟨.settled (failure code), .fault hguard hcode, ?_⟩
    simp only [hcode, ne_eq, not_false_eq_true, if_true]
    exact stage_leave hf rfl fun _ => stage_exiting hf f _

/-- Code that only records a list, then `rest`. -/
theorem stage_lists (hf : c.api = some f) {p : Code Unit} {rest : Code Word} {u : Word}
    (hp : p.Avoids fun o => o.lists = false) (h : (stageProtocol c).Keeps (.settled u) rest) :
    (stageProtocol c).Keeps (.settled u) (p.bind fun _ => rest) := by
  induction p with
  | done a => exact h
  | perform o next ih =>
    refine stage_leave hf ?_ fun v => ih v (hp.2 v)
    cases o with
    | load | record => rfl
    | _ => exact absurd rfl hp.1

/-! ## The shapes -/

theorem errnoWrapper_stages (failure : Word) {args : List Word} (hf : c.api = some f)
    (hg : f.guard = some (.errno, fun _ => failure)) (hr : c.rejected = false)
    (ha : c.passed = args) (hv : ∀ v, c.returns v = v) :
    (stageProtocol c).Keeps .asked (errnoWrapper f failure args) := by
  subst ha
  rw [errnoWrapper_eq]
  refine stage_guarded hf hg (stage_wait hf rfl fun _ => stage_serve hf hr fun v => ?_)
  rw [hv]
  exact keeps_ite (stage_failing hf f v) (stage_exiting hf f v)

theorem inBandWrapper_stages (failure : Word) {args : List Word} (hf : c.api = some f)
    (hg : f.guard = some (.errno, fun _ => failure)) (hr : c.rejected = false)
    (ha : c.passed = args) (hv : ∀ v, c.returns v = v) :
    (stageProtocol c).Keeps .asked (inBandWrapper f failure args) := by
  subst ha
  rw [inBandWrapper_eq]
  refine stage_guarded hf hg (stage_wait hf rfl fun _ => stage_serve hf hr fun v => ?_)
  rw [hv]
  refine keeps_ite (stage_leave hf rfl fun e => ?_) (stage_exiting hf f v)
  exact keeps_ite (stage_failing hf f v) (stage_exiting hf f v)

theorem plainWrapper_stages {args : List Word} (hf : c.api = some f) (hr : c.rejected = false)
    (ha : c.passed = args) (hv : ∀ v, c.returns v = v) :
    (stageProtocol c).Keeps .asked (plainWrapper f args) := by
  subst ha
  rw [plainWrapper_eq]
  refine stage_wait hf rfl fun _ => stage_wait hf rfl fun _ => stage_serve hf hr fun v => ?_
  rw [hv]
  exact stage_exiting hf f v

theorem voidWrapper_stages {args : List Word} (hf : c.api = some f) (hr : c.rejected = false)
    (ha : c.passed = args) (hv : ∀ v, c.returns v = 0) :
    (stageProtocol c).Keeps .asked (voidWrapper f args (pure ())) := by
  subst ha
  refine stage_wait hf rfl fun _ => stage_wait hf rfl fun _ => stage_serve hf hr fun v => ?_
  rw [hv]
  exact stage_exiting hf f 0

theorem walkTail_stages {k : Kind} (hf : c.api = some k.api) (b v : Word) :
    (stageProtocol c).Keeps (.settled v) (walkTail π k b v) := by
  have exits : (stageProtocol c).Keeps (.settled v)
      (.perform (.traceExit k.api) fun _ => (.done v : Code Word)) := stage_exiting hf k.api v
  rw [walkTail_eq]
  refine stage_leave hf rfl fun savedErrno => stage_leave hf rfl fun previous => ?_
  refine stage_leave hf rfl fun _ => keeps_ite (stage_leave hf rfl fun stopped => ?_) exits
  exact keeps_ite (stage_leave hf rfl fun _ => exits) exits

theorem walk_stages {k : Kind} {path fn limit : Word} {args : List Word} (hf : c.api = some k.api)
    (hr : c.rejected = decide (path = NULL ∨ fn = NULL ∨ limit < 1)) (ha : c.passed = args)
    (hv : ∀ v, c.returns v = v) (b : Word) :
    (stageProtocol c).Keeps .asked (walk π k path fn limit args b) := by
  subst ha
  have hguard : c.guard = some (k.api, .errno, fun _ => -1) := by
    rw [Call.guard, hf]
    cases k <;> rfl
  have exits : (stageProtocol c).Keeps (.settled (-1))
      (.perform (.traceExit k.api) fun _ => (.done (-1) : Code Word)) := stage_exiting hf k.api _
  rw [walk_eq]
  refine stage_wait hf rfl fun _ => keeps_perform.mpr fun code => ?_
  by_cases hcode : code = 0
  · refine ⟨.asked, hcode ▸ .spare hf, ?_⟩
    simp only [hcode, ne_eq, not_true_eq_false, if_false]
    by_cases hbad : path = NULL ∨ fn = NULL ∨ limit < 1
    · rw [if_pos hbad]
      exact keeps_step (fun _ => .settled (-1)) (fun _ => .reject (by simp [hr, hbad])) fun _ => exits
    · rw [if_neg hbad]
      refine stage_wait hf rfl fun _ => stage_wait hf rfl fun _ => stage_wait hf rfl fun _ => ?_
      refine stage_wait hf rfl fun _ => stage_wait hf rfl fun _ => stage_wait hf rfl fun _ => ?_
      refine stage_serve hf (by simp [hr, hbad]) fun v => ?_
      rw [hv]
      exact walkTail_stages hf b v
  · refine ⟨.settled (-1), .fault hguard hcode, ?_⟩
    simp only [hcode, ne_eq, not_false_eq_true, if_true]
    exact stage_leave hf rfl fun _ => exits

theorem trampoline_stages {k : Kind} {args : List Word} (hr : c.role = .trampoline k)
    (ha : c.args = args) : (stageProtocol c).Keeps .looking (trampoline k args) := by
  subst ha
  rw [trampoline_eq]
  refine keeps_step (fun _ => .looking) (fun _ => .look hr) fun context => ?_
  refine keeps_step .calling (fun _ => .fetch hr) fun callback => ?_
  refine keeps_step .passed (fun _ => .call hr) fun result => ?_
  rw [trampolineTail_eq]
  exact keeps_ite (keeps_step (fun _ => .passed result) (fun _ => .mark hr) fun _ => rfl) rfl

theorem closedir_stages (dirp : Word) :
    (stageProtocol (.closedir dirp)).Keeps .asked (p101Closedir π dirp) := by
  rw [p101Closedir_eq]
  refine stage_guarded rfl rfl (stage_wait rfl rfl fun fd => stage_wait rfl rfl fun _ => ?_)
  refine stage_serve rfl rfl fun v => keeps_ite (stage_failing rfl _ v) ?_
  have released : (stageProtocol (.closedir dirp)).Keeps (.settled v)
      (.perform (.record (.release .directoryStream (π.pointerResourceId dirp))) fun _ =>
        exiting .closedir v) := stage_leave rfl rfl fun _ => stage_exiting rfl _ v
  exact keeps_ite (stage_leave rfl rfl fun _ => released) released

theorem fdopendir_stages (fd : Word) :
    (stageProtocol (.fdopendir fd)).Keeps .asked (p101Fdopendir π fd) := by
  rw [p101Fdopendir_eq]
  refine stage_guarded rfl rfl (stage_wait rfl rfl fun _ => stage_serve rfl rfl fun v => ?_)
  refine keeps_ite (stage_leave rfl rfl fun e => ?_)
    (stage_leave rfl rfl fun _ => stage_exiting rfl _ v)
  exact keeps_ite (stage_failing rfl _ v) (stage_exiting rfl _ v)

theorem opendir_stages (name : Word) :
    (stageProtocol (.opendir name)).Keeps .asked (p101Opendir π name) := by
  rw [p101Opendir_eq]
  refine stage_guarded rfl rfl (stage_wait rfl rfl fun _ => stage_serve rfl rfl fun v => ?_)
  refine keeps_ite (stage_failing rfl _ v) (stage_leave rfl rfl fun fd => ?_)
  have acquired : (stageProtocol (.opendir name)).Keeps (.settled v)
      (.perform (.record (.acquire .directoryStream (π.pointerResourceId v) 0 (.pointer name)))
        fun _ => exiting .opendir v) := stage_leave rfl rfl fun _ => stage_exiting rfl _ v
  exact keeps_ite (stage_leave rfl rfl fun _ => acquired) acquired

theorem scandir_stages (dir namelist sel compar : Word) :
    (stageProtocol (.scandir dir namelist sel compar)).Keeps .asked
      (p101Scandir π dir namelist sel compar) := by
  rw [p101Scandir_eq]
  refine stage_guarded rfl rfl (stage_wait rfl rfl fun _ => stage_serve rfl rfl fun v => ?_)
  refine keeps_ite (stage_failing rfl _ v) ?_
  exact stage_lists rfl (trackList_lists π namelist v) (stage_exiting rfl _ v)

theorem mkstemp_stages (nameTemplate : Word) :
    (stageProtocol (.mkstemp nameTemplate)).Keeps .asked (p101Mkstemp nameTemplate) := by
  rw [p101Mkstemp_normal]
  refine stage_guarded rfl rfl (stage_wait rfl rfl fun _ => stage_serve rfl rfl fun v => ?_)
  exact keeps_ite (stage_failing rfl _ v) (stage_leave rfl rfl fun _ => stage_exiting rfl _ v)

theorem realpath_stages (fileName resolvedName : Word) :
    (stageProtocol (.realpath fileName resolvedName)).Keeps .asked
      (p101Realpath π fileName resolvedName) := by
  rw [p101Realpath_eq]
  refine stage_guarded rfl rfl (stage_wait rfl rfl fun _ => stage_serve rfl rfl fun v => ?_)
  refine keeps_ite (stage_failing rfl _ v) (keeps_ite ?_ (stage_exiting rfl _ v))
  exact stage_leave rfl rfl fun _ => stage_leave rfl rfl fun _ => stage_exiting rfl _ v

theorem renameat_stages (oldfd oldName newfd newName : Word) :
    (stageProtocol (.renameat oldfd oldName newfd newName)).Keeps .asked
      (p101Renameat π oldfd oldName newfd newName) := by
  rw [p101Renameat_eq]
  refine stage_guarded rfl rfl (stage_wait rfl rfl fun _ => stage_serve rfl rfl fun v => ?_)
  refine keeps_ite ?_ (stage_exiting rfl _ v)
  exact stage_leave rfl rfl fun _ => stage_leave rfl rfl fun _ => stage_exiting rfl _ v

theorem fnmatch_stages (pattern string flags : Word) :
    (stageProtocol (.fnmatch pattern string flags)).Keeps .asked
      (p101Fnmatch π pattern string flags) := by
  rw [p101Fnmatch_eq]
  refine stage_guarded rfl rfl (stage_wait rfl rfl fun _ => stage_serve rfl rfl fun v => ?_)
  exact keeps_ite (stage_leave rfl rfl fun _ => stage_exiting rfl _ v) (stage_exiting rfl _ v)

theorem glob_stages (pattern flags errfunc pglob : Word) :
    (stageProtocol (.glob pattern flags errfunc pglob)).Keeps .asked
      (p101Glob π pattern flags errfunc pglob) := by
  rw [p101Glob_eq]
  refine stage_guarded rfl rfl (stage_wait rfl rfl fun _ => stage_serve rfl rfl fun v => ?_)
  refine keeps_ite (stage_leave rfl rfl fun _ => stage_exiting rfl _ v) ?_
  exact keeps_ite (stage_leave rfl rfl fun _ => stage_exiting rfl _ v) (stage_exiting rfl _ v)

theorem globfree_stages (pglob : Word) :
    (stageProtocol (.globfree pglob)).Keeps .asked (p101Globfree π pglob) := by
  rw [p101Globfree_eq]
  refine stage_wait rfl rfl fun _ => stage_wait rfl rfl fun _ => stage_serve rfl rfl fun v => ?_
  exact stage_leave rfl rfl fun _ => stage_exiting rfl _ 0

/-- Every call goes through its stages. -/
theorem code_stages (π : Platform) (c : Call) (b : Word) :
    (stageProtocol c).Keeps c.firstStage (c.code π b) := by
  cases c with
  | access | chdir | chmod | chown | dirfd | faccessat | fchdir | fchmod | fchmodat | fchown
  | fchownat | fstat | fstatat | fstatvfs | ftruncate | futimens | getcwd | lchown | link
  | linkat | lstat | mkdir | mkdirat | mkdtemp | mknod | readlink | readlinkat | rmdir | stat
  | statvfs | symlink | symlinkat | truncate | unlink | unlinkat | utimensat =>
    exact errnoWrapper_stages _ rfl rfl rfl rfl fun _ => rfl
  | basename | dirname | fpathconf | pathconf | readdir | telldir =>
    exact inBandWrapper_stages _ rfl rfl rfl rfl fun _ => rfl
  | alphasort | umask => exact plainWrapper_stages rfl rfl rfl fun _ => rfl
  | rewinddir | seekdir | sync => exact voidWrapper_stages rfl rfl rfl fun _ => rfl
  | closedir => exact closedir_stages _
  | fdopendir => exact fdopendir_stages _
  | opendir => exact opendir_stages _
  | scandir => exact scandir_stages _ _ _ _
  | mkstemp => exact mkstemp_stages _
  | realpath => exact realpath_stages _ _
  | renameat => exact renameat_stages _ _ _ _
  | fnmatch => exact fnmatch_stages _ _ _
  | glob => exact glob_stages _ _ _ _
  | globfree => exact globfree_stages _
  | ftw => exact walk_stages (k := .ftw) rfl rfl rfl (fun _ => rfl) b
  | nftw => exact walk_stages (k := .nftw) rfl rfl rfl (fun _ => rfl) b
  | callFtwCallback => exact trampoline_stages (k := .ftw) rfl rfl
  | callNftwCallback => exact trampoline_stages (k := .nftw) rfl rfl

end

end P101Filesystem
