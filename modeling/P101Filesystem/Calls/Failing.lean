import P101Filesystem.Calls.Telling
import P101Filesystem.Effect.Imitation

/-!
# How a wrapper fails

A wrapper that raises errno fails in the same way whether it is refused or its native call
fails: with the right answer and the right errno of the native call it raises the code that
the injector would have given, records nothing and returns the same.
-/
namespace P101Filesystem

open Effect

variable {π : Platform}

/-- Calls that are refused in the way in which they fail: fnmatch and glob raise no errno, and
a walk with bad arguments never comes to fail. -/
def Call.imitable (c : Call) : Bool :=
  match c.guard with
  | some (_, .errno, _) => !c.rejected
  | _ => false

/-- What a thread makes its callers and the error object see: its calls, their errors and
records, and what they return. -/
inductive Notice where
  | made (c : Call)
  | told (o : Op)
  | got (c : Call) (v : Word)
  deriving DecidableEq, Repr

def noticed : Report Op Word Call Local Notice :=
  ⟨fun c => [.made c], fun e => (Event.tells e).map .told, fun c v => [.got c v]⟩

/-- The injector injects nothing. -/
def Op.spares : Op → Answer → Prop
  | .checkFault _, a => a.word = 0
  | _, _ => True

/-- With nothing injected and native calls that call nothing, the code may tell `ops` and return. -/
abbrev Completes (π : Platform) (p : Code Word) (s : Shared) (l : Local) (ops : List Op) (v : Word)
    (s' : Shared) (l' : Local) : Prop :=
  Prompt (system π) Op.spares noticed p s l (ops.map .told) v s' l'

/-! ## Single operations -/

section
variable {s s₁ s' : Shared} {l l₁ l' : Local} {o : Op} {next : Word → Code Word} {ops : List Op}
  {v w : Word} {f : Api}

theorem completes_op (a : Answer) (hp : o.party = none) (ht : o.tells = false) (hc : o.spares a)
    (hr : o.run a s l = some (w, s₁, l₁)) (h : Completes π (next w) s₁ l₁ ops v s' l') :
    Completes π (.perform o next) s l ops v s' l' := by
  have hop : Prompt (system π) Op.spares noticed (.perform o next) s l
      (noticed.event ⟨o, [], w, l, l₁⟩ ++ ops.map .told) v s' l' := .op hp hc hr h
  have hquiet : noticed.event ⟨o, [], w, l, l₁⟩ = [] := by simp [noticed, Event.tells, ht]
  rw [hquiet] at hop
  exact hop

/-- The native call answers `w` and leaves `e`. -/
theorem completes_native (w e : Word) {args : List Word}
    (h : Completes π (next w) s ⟨e, l.active⟩ ops v s' l') :
    Completes π (.perform (.native f args) next) s l ops v s' l' :=
  have hparty : (system π).party (.native f args) = some (.native f args) := rfl
  .answered w (⟨0, e, []⟩ : Answer) hparty h

theorem completes_setErrno {e : Word} (h : Completes π (next 0) s ⟨e, l.active⟩ ops v s' l') :
    Completes π (.perform (.setErrno e) next) s l ops v s' l' :=
  completes_op calm₀ rfl rfl trivial rfl h

theorem completes_getErrno (h : Completes π (next l.errno) s l ops v s' l') :
    Completes π (.perform .getErrno next) s l ops v s' l' :=
  completes_op calm₀ rfl rfl trivial rfl h

theorem completes_raise {d : Domain} {m : Option String} {code : Word}
    (h : Completes π (next 0) s l ops v s' l') :
    Completes π (.perform (.raise d m code) next) s l (.raise d m code :: ops) v s' l' :=
  show Prompt (system π) Op.spares noticed (.perform (.raise d m code) next) s l
      (noticed.event ⟨.raise d m code, [], 0, l, l⟩ ++ ops.map .told) v s' l' from
    .op (a := calm₀) rfl trivial rfl h

theorem completes_exiting (e : Word) : Completes π (exiting f v) s l [] v s ⟨e, l.active⟩ :=
  completes_op ⟨0, e, []⟩ rfl rfl trivial rfl .done

theorem completes_failing (e : Word) :
    Completes π (failing f v) s l [.raise .errno none l.errno] v s ⟨e, l.active⟩ :=
  completes_getErrno (completes_raise (completes_exiting e))

end

/-! ## Wrappers -/

/-- The body may raise `k`, tell nothing else and return `v`, and leave nothing behind. -/
def FailsWith (π : Platform) (c : Call) (base : Word) (body : Code Word) (k v : Word) : Prop :=
  ∀ s l e, (∀ w, c.walk = some w → ∃ x, s.context w.1 base = some x) →
    ∃ s', Completes π body s l [.raise .errno none k] v s' ⟨e, l.active⟩ ∧
      leaveFrame c base s' = leaveFrame c base s

/-- The wrapper of `f` may fail so with any code. -/
def Fails (π : Platform) (c : Call) (base : Word) (f : Api) (failure : Word → Word)
    (p : Code Word) : Prop :=
  ∃ body, p = guarded f .errno failure body ∧ ∀ k, k ≠ 0 → FailsWith π c base body k (failure k)

section
variable {c : Call} {base : Word} {f : Api} {k failure : Word} {args : List Word}
  {tail : Word → Code Word}

/-- The native call fails, and errno is raised. -/
theorem native_tells (s : Shared) (l : Local) (e : Word) (h : ∀ l, l.errno = k →
      Completes π (tail failure) s l [.raise .errno none k] failure s ⟨e, l.active⟩) :
    Completes π (.perform (.setErrno 0) fun _ => .perform (.native f args) tail) s l
      [.raise .errno none k] failure s ⟨e, l.active⟩ :=
  completes_setErrno (completes_native failure k (h ⟨k, l.active⟩ rfl))

theorem native_fails (h : ∀ s l e, l.errno = k →
      Completes π (tail failure) s l [.raise .errno none k] failure s ⟨e, l.active⟩) :
    FailsWith π c base (.perform (.setErrno 0) fun _ => .perform (.native f args) tail) k failure :=
  fun s l e _ => ⟨s, native_tells s l e fun l => h s l e, rfl⟩

theorem failing_tells (f : Api) (s : Shared) (l : Local) (e v : Word) (hk : l.errno = k) :
    Completes π (failing f v) s l [.raise .errno none k] v s ⟨e, l.active⟩ :=
  hk ▸ completes_failing e

theorem inBand_tells (f : Api) (s : Shared) (l : Local) (e v : Word) (hk : l.errno = k)
    (h0 : k ≠ 0) :
    Completes π (.perform .getErrno fun n => if n ≠ 0 then failing f v else exiting f v) s l
      [.raise .errno none k] v s ⟨e, l.active⟩ := by
  refine completes_getErrno ?_
  rw [hk, if_pos h0]
  exact failing_tells f s l e v hk

theorem errnoWrapper_fails (f : Api) (failure : Word) (args : List Word) :
    Fails π c base f (fun _ => failure) (errnoWrapper f failure args) := by
  refine ⟨_, errnoWrapper_eq f failure args, fun k _ => native_fails fun s l e hk => ?_⟩
  rw [if_pos rfl]
  exact failing_tells f s l e failure hk

theorem inBandWrapper_fails (f : Api) (failure : Word) (args : List Word) :
    Fails π c base f (fun _ => failure) (inBandWrapper f failure args) := by
  refine ⟨_, inBandWrapper_eq f failure args, fun k h0 => native_fails fun s l e hk => ?_⟩
  rw [if_pos rfl]
  exact inBand_tells f s l e failure hk h0

theorem closedir_fails (dirp : Word) :
    Fails π c base .closedir (fun _ => -1) (p101Closedir π dirp) := by
  refine ⟨_, p101Closedir_eq π dirp, fun k _ s l e _ => ?_⟩
  refine ⟨s, completes_native 0 0 (native_tells s ⟨0, l.active⟩ e fun l hk => ?_), rfl⟩
  rw [if_pos rfl]
  exact failing_tells .closedir s l e (-1) hk

theorem fdopendir_fails (fd : Word) :
    Fails π c base .fdopendir (fun _ => NULL) (p101Fdopendir π fd) := by
  refine ⟨_, p101Fdopendir_eq π fd, fun k h0 => native_fails fun s l e hk => ?_⟩
  rw [if_pos rfl]
  exact inBand_tells .fdopendir s l e NULL hk h0

theorem opendir_fails (dirname : Word) :
    Fails π c base .opendir (fun _ => NULL) (p101Opendir π dirname) := by
  refine ⟨_, p101Opendir_eq π dirname, fun k _ => native_fails fun s l e hk => ?_⟩
  rw [if_pos rfl]
  exact failing_tells .opendir s l e NULL hk

theorem scandir_fails (dir namelist sel compar : Word) :
    Fails π c base .scandir (fun _ => -1) (p101Scandir π dir namelist sel compar) := by
  refine ⟨_, p101Scandir_eq π dir namelist sel compar, fun k _ => native_fails fun s l e hk => ?_⟩
  rw [if_pos rfl]
  exact failing_tells .scandir s l e (-1) hk

theorem mkstemp_fails (nameTemplate : Word) :
    Fails π c base .mkstemp (fun _ => -1) (p101Mkstemp nameTemplate) := by
  refine ⟨_, p101Mkstemp_normal nameTemplate, fun k _ => native_fails fun s l e hk => ?_⟩
  rw [if_pos rfl]
  exact failing_tells .mkstemp s l e (-1) hk

theorem realpath_fails (fileName resolvedName : Word) :
    Fails π c base .realpath (fun _ => NULL) (p101Realpath π fileName resolvedName) := by
  refine ⟨_, p101Realpath_eq π fileName resolvedName, fun k _ => native_fails fun s l e hk => ?_⟩
  rw [if_pos rfl]
  exact failing_tells .realpath s l e NULL hk

/-- The code is not 0, so it is not replaced. -/
theorem renameat_fails (oldfd oldName newfd newName : Word) :
    Fails π c base .renameat (fun _ => -1) (p101Renameat π oldfd oldName newfd newName) := by
  refine ⟨_, p101Renameat_eq π oldfd oldName newfd newName, fun k h0 =>
    native_fails fun s l e hk => ?_⟩
  rw [if_pos rfl]
  refine completes_getErrno ?_
  rw [hk, stdioErrorCode, if_neg h0]
  exact completes_raise (completes_exiting e)

end

/-! ## Walks -/

section
variable {c : Call} {base context w : Word} {k : Kind} {s s' : Shared} {l l' : Local}
  {next : Word → Code Word} {ops : List Op} {v : Word} {field : Field} {x : Context}

theorem completes_storeField (hx : s.context k context = some x)
    (h : Completes π (next 0) (s.put context (some (x.set w field))) l ops v s' l') :
    Completes π (.perform (.storeField k context field w) next) s l ops v s' l' :=
  completes_op calm₀ rfl rfl trivial (by simp [Op.run, hx]) h

theorem completes_loadField (hx : s.context k context = some x)
    (h : Completes π (next (x.get field)) s l ops v s' l') :
    Completes π (.perform (.loadField k context field) next) s l ops v s' l' :=
  completes_op calm₀ rfl rfl trivial (by simp [Op.run, hx]) h

theorem completes_getActive (h : Completes π (next (l.active k)) s l ops v s' l') :
    Completes π (.perform (.getActive k) next) s l ops v s' l' :=
  completes_op calm₀ rfl rfl trivial rfl h

theorem completes_setActive
    (h : Completes π (next 0) s ⟨l.errno, Function.update l.active k w⟩ ops v s' l') :
    Completes π (.perform (.setActive k w) next) s l ops v s' l' :=
  completes_op calm₀ rfl rfl trivial rfl h

/-- No callback has stopped the native walk, so its errno is raised. -/
theorem walkTail_fails {code : Word} (e : Word) (h0 : code ≠ 0) (hcode : l.errno = code)
    (hx : s.context k context = some x) (hstopped : x.stopped = 0) :
    Completes π (walkTail π k context (-1)) s l [.raise .errno none code] (-1) s
      ⟨e, Function.update l.active k x.previous⟩ := by
  rw [walkTail_eq]
  refine completes_getErrno (completes_loadField hx (completes_setActive ?_))
  rw [if_pos rfl]
  refine completes_loadField hx ?_
  rw [if_pos (show x.get .stopped = 0 from hstopped), hcode, if_neg h0]
  exact completes_raise (completes_exiting e)

theorem walk_fails (k : Kind) (path fn limit : Word) (args : List Word) (hc : c.walk = some (k, fn))
    (hr : ¬ (path = NULL ∨ fn = NULL ∨ limit < 1)) :
    Fails π c base k.api (fun _ => -1) (walk π k path fn limit args base) := by
  refine ⟨_, walk_eq π k path fn limit args base, fun code h0 s l e hcontext => ?_⟩
  obtain ⟨x, hx⟩ := hcontext _ hc
  obtain ⟨-, hkind⟩ := Shared.context_eq_some.mp hx
  set frame : Context := ⟨k, fn, 0, l.active k⟩ with hframe
  refine ⟨s.put base (some frame), ?_, by simp [leaveFrame, hc]⟩
  rw [if_neg hr]
  refine completes_storeField hx (completes_storeField (x := x.set fn .callback) (by simp [hkind]) ?_)
  refine completes_getActive (completes_storeField (x := (x.set fn .callback).set 0 .stopped)
    (by simp [hkind]) ?_)
  have hput : ((s.put base (some (x.set fn .callback))).put base
      (some ((x.set fn .callback).set 0 .stopped))).put base
      (some (((x.set fn .callback).set 0 .stopped).set (l.active k) .previous)) =
      s.put base (some frame) := by
    simp [Context.set, hkind, hframe]
  rw [hput]
  refine completes_setActive (completes_setErrno (completes_native (-1) code ?_))
  have hmine : (s.put base (some frame)).context k base = some frame := by simp [hframe]
  have htail := walkTail_fails (π := π) (l := ⟨code, Function.update l.active k base⟩) e h0 rfl
    hmine rfl
  simpa [hframe] using htail

end

/-! ## All of them -/

theorem code_fails {c : Call} (base : Word) (h : c.imitable = true) :
    ∃ f failure, c.guard = some (f, .errno, failure) ∧ Fails π c base f failure (c.code π base) := by
  cases c with
  | alphasort | rewinddir | seekdir | umask | sync | globfree | callFtwCallback
  | callNftwCallback | fnmatch | glob => cases h
  | access | chdir | chmod | chown | dirfd | faccessat | fchdir | fchmod | fchmodat | fchown
  | fchownat | fstat | fstatat | fstatvfs | ftruncate | futimens | getcwd | lchown | link
  | linkat | lstat | mkdir | mkdirat | mkdtemp | mknod | readlink | readlinkat | rmdir | stat
  | statvfs | symlink | symlinkat | truncate | unlink | unlinkat | utimensat =>
    exact ⟨_, _, rfl, errnoWrapper_fails _ _ _⟩
  | basename | dirname | fpathconf | pathconf | readdir | telldir =>
    exact ⟨_, _, rfl, inBandWrapper_fails _ _ _⟩
  | closedir dirp => exact ⟨_, _, rfl, closedir_fails dirp⟩
  | fdopendir fd => exact ⟨_, _, rfl, fdopendir_fails fd⟩
  | opendir dirname => exact ⟨_, _, rfl, opendir_fails dirname⟩
  | scandir dir namelist sel compar => exact ⟨_, _, rfl, scandir_fails dir namelist sel compar⟩
  | mkstemp nameTemplate => exact ⟨_, _, rfl, mkstemp_fails nameTemplate⟩
  | realpath fileName resolvedName => exact ⟨_, _, rfl, realpath_fails fileName resolvedName⟩
  | renameat oldfd oldName newfd newName =>
    exact ⟨_, _, rfl, renameat_fails oldfd oldName newfd newName⟩
  | ftw path fn ndirs =>
    refine ⟨_, _, rfl, walk_fails .ftw path fn ndirs _ rfl ?_⟩
    simpa [Call.imitable, Call.guard, Call.api, Api.guard, Call.rejected] using h
  | nftw path fn fdLimit flags =>
    refine ⟨_, _, rfl, walk_fails .nftw path fn fdLimit _ rfl ?_⟩
    simpa [Call.imitable, Call.guard, Call.api, Api.guard, Call.rejected] using h

end P101Filesystem
