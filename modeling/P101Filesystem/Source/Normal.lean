import P101Filesystem.Source.Dirent
import P101Filesystem.Source.Stdlib
import P101Filesystem.Source.Paths

/-!
# The wrappers as sequences of operations

Normal forms of the shapes and of the wrappers that spell out what they do. A wrapper is
its guard, which is over at once on an injected fault, and its body with the exit trace.
-/
namespace P101Filesystem

open Effect (Program)

variable (π : Platform)

/-- The entry trace, the consultation and the path of an injected fault. -/
def guarded (f : Api) (domain : Domain) (failure : Word → Word) (body : Code Word) : Code Word :=
  .perform (.traceEntry f) fun _ => .perform (.checkFault f) fun fault =>
    if fault ≠ 0 then .perform (.raise domain none fault) fun _ =>
      .perform (.traceExit f) fun _ => .done (failure fault)
    else body

def exiting (f : Api) (retVal : Word) : Code Word := .perform (.traceExit f) fun _ => .done retVal

/-- Raises the current errno and returns. -/
def failing (f : Api) (retVal : Word) : Code Word :=
  .perform .getErrno fun e => .perform (.raise .errno none e) fun _ => exiting f retVal

/-! ## What finished runs went through -/

section
variable {f : Api} {retVal v : Word} {es : List Event}
open Effect (Follows)

/-- A finished wrapper was faulted and over at once, or ran its body. -/
theorem guarded_done {domain : Domain} {failure : Word → Word} {body : Code Word}
    (h : Follows (guarded f domain failure body) es (.done v)) :
    ∃ entry check rest, es = entry :: check :: rest ∧ entry.op = .traceEntry f ∧
      check.op = .checkFault f ∧
      ((check.answer ≠ 0 ∧ v = failure check.answer ∧ ∃ raise exit, rest = [raise, exit] ∧
          raise.op = .raise domain none check.answer ∧ exit.op = .traceExit f) ∨
        check.answer = 0 ∧ Follows body rest (.done v)) := by
  obtain ⟨entry, es, rfl, hentry, h⟩ := h.perform_done
  obtain ⟨check, es, rfl, hcheck, h⟩ := h.perform_done
  refine ⟨entry, check, es, rfl, hentry, hcheck, ?_⟩
  by_cases hfault : check.answer = 0
  · simp only [hfault, ne_eq, not_true_eq_false, if_false] at h
    exact .inr ⟨hfault, h⟩
  · simp only [hfault, ne_eq, not_false_eq_true, if_true] at h
    obtain ⟨raise, es, rfl, hraise, h⟩ := h.perform_done
    obtain ⟨exit, es, rfl, hexit, h⟩ := h.perform_done
    obtain ⟨rfl, hv⟩ := h.done_done
    exact .inl ⟨hfault, hv.symm, raise, exit, rfl, hraise, hexit⟩

theorem exiting_done (h : Follows (exiting f retVal) es (.done v)) :
    v = retVal ∧ ∃ exit, es = [exit] ∧ exit.op = .traceExit f := by
  obtain ⟨exit, es, rfl, hexit, h⟩ := h.perform_done
  obtain ⟨rfl, hv⟩ := h.done_done
  exact ⟨hv.symm, exit, rfl, hexit⟩

theorem failing_done (h : Follows (failing f retVal) es (.done v)) :
    v = retVal ∧ ∃ get raise exit, es = [get, raise, exit] ∧ get.op = .getErrno ∧
      raise.op = .raise .errno none get.answer ∧ exit.op = .traceExit f := by
  obtain ⟨get, es, rfl, hget, h⟩ := h.perform_done
  obtain ⟨raise, es, rfl, hraise, h⟩ := h.perform_done
  obtain ⟨hv, exit, rfl, hexit⟩ := exiting_done h
  exact ⟨hv, get, raise, exit, rfl, hget, hraise, hexit⟩

end

/-! ## Normal forms -/

theorem wrapper_faultReturn (f : Api) (failure : Word) (rest : Code Word) :
    wrapper f (faultReturn f failure rest) =
      guarded f .errno (fun _ => failure) (rest.bind (exiting f)) := by
  simp [wrapper, faultReturn, guarded, trace, traceExit, checkFault, raiseErrno]
  rfl

theorem wrapper_faultReturnSystemCode (f : Api) (rest : Code Word) :
    wrapper f (faultReturnSystemCode f rest) =
      guarded f .system (fun fault => fault) (rest.bind (exiting f)) := by
  simp [wrapper, faultReturnSystemCode, guarded, trace, traceExit, checkFault]
  rfl

theorem errnoWrapper_eq (f : Api) (failure : Word) (args : List Word) :
    errnoWrapper f failure args = guarded f .errno (fun _ => failure)
      (.perform (.setErrno 0) fun _ => .perform (.native f args) fun retVal =>
        if retVal = failure then failing f retVal else exiting f retVal) := by
  simp [errnoWrapper, wrapper_faultReturn, setErrno, native, when, raiseCurrentErrno, errno,
    raiseErrno, failing]

theorem inBandWrapper_eq (f : Api) (failure : Word) (args : List Word) :
    inBandWrapper f failure args = guarded f .errno (fun _ => failure)
      (.perform (.setErrno 0) fun _ => .perform (.native f args) fun retVal =>
        if retVal = failure then .perform .getErrno fun e =>
          if e ≠ 0 then failing f retVal else exiting f retVal
        else exiting f retVal) := by
  simp [inBandWrapper, wrapper_faultReturn, setErrno, native, when, raiseCurrentErrno, errno,
    raiseErrno, failing]

theorem plainWrapper_eq (f : Api) (args : List Word) :
    plainWrapper f args =
      .perform (.traceEntry f) fun _ => .perform (.setErrno 0) fun _ =>
        .perform (.native f args) (exiting f) := by
  simp [plainWrapper, trace, setErrno, native, traceExit]
  rfl

theorem p101Closedir_eq (dirp : Word) :
    p101Closedir π dirp = guarded .closedir .errno (fun _ => -1)
      (.perform (.native .dirfd [dirp]) fun fd => .perform (.setErrno 0) fun _ =>
        .perform (.native .closedir [dirp]) fun retVal =>
          if retVal = -1 then failing .closedir retVal
          else if fd ≥ 0 then .perform (.record (.closeFd fd)) fun _ =>
            .perform (.record (.release .directoryStream (π.pointerResourceId dirp))) fun _ =>
              exiting .closedir retVal
          else .perform (.record (.release .directoryStream (π.pointerResourceId dirp))) fun _ =>
            exiting .closedir retVal) := by
  simp [p101Closedir, wrapper_faultReturn, setErrno, native, when, raiseCurrentErrno, errno,
    raiseErrno, trackClose, trackRelease, failing]

theorem p101Fdopendir_eq (fd : Word) :
    p101Fdopendir π fd = guarded .fdopendir .errno (fun _ => NULL)
      (.perform (.setErrno 0) fun _ => .perform (.native .fdopendir [fd]) fun retVal =>
        if retVal = NULL then .perform .getErrno fun e =>
          if e ≠ 0 then failing .fdopendir retVal else exiting .fdopendir retVal
        else .perform (.record (.acquire .directoryStream (π.pointerResourceId retVal) 0
          (.text "fdopendir"))) fun _ => exiting .fdopendir retVal) := by
  simp [p101Fdopendir, wrapper_faultReturn, setErrno, native, when, raiseCurrentErrno, errno,
    raiseErrno, trackAcquire, failing]

theorem p101Opendir_eq (dirname : Word) :
    p101Opendir π dirname = guarded .opendir .errno (fun _ => NULL)
      (.perform (.setErrno 0) fun _ => .perform (.native .opendir [dirname]) fun retVal =>
        if retVal = NULL then failing .opendir retVal
        else .perform (.native .dirfd [retVal]) fun fd =>
          if fd ≥ 0 then .perform (.record (.openFd fd)) fun _ =>
            .perform (.record (.acquire .directoryStream (π.pointerResourceId retVal) 0
              (.pointer dirname))) fun _ => exiting .opendir retVal
          else .perform (.record (.acquire .directoryStream (π.pointerResourceId retVal) 0
            (.pointer dirname))) fun _ => exiting .opendir retVal) := by
  simp [p101Opendir, wrapper_faultReturn, setErrno, native, when, raiseCurrentErrno, errno,
    raiseErrno, trackOpen, trackAcquire, failing]

/-- The records of a list that scandir hands out. -/
def trackList (namelist retVal : Word) : Code Unit := do
  let list ← load namelist
  when (list ≠ NULL) do
    let block ← load namelist
    trackAlloc block (listSize π retVal)
    trackEntries π namelist retVal.toNat 0

theorem p101Scandir_eq (dir namelist sel compar : Word) :
    p101Scandir π dir namelist sel compar = guarded .scandir .errno (fun _ => -1)
      (.perform (.setErrno 0) fun _ =>
        .perform (.native .scandir [dir, namelist, sel, compar]) fun retVal =>
          if retVal = -1 then failing .scandir retVal
          else (trackList π namelist retVal).bind fun _ => exiting .scandir retVal) := by
  simp only [p101Scandir, wrapper_faultReturn]
  simp [setErrno, native, raiseCurrentErrno, errno, raiseErrno, failing, trackList,
    Program.bind_assoc]

/-- What the records of a list are made of. -/
def Op.lists : Op → Bool
  | .load _ => true
  | .record (.alloc _ _) => true
  | _ => false

@[simp] theorem lists_load (p : Word) : (Op.load p).lists = true := rfl

@[simp] theorem lists_alloc (p : Word) (size : Nat) : (Op.record (.alloc p size)).lists = true := rfl

theorem trackEntries_lists (namelist : Word) (remaining index : Nat) :
    (trackEntries π namelist remaining index).Avoids fun o => o.lists = false := by
  induction remaining generalizing index with
  | zero => trivial
  | succ remaining ih => simp [trackEntries, load, trackAlloc, ih]

theorem trackList_lists (namelist retVal : Word) :
    (trackList π namelist retVal).Avoids fun o => o.lists = false := by
  simp [trackList, load, when, trackAlloc, trackEntries_lists]

/-- So it calls nothing outside. -/
theorem trackList_inside (namelist retVal : Word) :
    (trackList π namelist retVal).Avoids fun o => o.party ≠ none := by
  refine (trackList_lists π namelist retVal).mono fun o ho => ?_
  cases o with
  | native | callback => rfl
  | _ => exact absurd rfl ho

theorem p101Mkstemp_normal (nameTemplate : Word) :
    p101Mkstemp nameTemplate = guarded .mkstemp .errno (fun _ => -1)
      (.perform (.setErrno 0) fun _ => .perform (.native .mkstemp [nameTemplate]) fun retVal =>
        if retVal = -1 then failing .mkstemp retVal
        else .perform (.record (.openFd retVal)) fun _ => exiting .mkstemp retVal) := by
  simp [p101Mkstemp_eq, wrapper_faultReturn, setErrno, native, raiseCurrentErrno, errno,
    raiseErrno, trackOpen, failing]

theorem p101Realpath_eq (fileName resolvedName : Word) :
    p101Realpath π fileName resolvedName = guarded .realpath .errno (fun _ => NULL)
      (.perform (.setErrno 0) fun _ =>
        .perform (.native .realpath [fileName, resolvedName]) fun retVal =>
          if retVal = NULL then failing .realpath retVal
          else if resolvedName = NULL then .perform (.strlen retVal) fun length =>
            .perform (.record (.alloc retVal ((length.toNat + 1) % 2 ^ π.sizeBits))) fun _ =>
              exiting .realpath retVal
          else exiting .realpath retVal) := by
  simp [p101Realpath, wrapper_faultReturn, setErrno, native, when, raiseCurrentErrno, errno,
    raiseErrno, trackAlloc, failing]

theorem p101Renameat_eq (oldfd oldName newfd newName : Word) :
    p101Renameat π oldfd oldName newfd newName = guarded .renameat .errno (fun _ => -1)
      (.perform (.setErrno 0) fun _ =>
        .perform (.native .renameat [oldfd, oldName, newfd, newName]) fun retVal =>
          if retVal = -1 then .perform .getErrno fun e =>
            .perform (.raise .errno none (stdioErrorCode π e)) fun _ => exiting .renameat retVal
          else exiting .renameat retVal) := by
  simp [p101Renameat, wrapper_faultReturn, setErrno, native, when, errno, raiseErrno]

theorem p101Fnmatch_eq (pattern string flags : Word) :
    p101Fnmatch π pattern string flags = guarded .fnmatch .system (fun fault => fault)
      (.perform (.setErrno 0) fun _ =>
        .perform (.native .fnmatch [pattern, string, flags]) fun retVal =>
          if retVal ≠ 0 ∧ retVal ≠ π.fnmNomatch then
            .perform (.raise .system (some "Invalid filename match pattern") retVal) fun _ =>
              exiting .fnmatch retVal
          else exiting .fnmatch retVal) := by
  simp [p101Fnmatch, wrapper_faultReturnSystemCode, setErrno, native, when, raiseSystem]

/-- The message of a failed glob. -/
def globMessage (retVal : Word) : String :=
  if retVal = π.globAborted then "" else if retVal = π.globNospace then "" else
    "<unknown glob error>"

theorem p101Glob_eq (pattern flags errfunc pglob : Word) :
    p101Glob π pattern flags errfunc pglob = guarded .glob .system (fun fault => fault)
      (.perform (.setErrno 0) fun _ =>
        .perform (.native .glob [pattern, flags, errfunc, pglob]) fun retVal =>
          if retVal ≠ 0 ∧ retVal ≠ π.globNomatch then
            .perform (.raise .system (some (globMessage π retVal)) retVal) fun _ =>
              exiting .glob retVal
          else if retVal = 0 then .perform (.record (.acquire .globResult
            (π.pointerResourceId pglob) 0 .absent)) fun _ => exiting .glob retVal
          else exiting .glob retVal) := by
  simp only [p101Glob, wrapper_faultReturnSystemCode, setErrno, native, when, raiseSystem,
    globMessage, trackAcquire, Program.bind_def, Program.pure_def, Program.op_bind, act_bind,
    Program.perform_bind, Program.ite_bind, Program.done_bind]
  congr
  funext _
  congr
  funext retVal
  by_cases ha : retVal = π.globAborted
  · simp [ha]
  · by_cases hn : retVal = π.globNospace <;> simp [ha, hn]

theorem p101Globfree_eq (pglob : Word) :
    p101Globfree π pglob =
      .perform (.traceEntry .globfree) fun _ => .perform (.setErrno 0) fun _ =>
        .perform (.native .globfree [pglob]) fun _ =>
        .perform (.record (.release .globResult (π.pointerResourceId pglob))) fun _ =>
          exiting .globfree 0 := by
  simp [p101Globfree, voidWrapper, trace, setErrno, native, trackRelease, traceExit, exiting]

end P101Filesystem
