import P101Filesystem.Calls.Guards
import P101Filesystem.Source.Readings
import P101Filesystem.Effect.Activations
import P101Filesystem.Effect.Protocol

/-!
# Errno

Errno says something only between a wrapper's reset of it and the wrapper's look at it, with
the native call in between. A wrapper looks at it only if the native call returned its failure
value, so what was left over before the reset, or by a success, never counts.
-/
namespace P101Filesystem

open Effect

/-- The failure value of the wrappers that report errno, the walks apart. -/
def Api.reports (f : Api) : Option Word :=
  match f, f.guard with
  | .ftw, _ => none
  | .nftw, _ => none
  | _, some (.errno, failure) => some (failure 0)
  | _, _ => none

/-- Functions whose failure value also says that there is nothing to return. -/
def Api.inBand (f : Api) : Bool := f = .readdir ∨ f = .pathconf ∨ f = .fpathconf

/-- What a native call of `f` comes to. -/
inductive Outcome where
  | failed (code : Word)
  | noValue
  | succeeded
  deriving DecidableEq, Repr

/-- What it may return, and leave in errno, when errno was `before`. -/
def Outcome.Returns (f : Api) (failure before v after : Word) : Outcome → Prop
  | .failed code => v = failure ∧ after = code ∧ code ≠ 0
  | .noValue => f.inBand = true ∧ v = failure ∧ after = before
  | .succeeded => v ≠ failure

/-- What has to be raised for it. -/
def Outcome.report : Outcome → List (Domain × Word)
  | .failed code => [(.errno, code)]
  | _ => []

/-! ## The protocol of errno -/

/-- How far a call is. What it read of errno is part of the phase. -/
inductive ErrnoPhase where
  | early | faulted
  | cleared | served (retVal : Word) | failed
  | asked (e : Word) | askedAgain (e e' : Word) | raised (e : Word) | excused
  deriving DecidableEq, Repr

/-- Operations without a part in this: a native call of another function is bookkeeping. -/
def Op.bystander (f : Api) : Op → Bool
  | .getErrno | .setErrno _ | .raise _ _ _ | .checkFault _ => false
  | .native g _ => g ≠ f
  | _ => true

/-- Phases in which nothing depends on errno. -/
def ErrnoPhase.loose : ErrnoPhase → Bool
  | .early | .faulted | .served _ | .raised _ | .excused => true
  | _ => false

inductive ErrnoStep (f : Api) (failure : Word) : ErrnoPhase → Op → Word → ErrnoPhase → Prop
  | bystander {ph o v} : ph.loose = true → o.bystander f = true → ErrnoStep f failure ph o v ph
  | spare : ErrnoStep f failure .early (.checkFault f) 0 .early
  | fault {c} : c ≠ 0 → ErrnoStep f failure .early (.checkFault f) c .faulted
  | inject {message code v} :
      ErrnoStep f failure .faulted (.raise .errno message code) v .faulted
  | clear {v} : ErrnoStep f failure .early (.setErrno 0) v .cleared
  | serve {args v} : v ≠ failure → ErrnoStep f failure .cleared (.native f args) v (.served v)
  | fail {args} : ErrnoStep f failure .cleared (.native f args) failure .failed
  | ask {e} : ErrnoStep f failure .failed .getErrno e (.asked e)
  | askAgain {e e'} : ErrnoStep f failure (.asked e) .getErrno e' (.askedAgain e e')
  | report {e code v} : (e ≠ 0 → code = e) → (e = 0 → f.inBand = false) →
      ErrnoStep f failure (.asked e) (.raise .errno none code) v (.raised e)
  | reportAgain {e e' v} : e ≠ 0 →
      ErrnoStep f failure (.askedAgain e e') (.raise .errno none e') v (.raised e')
  | excuse {o v} : o.bystander f = true → ErrnoStep f failure (.asked 0) o v .excused

def ErrnoPhase.Final (failure : Word) : ErrnoPhase → Word → Prop
  | .faulted, _ => True
  | .served retVal, v => v = retVal
  | .raised _, v => v = failure
  | .excused, v => v = failure
  | _, _ => False

def errnoProtocol (f : Api) (failure : Word) : Protocol Op Word ErrnoPhase :=
  ⟨ErrnoStep f failure, ErrnoPhase.Final failure⟩

section
open Protocol
variable {f : Api} {failure : Word} {ph : ErrnoPhase} {π : Platform}

theorem errno_pass {o : Op} {next : Word → Code Word} (hph : ph.loose = true)
    (ho : o.bystander f = true) (h : ∀ v, (errnoProtocol f failure).Keeps ph (next v)) :
    (errnoProtocol f failure).Keeps ph (.perform o next) :=
  keeps_step (fun _ => ph) (fun _ => .bystander hph ho) h

theorem errno_exiting {v : Word} (hph : ph.loose = true) (h : ph.Final failure v) :
    (errnoProtocol f failure).Keeps ph (exiting f v) :=
  errno_pass hph rfl fun _ => h

theorem errno_guarded {body : Code Word} (h : (errnoProtocol f failure).Keeps .early body) :
    (errnoProtocol f failure).Keeps .early (guarded f .errno (fun _ => failure) body) := by
  refine errno_pass rfl rfl fun _ => keeps_perform.mpr fun fault => ?_
  by_cases hfault : fault = 0
  · subst hfault
    exact ⟨.early, .spare, h⟩
  · refine ⟨.faulted, .fault hfault, ?_⟩
    simp only [hfault, ne_eq, not_false_eq_true, if_true]
    exact keeps_step (fun _ => .faulted) (fun _ => .inject) fun _ => errno_exiting rfl trivial

/-- The native call, with errno reset before it. -/
theorem errno_main {args : List Word} {bad good : Word → Code Word}
    (hbad : (errnoProtocol f failure).Keeps .failed (bad failure))
    (hgood : ∀ v, (errnoProtocol f failure).Keeps (.served v) (good v)) :
    (errnoProtocol f failure).Keeps .early (.perform (.setErrno 0) fun _ =>
      .perform (.native f args) fun v => if v = failure then bad v else good v) := by
  refine keeps_step (fun _ => .cleared) (fun _ => .clear) fun _ => keeps_perform.mpr fun v => ?_
  by_cases hv : v = failure
  · subst hv
    exact ⟨.failed, .fail, by simpa using hbad⟩
  · refine ⟨.served v, .serve hv, ?_⟩
    rw [if_neg hv]
    exact hgood v

/-- Raises errno whatever it is. -/
theorem errno_failing (hf : f.inBand = false) :
    (errnoProtocol f failure).Keeps .failed (failing f failure) := by
  refine keeps_step .asked (fun _ => .ask) fun e => ?_
  refine keeps_step (fun _ => .raised e) (fun _ => .report (fun _ => rfl) fun _ => hf) fun _ => ?_
  exact errno_exiting rfl rfl

/-- Raises errno if it is set. -/
theorem errno_inBand : (errnoProtocol f failure).Keeps .failed (.perform .getErrno fun e =>
    if e ≠ 0 then failing f failure else exiting f failure) := by
  refine keeps_step .asked (fun _ => .ask) fun e => ?_
  by_cases he : e = 0
  · subst he
    exact keeps_step (fun _ => .excused) (fun _ => .excuse rfl) fun _ => rfl
  · simp only [he, ne_eq, not_false_eq_true, if_true]
    refine keeps_step (.askedAgain e) (fun _ => .askAgain) fun e' => ?_
    refine keeps_step (fun _ => .raised e') (fun _ => .reportAgain he) fun _ => ?_
    exact errno_exiting rfl rfl

theorem errno_lists {p : Code Unit} {next : Unit → Code Word} (hph : ph.loose = true)
    (hp : p.Avoids fun o => o.lists = false) (h : (errnoProtocol f failure).Keeps ph (next ())) :
    (errnoProtocol f failure).Keeps ph (p.bind next) := by
  induction p with
  | done => exact h
  | perform o cont ih =>
    obtain ⟨ho, hcont⟩ := hp
    refine errno_pass hph ?_ fun v => ih v (hcont v)
    cases o <;> first | rfl | exact absurd rfl ho

theorem errnoWrapper_errno (hf : f.inBand = false) (args : List Word) :
    (errnoProtocol f failure).Keeps .early (errnoWrapper f failure args) := by
  rw [errnoWrapper_eq]
  exact errno_guarded (errno_main (errno_failing hf) fun v => errno_exiting rfl rfl)

theorem inBandWrapper_errno (args : List Word) :
    (errnoProtocol f failure).Keeps .early (inBandWrapper f failure args) := by
  rw [inBandWrapper_eq]
  exact errno_guarded (errno_main errno_inBand fun v => errno_exiting rfl rfl)

theorem closedir_errno (dirp : Word) :
    (errnoProtocol .closedir (-1)).Keeps .early (p101Closedir π dirp) := by
  rw [p101Closedir_eq]
  refine errno_guarded (errno_pass rfl rfl fun fd => errno_main (errno_failing rfl) fun v => ?_)
  refine keeps_ite (errno_pass rfl rfl fun _ => errno_pass rfl rfl fun _ => ?_) ?_
  · exact errno_exiting rfl rfl
  · exact errno_pass rfl rfl fun _ => errno_exiting rfl rfl

theorem fdopendir_errno (fd : Word) :
    (errnoProtocol .fdopendir NULL).Keeps .early (p101Fdopendir π fd) := by
  rw [p101Fdopendir_eq]
  refine errno_guarded (errno_main errno_inBand fun v => errno_pass rfl rfl fun _ => ?_)
  exact errno_exiting rfl rfl

theorem opendir_errno (dirname : Word) :
    (errnoProtocol .opendir NULL).Keeps .early (p101Opendir π dirname) := by
  rw [p101Opendir_eq]
  refine errno_guarded (errno_main (errno_failing rfl) fun v => errno_pass rfl rfl fun fd => ?_)
  refine keeps_ite (errno_pass rfl rfl fun _ => errno_pass rfl rfl fun _ => ?_) ?_
  · exact errno_exiting rfl rfl
  · exact errno_pass rfl rfl fun _ => errno_exiting rfl rfl

theorem scandir_errno (dir namelist sel compar : Word) :
    (errnoProtocol .scandir (-1)).Keeps .early (p101Scandir π dir namelist sel compar) := by
  rw [p101Scandir_eq]
  refine errno_guarded (errno_main (errno_failing rfl) fun v => ?_)
  exact errno_lists rfl (trackList_lists π namelist v) (errno_exiting rfl rfl)

theorem mkstemp_errno (nameTemplate : Word) :
    (errnoProtocol .mkstemp (-1)).Keeps .early (p101Mkstemp nameTemplate) := by
  rw [p101Mkstemp_normal]
  refine errno_guarded (errno_main (errno_failing rfl) fun v => errno_pass rfl rfl fun _ => ?_)
  exact errno_exiting rfl rfl

theorem realpath_errno (fileName resolvedName : Word) :
    (errnoProtocol .realpath NULL).Keeps .early (p101Realpath π fileName resolvedName) := by
  rw [p101Realpath_eq]
  refine errno_guarded (errno_main (errno_failing rfl) fun v => keeps_ite ?_ ?_)
  · exact errno_pass rfl rfl fun _ => errno_pass rfl rfl fun _ => errno_exiting rfl rfl
  · exact errno_exiting rfl rfl

/-- EIO stands in for an errno of 0 only. -/
theorem renameat_errno (oldfd oldName newfd newName : Word) :
    (errnoProtocol .renameat (-1)).Keeps .early (p101Renameat π oldfd oldName newfd newName) := by
  rw [p101Renameat_eq]
  refine errno_guarded (errno_main ?_ fun v => errno_exiting rfl rfl)
  refine keeps_step .asked (fun _ => .ask) fun e => ?_
  refine keeps_step (fun _ => .raised e) (fun _ => .report (fun he => ?_) fun _ => rfl) fun _ => ?_
  · simp [stdioErrorCode, he]
  · exact errno_exiting rfl rfl

theorem code_errno {c : Call} (base : Word) (h : c.api = some f) (hr : f.reports = some failure) :
    (errnoProtocol f failure).Keeps .early (c.code π base) := by
  cases c with
  | access | chdir | chmod | chown | dirfd | faccessat | fchdir | fchmod | fchmodat | fchown
  | fchownat | fstat | fstatat | fstatvfs | ftruncate | futimens | getcwd | lchown | link
  | linkat | lstat | mkdir | mkdirat | mkdtemp | mknod | readlink | readlinkat | rmdir | stat
  | statvfs | symlink | symlinkat | truncate | unlink | unlinkat | utimensat =>
    cases h
    cases hr
    exact errnoWrapper_errno rfl _
  | basename | dirname | fpathconf | pathconf | readdir | telldir =>
    cases h
    cases hr
    exact inBandWrapper_errno _
  | closedir =>
    cases h
    cases hr
    exact closedir_errno _
  | fdopendir =>
    cases h
    cases hr
    exact fdopendir_errno _
  | opendir =>
    cases h
    cases hr
    exact opendir_errno _
  | scandir =>
    cases h
    cases hr
    exact scandir_errno _ _ _ _
  | mkstemp =>
    cases h
    cases hr
    exact mkstemp_errno _
  | realpath =>
    cases h
    cases hr
    exact realpath_errno _ _
  | renameat =>
    cases h
    cases hr
    exact renameat_errno _ _ _ _
  | callFtwCallback | callNftwCallback => cases h
  | alphasort | rewinddir | seekdir | umask | sync | globfree | fnmatch | glob | ftw | nftw =>
    cases h
    cases hr

end

/-! ## What the phases know -/

/-- The native calls of `f` itself. -/
def mains (f : Api) (es : List Event) : List (Api × List Word × Event) :=
  (natives es).filter fun n => n.1 = f

@[simp] theorem mains_append (f : Api) (es fs : List Event) :
    mains f (es ++ fs) = mains f es ++ mains f fs := by
  simp [mains]

/-- The one native call of `f` returned the failure value; errno had been reset before it. -/
structure Missed (f : Api) (failure : Word) (es : List Event) (e : Event) : Prop where
  main : ∃ args, mains f es = [(f, args, e)]
  answer : e.answer = failure
  reset : e.before.errno = 0

/-- What a call that has gone through the events `es` knows of errno, which is `now`. -/
def Known (f : Api) (failure : Word) (es : List Event) (now : Word) : ErrnoPhase → Prop
  | .early => mains f es = [] ∧ raised es = []
  | .faulted => ∃ c, c ≠ 0 ∧ (f, c) ∈ consulted es
  | .cleared => mains f es = [] ∧ raised es = [] ∧ now = 0
  | .served v => ∃ args e, mains f es = [(f, args, e)] ∧ e.answer = v ∧ v ≠ failure ∧ raised es = []
  | .failed => ∃ e, Missed f failure es e ∧ raised es = [] ∧ now = e.after.errno
  | .asked x => ∃ e, Missed f failure es e ∧ raised es = [] ∧ now = e.after.errno ∧
      x = e.after.errno
  | .askedAgain x y => ∃ e, Missed f failure es e ∧ raised es = [] ∧ now = e.after.errno ∧
      x = e.after.errno ∧ y = e.after.errno
  | .raised x => ∃ e, Missed f failure es e ∧ x = e.after.errno ∧
      (x ≠ 0 → raised es = [(.errno, x)]) ∧ (x = 0 → f.inBand = false)
  | .excused => ∃ e, Missed f failure es e ∧ e.after.errno = 0 ∧ raised es = []

section
variable {f : Api} {failure : Word} {ph ph' : ErrnoPhase} {es : List Event} {e : Event}
  {now : Word} {π : Platform}

theorem mains_main {args : List Word} (ho : e.op = .native f args) :
    mains f [e] = [(f, args, e)] := by
  simp [mains, nativeOf, ho]

theorem mains_none (ho : ∀ args, e.op ≠ .native f args) : mains f [e] = [] := by
  obtain ⟨o, heard, v, before, after⟩ := e
  cases o with
  | native g args =>
    have hg : g ≠ f := by
      rintro rfl
      exact ho args rfl
    simp [mains, nativeOf, hg]
  | _ => rfl

theorem answer_getErrno (ha : (system π).Answers e) (ho : e.op = .getErrno) :
    e.answer = e.before.errno ∧ e.after.errno = e.before.errno := by
  obtain ⟨a, s, s', hrun⟩ := ha (by rw [ho]; rfl)
  simp only [ho, system, Op.run, Option.some.injEq, Prod.mk.injEq] at hrun
  obtain ⟨hanswer, -, hafter⟩ := hrun
  exact ⟨hanswer.symm, by rw [hafter]⟩

theorem after_setErrno {x : Word} (ha : (system π).Answers e) (ho : e.op = .setErrno x) :
    e.after.errno = x := by
  obtain ⟨a, s, s', hrun⟩ := ha (by rw [ho]; rfl)
  simp only [ho, system, Op.run, Option.some.injEq, Prod.mk.injEq] at hrun
  rw [← hrun.2.2]

theorem mains_bystander (ho : e.op.bystander f = true) : mains f [e] = [] := by
  apply mains_none
  intro args hop
  simp [hop, Op.bystander] at ho

theorem raised_bystander (ho : e.op.bystander f = true) : raised [e] = [] := by
  obtain ⟨o, heard, v, before, after⟩ := e
  cases o <;> first | rfl | cases ho

theorem Missed.quiet {d : Event} (h : Missed f failure es d) (he : mains f [e] = []) :
    Missed f failure (es ++ [e]) d := by
  obtain ⟨⟨args, hmain⟩, ha, hr⟩ := h
  exact ⟨⟨args, by rw [mains_append, hmain, he]; rfl⟩, ha, hr⟩

/-- A bystander leaves errno at anything, and that is all it does. -/
theorem Known.bystander (h : Known f failure es now ph) (hph : ph.loose = true)
    (ho : e.op.bystander f = true) (later : Word) : Known f failure (es ++ [e]) later ph := by
  have hm := mains_bystander ho
  have hr := raised_bystander ho
  cases ph with
  | early => exact ⟨by simp [h.1, hm], by rw [raised_append, h.2, hr]; rfl⟩
  | faulted =>
    obtain ⟨c, hc, hmem⟩ := h
    exact ⟨c, hc, by simp [hmem]⟩
  | served v =>
    obtain ⟨args, d, hmain, ha, hv, hraised⟩ := h
    exact ⟨args, d, by simp [hmain, hm], ha, hv, by rw [raised_append, hraised, hr]; rfl⟩
  | raised x =>
    obtain ⟨d, hd, hx, hraised, hzero⟩ := h
    refine ⟨d, hd.quiet hm, hx, fun hne => ?_, hzero⟩
    rw [raised_append, hraised hne, hr]
    rfl
  | excused =>
    obtain ⟨d, hd, hx, hraised⟩ := h
    exact ⟨d, hd.quiet hm, hx, by rw [raised_append, hraised, hr]; rfl⟩
  | cleared | failed | asked | askedAgain => cases hph

theorem Known.step (h : Known f failure es e.before.errno ph)
    (hs : ErrnoStep f failure ph e.op e.answer ph') (ha : (system π).Answers e) :
    Known f failure (es ++ [e]) e.after.errno ph' := by
  generalize ho : e.op = o at hs
  generalize hv : e.answer = v at hs
  cases hs with
  | bystander hph hby => exact h.bystander hph (ho ▸ hby) _
  | spare =>
    have hm : mains f [e] = [] := mains_none (by simp [ho])
    exact ⟨by rw [mains_append, h.1, hm]; rfl, by simp [h.2, raiseOf, ho]⟩
  | fault hc => exact ⟨v, hc, by simp [faultOf, ho, hv]⟩
  | inject =>
    obtain ⟨c, hc, hmem⟩ := h
    exact ⟨c, hc, by simp [hmem]⟩
  | clear =>
    have hm : mains f [e] = [] := mains_none (by simp [ho])
    refine ⟨by rw [mains_append, h.1, hm]; rfl, by simp [h.2, raiseOf, ho], ?_⟩
    exact after_setErrno ha ho
  | serve hne =>
    refine ⟨_, e, by rw [mains_append, h.1, mains_main ho]; rfl, hv, hne, ?_⟩
    simp [h.2.1, raiseOf, ho]
  | fail =>
    refine ⟨e, ⟨⟨_, by rw [mains_append, h.1, mains_main ho]; rfl⟩, hv, h.2.2⟩, ?_, rfl⟩
    simp [h.2.1, raiseOf, ho]
  | ask =>
    obtain ⟨d, hd, hraised, hnow⟩ := h
    have hm : mains f [e] = [] := mains_none (by simp [ho])
    obtain ⟨hanswer, hafter⟩ := answer_getErrno ha ho
    refine ⟨d, hd.quiet hm, by simp [hraised, raiseOf, ho], ?_, ?_⟩
    · rw [hafter, hnow]
    · rw [← hv, hanswer, hnow]
  | askAgain =>
    obtain ⟨d, hd, hraised, hnow, hx⟩ := h
    have hm : mains f [e] = [] := mains_none (by simp [ho])
    obtain ⟨hanswer, hafter⟩ := answer_getErrno ha ho
    refine ⟨d, hd.quiet hm, by simp [hraised, raiseOf, ho], ?_, hx, ?_⟩
    · rw [hafter, hnow]
    · rw [← hv, hanswer, hnow]
  | report hcode hzero =>
    obtain ⟨d, hd, hraised, -, hx⟩ := h
    have hm : mains f [e] = [] := mains_none (by simp [ho])
    refine ⟨d, hd.quiet hm, hx, fun hne => ?_, hzero⟩
    simp [hraised, raiseOf, ho, hcode hne]
  | reportAgain hne =>
    obtain ⟨d, hd, hraised, -, hx, hy⟩ := h
    have hm : mains f [e] = [] := mains_none (by simp [ho])
    refine ⟨d, hd.quiet hm, hy, fun _ => ?_, fun hzero => ?_⟩
    · simp [hraised, raiseOf, ho]
    · exact absurd (hx.trans (hy.symm.trans hzero)) hne
  | excuse hby =>
    obtain ⟨d, hd, hraised, -, hx⟩ := h
    have hby : e.op.bystander f = true := ho ▸ hby
    refine ⟨d, hd.quiet (mains_bystander hby), hx.symm, ?_⟩
    rw [raised_append, hraised, raised_bystander hby]
    rfl

theorem Known.run {now' : Local} {start : Local} {past : List Event}
    (h : Known f failure past start.errno ph) (hp : (errnoProtocol f failure).Path ph es ph')
    (hc : Chained start es now') (ha : ∀ e ∈ es, (system π).Answers e) :
    Known f failure (past ++ es) now'.errno ph' := by
  induction hp generalizing past start with
  | nil =>
    rw [Chained.nil_iff] at hc
    simpa [hc] using h
  | @cons ph ph₁ ph₂ e es hs _ ih =>
    obtain ⟨hbefore, hc⟩ := hc
    have hstep := Known.step (hbefore ▸ h) hs (ha e (by simp))
    simpa using ih hstep hc fun d hd => ha d (by simp [hd])

/-- Where a call stands is read off its events. -/
theorem known_of_sound {act : Activation} {rest : Code Word} {now : Local}
    (hs : act.Sound (system π) rest now) (hf : act.entry.api = some f)
    (hr : f.reports = some failure) :
    ∃ ph, Known f failure act.past now.errno ph ∧ (errnoProtocol f failure).Keeps ph rest := by
  have hkeeps : (errnoProtocol f failure).Keeps .early (act.entry.code π act.base) :=
    code_errno act.base hf hr
  obtain ⟨ph, hpath, hk⟩ := hkeeps.path hs.follows
  have hstart : Known f failure [] act.start.errno .early := ⟨rfl, rfl⟩
  exact ⟨ph, by simpa using hstart.run hpath hs.chained hs.answers, hk⟩

end

/-- A finished call without an injected fault made its native call once, returned what it
returned, and raised what its outcome calls for, whatever was in errno before. -/
def Decided (f : Api) (failure : Word) (past : List Event) (v : Word) : Prop :=
  ∃ args e, mains f past = [(f, args, e)] ∧ v = e.answer ∧
    ∀ o : Outcome, o.Returns f failure e.before.errno e.answer e.after.errno →
      raised past = o.report

theorem Missed.decided {f : Api} {failure : Word} {past : List Event} {e : Event}
    (h : Missed f failure past e)
    (hraised : e.after.errno ≠ 0 → raised past = [(.errno, e.after.errno)])
    (hnone : e.after.errno = 0 → f.inBand = true → raised past = []) :
    Decided f failure past failure := by
  obtain ⟨⟨args, hmain⟩, hanswer, hreset⟩ := h
  refine ⟨args, e, hmain, hanswer.symm, fun o ho => ?_⟩
  cases o with
  | failed code =>
    obtain ⟨-, rfl, hcode⟩ := ho
    exact hraised hcode
  | noValue =>
    obtain ⟨hinBand, -, hafter⟩ := ho
    exact hnone (hafter.trans hreset) hinBand
  | succeeded => exact absurd hanswer ho

theorem Known.decided {f : Api} {failure : Word} {past : List Event} {now v : Word}
    {ph : ErrnoPhase} (h : Known f failure past now ph) (hv : ph.Final failure v)
    (hspared : ∀ c ∈ consulted past, c.2 = 0) : Decided f failure past v := by
  cases ph with
  | faulted =>
    obtain ⟨c, hc, hmem⟩ := h
    exact absurd (hspared _ hmem) hc
  | served r =>
    obtain ⟨args, e, hmain, hanswer, hne, hraised⟩ := h
    obtain rfl : v = r := hv
    refine ⟨args, e, hmain, hanswer.symm, fun o ho => ?_⟩
    cases o with
    | failed code => exact absurd (hanswer ▸ ho.1) hne
    | noValue => exact absurd (hanswer ▸ ho.2.1) hne
    | succeeded => exact hraised
  | raised x =>
    obtain ⟨e, hmissed, hx, hraised, hzero⟩ := h
    obtain rfl : v = failure := hv
    subst hx
    apply hmissed.decided hraised
    intro h0 hinBand
    rw [hzero h0] at hinBand
    cases hinBand
  | excused =>
    obtain ⟨e, hmissed, hzero, hraised⟩ := h
    obtain rfl : v = failure := hv
    apply hmissed.decided
    · exact fun hne => absurd hzero hne
    · exact fun _ _ => hraised
  | early | cleared | failed | asked | askedAgain => exact hv.elim

/-- In every run the native call's outcome decides, and errno never does. -/
theorem decided_of_reach {π : Platform} {legal : Config → Nat → Move → Prop} {heap : Word → Word}
    {cfg : Config} (h : Effect.Config.Reach (system π) legal (startConfig heap) cfg) {t id : Nat}
    {act : Activation} {v : Word} {f : Api} {failure : Word} (hexit : (t, .exit id act v) ∈ cfg.log)
    (hf : act.entry.api = some f) (hr : f.reports = some failure)
    (hspared : ∀ c ∈ consulted act.past, c.2 = 0) : Decided f failure act.past v := by
  obtain ⟨now, hs⟩ := h.accounted.returned t id act v hexit
  obtain ⟨ph, hknown, hk⟩ := known_of_sound hs hf hr
  exact hknown.decided hk hspared

end P101Filesystem
