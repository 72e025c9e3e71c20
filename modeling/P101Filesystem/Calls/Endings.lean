import P101Filesystem.Bare.Mirrored
import P101Filesystem.Walk.Failures

/-!
# How every call ends

A finished call was refused by the injector, or it rejected its arguments, or its native
function ran once from errno 0. In the last case what it returns, raises and records is a
function of the native answer, the errno that came with it, what a native walk heard, and what
the wrapper looked up on the side.
-/
namespace P101Filesystem

open Effect

/-- What a call looked up on the side: a descriptor, the length of a path, words of memory. -/
structure Seen where
  fd : Word
  length : Word
  loads : List Word
  deriving DecidableEq, Repr

def Op.queries : Op → Bool
  | .native .dirfd _ => true
  | _ => false

def Op.measures : Op → Bool
  | .strlen _ => true
  | _ => false

def Op.loads : Op → Bool
  | .load _ => true
  | _ => false

def answersTo (p : Op → Bool) (es : List Event) : List Word :=
  (es.filter fun e => p e.op).map Effect.Event.answer

def seen (es : List Event) : Seen :=
  ⟨(answersTo Op.queries es).headD (-1), (answersTo Op.measures es).headD 0, answersTo Op.loads es⟩

/-- Raises and records. -/
def Op.tells : Op → Bool
  | .raise _ _ _ => true
  | .record _ => true
  | _ => false

def told (es : List Event) : List Op := (es.map Effect.Event.op).filter Op.tells

/-! ## What each wrapper tells -/

def errnoTells (failure : Word) (e : Event) : List Op :=
  if e.answer = failure then [.raise .errno none e.after.errno] else []

def inBandTells (failure : Word) (e : Event) : List Op :=
  if e.answer = failure ∧ e.after.errno ≠ 0 then [.raise .errno none e.after.errno] else []

/-- Every second word of what the loop over a list loads is an entry. -/
def entriesOf : List Word → List Word
  | _ :: entry :: rest => entry :: entriesOf rest
  | _ => []

def listTells (π : Platform) (retVal : Word) : List Word → List Op
  | _ :: block :: rest => .record (.alloc block (listSize π retVal)) ::
      (entriesOf rest).map fun entry => .record (.alloc entry π.sizeofDirent)
  | _ => []

def walkTells (π : Platform) (e : Event) : List Op :=
  if e.answer = -1 ∧ allZero e.heard then
    [.raise .errno none (if e.after.errno = 0 then π.eio else e.after.errno)]
  else []

def Call.tells (π : Platform) (c : Call) (e : Event) (s : Seen) : List Op :=
  match c with
  | .alphasort _ _ | .umask _ | .rewinddir _ | .seekdir _ _ | .sync => []
  | .basename _ | .dirname _ | .readdir _ => inBandTells NULL e
  | .fpathconf _ _ | .pathconf _ _ | .telldir _ => inBandTells (-1) e
  | .getcwd _ _ | .mkdtemp _ => errnoTells NULL e
  | .closedir dirp =>
    if e.answer = -1 then [.raise .errno none e.after.errno]
    else (if s.fd ≥ 0 then [.record (.closeFd s.fd)] else []) ++
      [.record (.release .directoryStream (π.pointerResourceId dirp))]
  | .fdopendir _ =>
    if e.answer = NULL then inBandTells NULL e
    else [.record (.acquire .directoryStream (π.pointerResourceId e.answer) 0 (.text "fdopendir"))]
  | .opendir name =>
    if e.answer = NULL then [.raise .errno none e.after.errno]
    else (if s.fd ≥ 0 then [.record (.openFd s.fd)] else []) ++
      [.record (.acquire .directoryStream (π.pointerResourceId e.answer) 0 (.pointer name))]
  | .scandir _ _ _ _ =>
    if e.answer = -1 then [.raise .errno none e.after.errno] else listTells π e.answer s.loads
  | .mkstemp _ =>
    if e.answer = -1 then [.raise .errno none e.after.errno] else [.record (.openFd e.answer)]
  | .realpath _ resolvedName =>
    if e.answer = NULL then [.raise .errno none e.after.errno]
    else if resolvedName = NULL then
      [.record (.alloc e.answer ((s.length.toNat + 1) % 2 ^ π.sizeBits))]
    else []
  | .renameat _ _ _ _ =>
    if e.answer = -1 then [.raise .errno none (stdioErrorCode π e.after.errno)] else []
  | .fnmatch _ _ _ =>
    if e.answer ≠ 0 ∧ e.answer ≠ π.fnmNomatch then
      [.raise .system (some "Invalid filename match pattern") e.answer]
    else []
  | .glob _ _ _ pglob =>
    if e.answer ≠ 0 ∧ e.answer ≠ π.globNomatch then
      [.raise .system (some (globMessage π e.answer)) e.answer]
    else if e.answer = 0 then
      [.record (.acquire .globResult (π.pointerResourceId pglob) 0 .absent)]
    else []
  | .globfree pglob => [.record (.release .globResult (π.pointerResourceId pglob))]
  | .ftw _ _ _ | .nftw _ _ _ _ => walkTells π e
  | _ => errnoTells (-1) e

section
variable (π : Platform) (e : Event) (s : Seen)

@[simp] theorem tells_closedir (dirp : Word) : Call.tells π (.closedir dirp) e s =
    if e.answer = -1 then [.raise .errno none e.after.errno]
    else (if s.fd ≥ 0 then [.record (.closeFd s.fd)] else []) ++
      [.record (.release .directoryStream (π.pointerResourceId dirp))] := rfl

@[simp] theorem tells_fdopendir (fd : Word) : Call.tells π (.fdopendir fd) e s =
    if e.answer = NULL then inBandTells NULL e
    else [.record (.acquire .directoryStream (π.pointerResourceId e.answer) 0 (.text "fdopendir"))] :=
  rfl

@[simp] theorem tells_opendir (name : Word) : Call.tells π (.opendir name) e s =
    if e.answer = NULL then [.raise .errno none e.after.errno]
    else (if s.fd ≥ 0 then [.record (.openFd s.fd)] else []) ++
      [.record (.acquire .directoryStream (π.pointerResourceId e.answer) 0 (.pointer name))] := rfl

@[simp] theorem tells_scandir (dir namelist sel compar : Word) :
    Call.tells π (.scandir dir namelist sel compar) e s =
      if e.answer = -1 then [.raise .errno none e.after.errno]
      else listTells π e.answer s.loads := rfl

@[simp] theorem tells_mkstemp (nameTemplate : Word) : Call.tells π (.mkstemp nameTemplate) e s =
    if e.answer = -1 then [.raise .errno none e.after.errno] else [.record (.openFd e.answer)] := rfl

@[simp] theorem tells_realpath (fileName resolvedName : Word) :
    Call.tells π (.realpath fileName resolvedName) e s =
      if e.answer = NULL then [.raise .errno none e.after.errno]
      else if resolvedName = NULL then
        [.record (.alloc e.answer ((s.length.toNat + 1) % 2 ^ π.sizeBits))]
      else [] := rfl

@[simp] theorem tells_renameat (oldfd oldName newfd newName : Word) :
    Call.tells π (.renameat oldfd oldName newfd newName) e s =
      if e.answer = -1 then [.raise .errno none (stdioErrorCode π e.after.errno)] else [] := rfl

@[simp] theorem tells_fnmatch (pattern string flags : Word) :
    Call.tells π (.fnmatch pattern string flags) e s =
      if e.answer ≠ 0 ∧ e.answer ≠ π.fnmNomatch then
        [.raise .system (some "Invalid filename match pattern") e.answer]
      else [] := rfl

@[simp] theorem tells_glob (pattern flags errfunc pglob : Word) :
    Call.tells π (.glob pattern flags errfunc pglob) e s =
      if e.answer ≠ 0 ∧ e.answer ≠ π.globNomatch then
        [.raise .system (some (globMessage π e.answer)) e.answer]
      else if e.answer = 0 then [.record (.acquire .globResult (π.pointerResourceId pglob) 0 .absent)]
      else [] := rfl

end

/-- The descriptor queries before and after the native call. -/
def Call.queriesBefore : Call → List (Api × List Word)
  | .closedir dirp => [(.dirfd, [dirp])]
  | _ => []

def Call.queriesAfter (c : Call) (v : Word) : List (Api × List Word) :=
  match c with
  | .opendir _ => if v = NULL then [] else [(.dirfd, [v])]
  | _ => []

def asked (es : List Event) : List (Api × List Word) := (natives es).map fun n => (n.1, n.2.1)

/-- How a call of the wrapper of `f` went. -/
inductive Ending (π : Platform) (c : Call) (f : Api) (es : List Event) (v : Word) : Prop
  | refused {domain failure code} : c.guard = some (f, domain, failure) → code ≠ 0 →
      es.map Effect.Event.op =
        [.traceEntry f, .checkFault f, .raise domain none code, .traceExit f] →
      consulted es = [(f, code)] → v = failure code → Ending π c f es v
  | rejected : c.rejected = true →
      es.map Effect.Event.op =
        [.traceEntry f, .checkFault f, .raise .errno none π.einval, .traceExit f] →
      consulted es = [(f, 0)] → v = -1 → Ending π c f es v
  | served (before) {e after} : c.rejected = false → es = before ++ e :: after →
      e.op = .native f c.passed → e.before.errno = 0 →
      asked before = c.queriesBefore → asked after = c.queriesAfter e.answer →
      told before = [] → told after = c.tells π e (seen es) → v = c.returns e.answer →
      Ending π c f es v

/-! ## Errno between events -/

/-- What the chain of local states says of errno. -/
structure Linked (es : List Event) : Prop where
  reads : ∀ {before e get after}, es = before ++ e :: get :: after → get.op = .getErrno →
    get.answer = e.after.errno ∧ get.after.errno = e.after.errno
  cleared : ∀ before {reset e after}, es = before ++ reset :: e :: after → reset.op = .setErrno 0 →
    e.before.errno = 0

theorem linked_of_sound {π : Platform} {act : Activation} {rest : Code Word} {now : Local}
    (h : act.Sound (system π) rest now) : Linked act.past where
  reads := by
    intro before e get after hpast hget
    obtain ⟨m, -, -, hbefore, -⟩ := Chained.append_iff.mp (hpast ▸ h.chained)
    obtain ⟨a, s, s', hrun⟩ := h.answers get (by simp [hpast]) (by rw [hget]; rfl)
    rw [hget, hbefore] at hrun
    obtain ⟨hanswer, hlocal⟩ := Prod.mk.inj (Option.some.inj hrun)
    obtain ⟨-, hafter⟩ := Prod.mk.inj hlocal
    exact ⟨hanswer.symm, by rw [← hafter]⟩
  cleared := by
    intro before reset e after hpast hreset
    obtain ⟨m, -, -, hbefore, -⟩ := Chained.append_iff.mp (hpast ▸ h.chained)
    obtain ⟨a, s, s', hrun⟩ := h.answers reset (by simp [hpast]) (by rw [hreset]; rfl)
    rw [hreset] at hrun
    obtain ⟨-, hlocal⟩ := Prod.mk.inj (Option.some.inj hrun)
    obtain ⟨-, hafter⟩ := Prod.mk.inj hlocal
    rw [hbefore, ← hafter]

/-! ## Stretches -/

section
variable {f : Api} {u v : Word} {es before after rest : List Event} {e : Event}

@[simp] theorem told_nil : told [] = [] := rfl

@[simp] theorem told_cons (d : Event) (ds : List Event) :
    told (d :: ds) = (if d.op.tells then [d.op] else []) ++ told ds := by
  unfold told
  cases h : d.op.tells <;> simp [h]

@[simp] theorem asked_nil : asked [] = [] := rfl

theorem asked_cons (d : Event) (ds : List Event) :
    asked (d :: ds) = (nativeOf d).toList.map (fun n => (n.1, n.2.1)) ++ asked ds := by
  simp [asked]

/-- A stretch that calls nothing native and tells `ops`. -/
structure Stretching (es : List Event) (ops : List Op) : Prop where
  asked : asked es = []
  told : told es = ops

theorem exiting_stretch (h : Follows (exiting f u) es (.done v)) : v = u ∧ Stretching es [] := by
  obtain ⟨hv, exit, rfl, hexit⟩ := exiting_done h
  exact ⟨hv, by simp [asked_cons, nativeOf, hexit], by simp [hexit, Op.tells]⟩

/-- The errno that is raised is the one the native call left. -/
theorem failing_stretch (h : Follows (failing f u) after (.done v))
    (hl : Linked (before ++ e :: after)) :
    v = u ∧ Stretching after [.raise .errno none e.after.errno] := by
  obtain ⟨hv, get, raise, exit, rfl, hget, hraise, hexit⟩ := failing_done h
  obtain ⟨hread, -⟩ := hl.reads rfl hget
  exact ⟨hv, by simp [asked_cons, nativeOf, hget, hraise, hexit],
    by simp [hget, hraise, hexit, Op.tells, hread]⟩

/-- One look at errno before the failure is reported. -/
theorem failing_again {get : Event} (h : Follows (failing f u) rest (.done v))
    (hget : get.op = .getErrno) (hl : Linked (before ++ e :: get :: rest)) :
    v = u ∧ Stretching (get :: rest) [.raise .errno none e.after.errno] := by
  obtain ⟨-, hkept⟩ := hl.reads rfl hget
  have hl' : Linked ((before ++ [e]) ++ get :: rest) := by simpa using hl
  obtain ⟨hv, hs⟩ := failing_stretch h hl'
  rw [hkept] at hs
  exact ⟨hv, by simp [asked_cons, nativeOf, hget, hs.asked], by simp [hget, Op.tells, hs.told]⟩

/-- The in-band ending: errno decides whether there was a failure. -/
theorem inBand_stretch (h : Follows (.perform .getErrno fun n =>
      if n ≠ 0 then failing f u else exiting f u) after (.done v))
    (hl : Linked (before ++ e :: after)) :
    v = u ∧ Stretching after
      (if e.after.errno ≠ 0 then [.raise .errno none e.after.errno] else []) := by
  obtain ⟨get, rest, rfl, hget, h⟩ := h.perform_done
  obtain ⟨hread, -⟩ := hl.reads rfl hget
  rw [hread] at h
  by_cases hzero : e.after.errno = 0
  · simp only [hzero, ne_eq, not_true_eq_false, if_false] at h ⊢
    obtain ⟨hv, hs⟩ := exiting_stretch h
    exact ⟨hv, by simp [asked_cons, nativeOf, hget, hs.asked], by simp [hget, Op.tells, hs.told]⟩
  · simp only [hzero, ne_eq, not_false_eq_true, if_true] at h ⊢
    exact failing_again h hget hl

/-- A record, and then what follows. -/
theorem record_stretch {r : Record} {next : Word → Code Word} {ops : List Op}
    (h : Follows (.perform (.record r) next) es (.done v))
    (hrest : ∀ {w rest}, Follows (next w) rest (.done v) → v = u ∧ Stretching rest ops) :
    v = u ∧ Stretching es (.record r :: ops) := by
  obtain ⟨d, rest, rfl, hd, h⟩ := h.perform_done
  obtain ⟨hv, hs⟩ := hrest h
  exact ⟨hv, by simp [asked_cons, nativeOf, hd, hs.asked], by simp [hd, Op.tells, hs.told]⟩

/-- errno is reset right before the native call. -/
theorem main_done {args : List Word} {tail : Word → Code Word}
    (h : Follows (.perform (.setErrno 0) fun _ => .perform (.native f args) tail) es (.done v)) :
    ∃ reset e after, es = reset :: e :: after ∧ reset.op = .setErrno 0 ∧ e.op = .native f args ∧
      Follows (tail e.answer) after (.done v) := by
  obtain ⟨reset, es, rfl, hreset, h⟩ := h.perform_done
  obtain ⟨e, after, rfl, he, h⟩ := h.perform_done
  exact ⟨reset, e, after, rfl, hreset, he, h⟩

end

/-! ## Whole calls -/

section
variable {π : Platform} {c : Call} {f : Api} {v : Word} {es : List Event}

/-- What is left to say of a call whose native function has answered. -/
structure Settles (π : Platform) (c : Call) (es : List Event) (e : Event) (after : List Event)
    (v : Word) : Prop where
  asked : asked after = c.queriesAfter e.answer
  told : told after = c.tells π e (seen es)
  returns : v = c.returns e.answer

theorem ended_refused {domain : Domain} {failure : Word → Word} {entry check raise exit : Event}
    (hg : c.guard = some (f, domain, failure)) (hcode : check.answer ≠ 0)
    (hentry : entry.op = .traceEntry f) (hcheck : check.op = .checkFault f)
    (hraise : raise.op = .raise domain none check.answer) (hexit : exit.op = .traceExit f)
    (hv : v = failure check.answer) : Ending π c f [entry, check, raise, exit] v :=
  .refused hg hcode (by simp [hentry, hcheck, hraise, hexit])
    (by simp [faultOf, hentry, hcheck, hraise, hexit]) hv

/-- A wrapper with an error object. -/
theorem ended_guarded {domain : Domain} {failure : Word → Word} {args : List Word}
    {tail : Word → Code Word} (hf : c.api = some f) (hg : f.guard = some (domain, failure))
    (hr : c.rejected = false) (ha : c.passed = args) (hb : c.queriesBefore = []) (hl : Linked es)
    (h : Follows (guarded f domain failure
      (.perform (.setErrno 0) fun _ => .perform (.native f args) tail)) es (.done v))
    (htail : ∀ entry check reset e after, es = [entry, check, reset] ++ e :: after →
      entry.op = .traceEntry f → check.op = .checkFault f → reset.op = .setErrno 0 →
      e.op = .native f args → Follows (tail e.answer) after (.done v) → Settles π c es e after v) :
    Ending π c f es v := by
  subst ha
  have hguard : c.guard = some (f, domain, failure) := by simp [Call.guard, hf, hg]
  obtain ⟨entry, check, rest, rfl, hentry, hcheck, hrest⟩ := guarded_done h
  rcases hrest with ⟨hcode, hv, raise, exit, rfl, hraise, hexit⟩ | ⟨-, hbody⟩
  · exact ended_refused hguard hcode hentry hcheck hraise hexit hv
  · obtain ⟨reset, e, after, rfl, hreset, he, hafter⟩ := main_done hbody
    have hs := htail entry check reset e after rfl hentry hcheck hreset he hafter
    refine .served [entry, check, reset] hr rfl he ?_ ?_ hs.asked ?_ hs.told hs.returns
    · exact hl.cleared [entry, check] rfl hreset
    · simp [asked_cons, nativeOf, hentry, hcheck, hreset, hb]
    · simp [hentry, hcheck, hreset, Op.tells]

/-- A wrapper without one. -/
theorem ended_unguarded {args : List Word} (tail : Word → Code Word) (hr : c.rejected = false)
    (ha : c.passed = args) (hb : c.queriesBefore = []) (hl : Linked es)
    (h : Follows (.perform (.traceEntry f) fun _ =>
      .perform (.setErrno 0) fun _ => .perform (.native f args) tail) es (.done v))
    (htail : ∀ {e after}, Follows (tail e.answer) after (.done v) → Settles π c es e after v) :
    Ending π c f es v := by
  subst ha
  obtain ⟨entry, rest, rfl, hentry, hbody⟩ := h.perform_done
  obtain ⟨reset, e, after, rfl, hreset, he, hafter⟩ := main_done hbody
  have hs := htail hafter
  refine .served [entry, reset] hr rfl he ?_ ?_ hs.asked ?_ hs.told hs.returns
  · exact hl.cleared [entry] rfl hreset
  · simp [asked_cons, nativeOf, hentry, hreset, hb]
  · simp [hentry, hreset, Op.tells]

theorem errnoWrapper_ended (failure : Word) {args : List Word} (hf : c.api = some f)
    (hg : f.guard = some (.errno, fun _ => failure)) (hr : c.rejected = false) (ha : c.passed = args)
    (hb : c.queriesBefore = []) (hq : ∀ u, c.queriesAfter u = []) (hv : ∀ u, c.returns u = u)
    (ht : ∀ e s, c.tells π e s = errnoTells failure e) (hl : Linked es)
    (h : Follows (errnoWrapper f failure args) es (.done v)) : Ending π c f es v := by
  rw [errnoWrapper_eq] at h
  refine ended_guarded hf hg hr ha hb hl h ?_
  rintro entry check reset e after rfl - - - - h
  by_cases hfail : e.answer = failure
  · rw [if_pos hfail] at h
    obtain ⟨rfl, hs⟩ := failing_stretch h hl
    exact ⟨by rw [hs.asked, hq], by rw [hs.told, ht, errnoTells, if_pos hfail], (hv _).symm⟩
  · rw [if_neg hfail] at h
    obtain ⟨rfl, hs⟩ := exiting_stretch h
    exact ⟨by rw [hs.asked, hq], by rw [hs.told, ht, errnoTells, if_neg hfail], (hv _).symm⟩

theorem inBandWrapper_ended (failure : Word) {args : List Word} (hf : c.api = some f)
    (hg : f.guard = some (.errno, fun _ => failure)) (hr : c.rejected = false) (ha : c.passed = args)
    (hb : c.queriesBefore = []) (hq : ∀ u, c.queriesAfter u = []) (hv : ∀ u, c.returns u = u)
    (ht : ∀ e s, c.tells π e s = inBandTells failure e) (hl : Linked es)
    (h : Follows (inBandWrapper f failure args) es (.done v)) : Ending π c f es v := by
  rw [inBandWrapper_eq] at h
  refine ended_guarded hf hg hr ha hb hl h ?_
  rintro entry check reset e after rfl - - - - h
  by_cases hfail : e.answer = failure
  · rw [if_pos hfail] at h
    obtain ⟨rfl, hs⟩ := inBand_stretch h hl
    exact ⟨by rw [hs.asked, hq], by simp [hs.told, ht, inBandTells, hfail], (hv _).symm⟩
  · rw [if_neg hfail] at h
    obtain ⟨rfl, hs⟩ := exiting_stretch h
    exact ⟨by rw [hs.asked, hq], by simp [hs.told, ht, inBandTells, hfail], (hv _).symm⟩

theorem plainWrapper_ended {args : List Word} (hr : c.rejected = false) (ha : c.passed = args)
    (hb : c.queriesBefore = []) (hq : ∀ u, c.queriesAfter u = []) (hv : ∀ u, c.returns u = u)
    (ht : ∀ e s, c.tells π e s = []) (hl : Linked es)
    (h : Follows (plainWrapper f args) es (.done v)) : Ending π c f es v := by
  rw [plainWrapper_eq] at h
  refine ended_unguarded _ hr ha hb hl h fun h => ?_
  obtain ⟨rfl, hs⟩ := exiting_stretch h
  exact ⟨by rw [hs.asked, hq], by rw [hs.told, ht], (hv _).symm⟩

theorem voidWrapper_ended {args : List Word} (hr : c.rejected = false) (ha : c.passed = args)
    (hb : c.queriesBefore = []) (hq : ∀ u, c.queriesAfter u = []) (hv : ∀ u, c.returns u = 0)
    (ht : ∀ e s, c.tells π e s = []) (hl : Linked es)
    (h : Follows (voidWrapper f args (pure ())) es (.done v)) : Ending π c f es v := by
  refine ended_unguarded (fun _ => exiting f 0) hr ha hb hl h fun h => ?_
  obtain ⟨rfl, hs⟩ := exiting_stretch h
  exact ⟨by rw [hs.asked, hq], by rw [hs.told, ht], (hv _).symm⟩

theorem closedir_ended {dirp : Word} (hl : Linked es)
    (h : Follows (p101Closedir π dirp) es (.done v)) : Ending π (.closedir dirp) .closedir es v := by
  rw [p101Closedir_eq] at h
  obtain ⟨entry, check, rest, rfl, hentry, hcheck, hrest⟩ := guarded_done h
  rcases hrest with ⟨hcode, hv, raise, exit, rfl, hraise, hexit⟩ | ⟨-, hbody⟩
  · exact ended_refused rfl hcode hentry hcheck hraise hexit hv
  obtain ⟨query, rest, rfl, hquery, hbody⟩ := hbody.perform_done
  obtain ⟨reset, e, after, rfl, hreset, he, h⟩ := main_done hbody
  have hfd : (seen (entry :: check :: query :: reset :: e :: after)).fd = query.answer := by
    simp [seen, answersTo, hentry, hcheck, hquery, Op.queries]
  have hbefore : asked [entry, check, query, reset] = [(.dirfd, [dirp])] := by
    simp [asked_cons, nativeOf, hentry, hcheck, hquery, hreset]
  have htold : told [entry, check, query, reset] = [] := by
    simp [hentry, hcheck, hquery, hreset, Op.tells]
  have hzero : e.before.errno = 0 := hl.cleared [entry, check, query] rfl hreset
  have tells : ∀ ops, v = e.answer → Stretching after ops →
      ops = Call.tells π (.closedir dirp) e (seen (entry :: check :: query :: reset :: e :: after)) →
      Ending π (.closedir dirp) .closedir (entry :: check :: query :: reset :: e :: after) v := by
    intro ops hv hs hops
    exact .served [entry, check, query, reset] rfl rfl he hzero hbefore hs.asked htold
      (hs.told.trans hops) hv
  by_cases hfail : e.answer = -1
  · rw [if_pos hfail] at h
    have hl' : Linked ([entry, check, query, reset] ++ e :: after) := hl
    obtain ⟨hv, hs⟩ := failing_stretch h hl'
    exact tells _ hv hs (by simp [hfail])
  rw [if_neg hfail] at h
  by_cases hopen : query.answer ≥ 0
  · rw [if_pos hopen] at h
    obtain ⟨hv, hs⟩ := record_stretch (u := e.answer) h fun h =>
      record_stretch h fun h => exiting_stretch h
    exact tells _ hv hs (by simp [hfail, hfd, hopen])
  · rw [if_neg hopen] at h
    obtain ⟨hv, hs⟩ := record_stretch (u := e.answer) h fun h => exiting_stretch h
    exact tells _ hv hs (by simp [hfail, hfd, hopen])

theorem fdopendir_ended {fd : Word} (hl : Linked es)
    (h : Follows (p101Fdopendir π fd) es (.done v)) : Ending π (.fdopendir fd) .fdopendir es v := by
  rw [p101Fdopendir_eq] at h
  refine ended_guarded rfl rfl rfl rfl rfl hl h ?_
  rintro entry check reset e after rfl - - - - h
  by_cases hfail : e.answer = NULL
  · rw [if_pos hfail] at h
    obtain ⟨rfl, hs⟩ := inBand_stretch h hl
    exact ⟨hs.asked, by simp [hs.told, inBandTells, hfail], rfl⟩
  · rw [if_neg hfail] at h
    obtain ⟨rfl, hs⟩ := record_stretch (u := e.answer) h fun h => exiting_stretch h
    exact ⟨hs.asked, by simp [hs.told, hfail], rfl⟩

theorem opendir_ended {name : Word} (hl : Linked es)
    (h : Follows (p101Opendir π name) es (.done v)) : Ending π (.opendir name) .opendir es v := by
  rw [p101Opendir_eq] at h
  refine ended_guarded rfl rfl rfl rfl rfl hl h ?_
  rintro entry check reset e after rfl hentry hcheck hreset he h
  by_cases hfail : e.answer = NULL
  · rw [if_pos hfail] at h
    obtain ⟨rfl, hs⟩ := failing_stretch h hl
    exact ⟨by simp [hs.asked, Call.queriesAfter, hfail], by simp [hs.told, hfail], rfl⟩
  rw [if_neg hfail] at h
  obtain ⟨query, rest, rfl, hquery, h⟩ := h.perform_done
  have hfd : (seen ([entry, check, reset] ++ e :: query :: rest)).fd = query.answer := by
    simp [seen, answersTo, hentry, hcheck, hreset, he, hquery, Op.queries]
  by_cases hopen : query.answer ≥ 0
  · rw [if_pos hopen] at h
    obtain ⟨rfl, hs⟩ := record_stretch (u := e.answer) h fun h =>
      record_stretch h fun h => exiting_stretch h
    refine ⟨?_, ?_, rfl⟩
    · simp [asked_cons, nativeOf, hquery, hs.asked, Call.queriesAfter, hfail]
    · rw [told_cons, hs.told, tells_opendir, if_neg hfail, hfd, if_pos hopen]
      simp [hquery, Op.tells]
  · rw [if_neg hopen] at h
    obtain ⟨rfl, hs⟩ := record_stretch (u := e.answer) h fun h => exiting_stretch h
    refine ⟨?_, ?_, rfl⟩
    · simp [asked_cons, nativeOf, hquery, hs.asked, Call.queriesAfter, hfail]
    · rw [told_cons, hs.told, tells_opendir, if_neg hfail, hfd, if_neg hopen]
      simp [hquery, Op.tells]

theorem mkstemp_ended {nameTemplate : Word} (hl : Linked es)
    (h : Follows (p101Mkstemp nameTemplate) es (.done v)) :
    Ending π (.mkstemp nameTemplate) .mkstemp es v := by
  rw [p101Mkstemp_normal] at h
  refine ended_guarded rfl rfl rfl rfl rfl hl h ?_
  rintro entry check reset e after rfl - - - - h
  by_cases hfail : e.answer = -1
  · rw [if_pos hfail] at h
    obtain ⟨rfl, hs⟩ := failing_stretch h hl
    exact ⟨hs.asked, by simp [hs.told, hfail], rfl⟩
  · rw [if_neg hfail] at h
    obtain ⟨rfl, hs⟩ := record_stretch (u := e.answer) h fun h => exiting_stretch h
    exact ⟨hs.asked, by simp [hs.told, hfail], rfl⟩

theorem realpath_ended {fileName resolvedName : Word} (hl : Linked es)
    (h : Follows (p101Realpath π fileName resolvedName) es (.done v)) :
    Ending π (.realpath fileName resolvedName) .realpath es v := by
  rw [p101Realpath_eq] at h
  refine ended_guarded rfl rfl rfl rfl rfl hl h ?_
  rintro entry check reset e after rfl hentry hcheck hreset he h
  by_cases hfail : e.answer = NULL
  · rw [if_pos hfail] at h
    obtain ⟨rfl, hs⟩ := failing_stretch h hl
    exact ⟨hs.asked, by simp [hs.told, hfail], rfl⟩
  rw [if_neg hfail] at h
  by_cases hown : resolvedName = NULL
  · rw [if_pos hown] at h
    obtain ⟨measure, rest, rfl, hmeasure, h⟩ := h.perform_done
    have hlength :
        (seen ([entry, check, reset] ++ e :: measure :: rest)).length = measure.answer := by
      simp [seen, answersTo, hentry, hcheck, hreset, he, hmeasure, Op.measures]
    obtain ⟨rfl, hs⟩ := record_stretch (u := e.answer) h fun h => exiting_stretch h
    refine ⟨?_, ?_, rfl⟩
    · simp [asked_cons, nativeOf, hmeasure, hs.asked, Call.queriesAfter]
    · rw [told_cons, hs.told, tells_realpath, if_neg hfail, if_pos hown, hlength]
      simp [hmeasure, Op.tells]
  · rw [if_neg hown] at h
    obtain ⟨rfl, hs⟩ := exiting_stretch h
    exact ⟨hs.asked, by simp [hs.told, hfail, hown], rfl⟩

theorem renameat_ended {oldfd oldName newfd newName : Word} (hl : Linked es)
    (h : Follows (p101Renameat π oldfd oldName newfd newName) es (.done v)) :
    Ending π (.renameat oldfd oldName newfd newName) .renameat es v := by
  rw [p101Renameat_eq] at h
  refine ended_guarded rfl rfl rfl rfl rfl hl h ?_
  rintro entry check reset e after rfl - - - - h
  by_cases hfail : e.answer = -1
  · rw [if_pos hfail] at h
    obtain ⟨get, rest, rfl, hget, h⟩ := h.perform_done
    obtain ⟨raise, rest, rfl, hraise, h⟩ := h.perform_done
    obtain ⟨rfl, hs⟩ := exiting_stretch h
    obtain ⟨hread, -⟩ := hl.reads rfl hget
    refine ⟨?_, ?_, rfl⟩
    · simp [asked_cons, nativeOf, hget, hraise, hs.asked, Call.queriesAfter]
    · simp [hget, hraise, hs.told, Op.tells, hfail, hread]
  · rw [if_neg hfail] at h
    obtain ⟨rfl, hs⟩ := exiting_stretch h
    exact ⟨hs.asked, by simp [hs.told, hfail], rfl⟩

theorem fnmatch_ended {pattern string flags : Word} (hl : Linked es)
    (h : Follows (p101Fnmatch π pattern string flags) es (.done v)) :
    Ending π (.fnmatch pattern string flags) .fnmatch es v := by
  rw [p101Fnmatch_eq] at h
  refine ended_guarded rfl rfl rfl rfl rfl hl h ?_
  rintro entry check reset e after rfl - - - - h
  by_cases hfail : e.answer ≠ 0 ∧ e.answer ≠ π.fnmNomatch
  · rw [if_pos hfail] at h
    obtain ⟨raise, rest, rfl, hraise, h⟩ := h.perform_done
    obtain ⟨rfl, hs⟩ := exiting_stretch h
    refine ⟨?_, ?_, rfl⟩
    · simp [asked_cons, nativeOf, hraise, hs.asked, Call.queriesAfter]
    · rw [told_cons, hs.told, tells_fnmatch, if_pos hfail]
      simp [hraise, Op.tells]
  · rw [if_neg hfail] at h
    obtain ⟨rfl, hs⟩ := exiting_stretch h
    exact ⟨hs.asked, by rw [hs.told, tells_fnmatch, if_neg hfail], rfl⟩

theorem glob_ended {pattern flags errfunc pglob : Word} (hl : Linked es)
    (h : Follows (p101Glob π pattern flags errfunc pglob) es (.done v)) :
    Ending π (.glob pattern flags errfunc pglob) .glob es v := by
  rw [p101Glob_eq] at h
  refine ended_guarded rfl rfl rfl rfl rfl hl h ?_
  rintro entry check reset e after rfl - - - - h
  by_cases hfail : e.answer ≠ 0 ∧ e.answer ≠ π.globNomatch
  · rw [if_pos hfail] at h
    obtain ⟨raise, rest, rfl, hraise, h⟩ := h.perform_done
    obtain ⟨rfl, hs⟩ := exiting_stretch h
    refine ⟨?_, ?_, rfl⟩
    · simp [asked_cons, nativeOf, hraise, hs.asked, Call.queriesAfter]
    · rw [told_cons, hs.told, tells_glob, if_pos hfail]
      simp [hraise, Op.tells]
  rw [if_neg hfail] at h
  by_cases hfound : e.answer = 0
  · rw [if_pos hfound] at h
    obtain ⟨rfl, hs⟩ := record_stretch (u := e.answer) h fun h => exiting_stretch h
    exact ⟨hs.asked, by rw [hs.told, tells_glob, if_neg hfail, if_pos hfound], rfl⟩
  · rw [if_neg hfound] at h
    obtain ⟨rfl, hs⟩ := exiting_stretch h
    exact ⟨hs.asked, by rw [hs.told, tells_glob, if_neg hfail, if_neg hfound], rfl⟩

theorem globfree_ended {pglob : Word} (hl : Linked es)
    (h : Follows (p101Globfree π pglob) es (.done v)) :
    Ending π (.globfree pglob) .globfree es v := by
  rw [p101Globfree_eq] at h
  refine ended_unguarded (f := .globfree) (fun _ => .perform (.record (.release .globResult
    (π.pointerResourceId pglob))) fun _ => exiting .globfree 0) rfl rfl rfl hl h fun h => ?_
  obtain ⟨rfl, hs⟩ := record_stretch (u := 0) h fun h => exiting_stretch h
  exact ⟨hs.asked, hs.told, rfl⟩

/-! ## Lists -/

@[simp] theorem answersTo_append (p : Op → Bool) (ds : List Event) :
    answersTo p (es ++ ds) = answersTo p es ++ answersTo p ds := by
  simp [answersTo]

@[simp] theorem answersTo_cons (p : Op → Bool) (d : Event) (ds : List Event) :
    answersTo p (d :: ds) = (if p d.op then [d.answer] else []) ++ answersTo p ds := by
  cases h : p d.op <;> simp [answersTo, h]

@[simp] theorem answersTo_nil (p : Op → Bool) : answersTo p [] = [] := rfl

/-- The loop loads the array and one entry for each round, and records the entries. -/
theorem trackEntries_done {namelist : Word} {next : Unit → Code Word} (n i : Nat)
    (h : Follows ((trackEntries π namelist n i).bind next) es (.done v)) :
    ∃ loop rest, es = loop ++ rest ∧ asked loop = [] ∧
      (answersTo Op.loads loop).length = 2 * n ∧
      told loop = (entriesOf (answersTo Op.loads loop)).map
        (fun entry => .record (.alloc entry π.sizeofDirent)) ∧
      Follows (next ()) rest (.done v) := by
  induction n generalizing i es with
  | zero => exact ⟨[], es, rfl, rfl, rfl, rfl, h⟩
  | succ n ih =>
    simp only [trackEntries, load, trackAlloc, Program.bind_def, Program.op_bind, act_bind,
      Program.perform_bind] at h
    obtain ⟨list, es, rfl, hlist, h⟩ := h.perform_done
    obtain ⟨entry, es, rfl, hentry, h⟩ := h.perform_done
    obtain ⟨record, es, rfl, hrecord, h⟩ := h.perform_done
    obtain ⟨loop, rest, rfl, hasked, hlength, htold, h⟩ := ih (i + 1) h
    refine ⟨list :: entry :: record :: loop, rest, rfl, ?_, ?_, ?_, h⟩
    · simp [asked_cons, nativeOf, hlist, hentry, hrecord, hasked]
    · simp [hlist, hentry, hrecord, Op.loads, hlength]
      omega
    · simp [hlist, hentry, hrecord, Op.loads, Op.tells, htold, entriesOf]

theorem scandir_ended {dir namelist sel compar : Word} (hl : Linked es)
    (h : Follows (p101Scandir π dir namelist sel compar) es (.done v)) :
    Ending π (.scandir dir namelist sel compar) .scandir es v := by
  rw [p101Scandir_eq] at h
  refine ended_guarded rfl rfl rfl rfl rfl hl h ?_
  rintro entry check reset e after rfl hentry hcheck hreset he h
  by_cases hfail : e.answer = -1
  · rw [if_pos hfail] at h
    obtain ⟨rfl, hs⟩ := failing_stretch h hl
    exact ⟨hs.asked, by simp [hs.told, hfail], rfl⟩
  rw [if_neg hfail] at h
  have hseen : (seen ([entry, check, reset] ++ e :: after)).loads = answersTo Op.loads after := by
    simp [seen, hentry, hcheck, hreset, he, Op.loads]
  simp only [trackList, load, trackAlloc, Program.bind_def, Program.op_bind, act_bind,
    Program.perform_bind] at h
  obtain ⟨list, rest, rfl, hlist, h⟩ := h.perform_done
  by_cases hnull : list.answer = NULL
  · simp only [hnull, when, ne_eq, not_true_eq_false, if_false, Program.pure_def,
      Program.done_bind] at h
    obtain ⟨rfl, hs⟩ := exiting_stretch h
    have hnone : answersTo Op.loads rest = [] := by
      obtain ⟨-, exit, rfl, hexit⟩ := exiting_done h
      simp [hexit, Op.loads]
    refine ⟨?_, ?_, rfl⟩
    · simp [asked_cons, nativeOf, hlist, hs.asked, Call.queriesAfter]
    · rw [tells_scandir, if_neg hfail, hseen]
      simp [hlist, Op.loads, Op.tells, hs.told, hnone, listTells]
  · simp only [hnull, when, ne_eq, not_false_eq_true, if_true, Program.perform_bind] at h
    obtain ⟨block, rest, rfl, hblock, h⟩ := h.perform_done
    obtain ⟨record, rest, rfl, hrecord, h⟩ := h.perform_done
    obtain ⟨loop, rest, rfl, hasked, -, htold, h⟩ := trackEntries_done _ _ h
    obtain ⟨rfl, hs⟩ := exiting_stretch h
    have hnone : answersTo Op.loads rest = [] := by
      obtain ⟨-, exit, rfl, hexit⟩ := exiting_done h
      simp [hexit, Op.loads]
    have happend : told (loop ++ rest) = told loop ++ told rest := by simp [told]
    have hsilent : asked (loop ++ rest) = asked loop ++ asked rest := by simp [asked]
    refine ⟨?_, ?_, rfl⟩
    · simp [asked_cons, nativeOf, hlist, hblock, hrecord, hsilent, hasked, hs.asked,
        Call.queriesAfter]
    · rw [tells_scandir, if_neg hfail, hseen]
      simp [hlist, hblock, hrecord, Op.loads, Op.tells, happend, htold, hs.told, hnone, listTells]

/-! ## Walks -/

/-- What a walk tells of its native walk `e`, by what its flag said then. -/
theorem walkTail_stretch {k : Kind} {b : Word} {e : Event} {before after : List Event}
    (h : Follows (walkTail π k b e.answer) after (.done v)) (hl : Linked (before ++ e :: after)) :
    v = e.answer ∧ ∃ ops, Stretching after ops ∧
      raised after = ops.filterMap Op.raises ∧
      (e.answer ≠ -1 → ops = []) ∧
      (e.answer = -1 → ops = [] ∨
        ops = [.raise .errno none (if e.after.errno = 0 then π.eio else e.after.errno)]) := by
  rw [walkTail_eq] at h
  obtain ⟨get, rest, rfl, hget, h⟩ := h.perform_done
  obtain ⟨fetch, rest, rfl, hfetch, h⟩ := h.perform_done
  obtain ⟨unlink, rest, rfl, hunlink, h⟩ := h.perform_done
  obtain ⟨hread, -⟩ := hl.reads rfl hget
  by_cases hfailed : e.answer = -1
  · rw [if_pos hfailed] at h
    obtain ⟨check, rest, rfl, hcheck, h⟩ := h.perform_done
    by_cases hclear : check.answer = 0
    · rw [if_pos hclear] at h
      obtain ⟨raise, rest, rfl, hraise, h⟩ := h.perform_done
      obtain ⟨hv, exit, rfl, hexit⟩ := exiting_done h
      refine ⟨hv, _, ⟨?_, ?_⟩, ?_, fun hne => absurd hfailed hne, fun _ => .inr rfl⟩
      · simp [asked_cons, nativeOf, hget, hfetch, hunlink, hcheck, hraise, hexit]
      · simp [hget, hfetch, hunlink, hcheck, hraise, hexit, hread, Op.tells]
      · simp [raiseOf, hget, hfetch, hunlink, hcheck, hraise, hexit, hread, Op.raises]
    · rw [if_neg hclear] at h
      obtain ⟨hv, exit, rfl, hexit⟩ := exiting_done h
      refine ⟨hv, [], ⟨?_, ?_⟩, ?_, fun hne => absurd hfailed hne, fun _ => .inl rfl⟩
      · simp [asked_cons, nativeOf, hget, hfetch, hunlink, hcheck, hexit]
      · simp [hget, hfetch, hunlink, hcheck, hexit, Op.tells]
      · simp [raiseOf, hget, hfetch, hunlink, hcheck, hexit]
  · rw [if_neg hfailed] at h
    obtain ⟨hv, exit, rfl, hexit⟩ := exiting_done h
    refine ⟨hv, [], ⟨?_, ?_⟩, ?_, fun _ => rfl, fun hf => absurd hf hfailed⟩
    · simp [asked_cons, nativeOf, hget, hfetch, hunlink, hexit]
    · simp [hget, hfetch, hunlink, hexit, Op.tells]
    · simp [raiseOf, hget, hfetch, hunlink, hexit]

theorem WalkCall.call_guard (w : WalkCall) :
    w.call.guard = some (w.kind.api, .errno, fun _ => -1) := by
  obtain ⟨kind, path, fn, limit, flags⟩ := w
  cases kind <;> rfl

theorem WalkCall.call_rejected (w : WalkCall) : w.call.rejected = decide w.Rejected := by
  obtain ⟨kind, path, fn, limit, flags⟩ := w
  cases kind <;> rfl

theorem WalkCall.call_passed (w : WalkCall) : w.call.passed = w.args := by
  obtain ⟨kind, path, fn, limit, flags⟩ := w
  cases kind <;> rfl

/-- A walk answers like its native walk. -/
theorem WalkCall.call_settles (w : WalkCall) (π : Platform) (e : Event) (s : Seen) (u : Word) :
    w.call.queriesBefore = [] ∧ w.call.queriesAfter u = [] ∧ w.call.returns u = u ∧
      w.call.tells π e s = walkTells π e := by
  obtain ⟨kind, path, fn, limit, flags⟩ := w
  cases kind <;> exact ⟨rfl, rfl, rfl, rfl⟩

theorem walk_ended (w : WalkCall) {b : Word} (hl : Linked es)
    (hreport : ∀ f args e, (f, args, e) ∈ natives es → e.answer = -1 →
      raised es = failureReport π e)
    (h : Follows (w.call.code π b) es (.done v)) : Ending π w.call w.kind.api es v := by
  rw [w.call_code, walk_eq] at h
  obtain ⟨entry, es, rfl, hentry, h⟩ := h.perform_done
  obtain ⟨check, es, rfl, hcheck, h⟩ := h.perform_done
  by_cases hfault : check.answer = 0
  case neg =>
    simp only [hfault, ne_eq, not_false_eq_true, if_true] at h
    obtain ⟨raise, es, rfl, hraise, h⟩ := h.perform_done
    obtain ⟨hv, exit, rfl, hexit⟩ := exiting_done h
    exact ended_refused w.call_guard hfault hentry hcheck hraise hexit hv
  simp only [hfault, ne_eq, not_true_eq_false, if_false] at h
  by_cases hrejected : w.path = NULL ∨ w.fn = NULL ∨ w.limit < 1
  · rw [if_pos hrejected] at h
    obtain ⟨raise, es, rfl, hraise, h⟩ := h.perform_done
    obtain ⟨hv, exit, rfl, hexit⟩ := exiting_done h
    refine .rejected (w.call_rejected.trans (decide_eq_true hrejected)) ?_ ?_ hv
    · simp [hentry, hcheck, hraise, hexit]
    · simp [faultOf, hentry, hcheck, hraise, hexit, hfault]
  rw [if_neg hrejected] at h
  obtain ⟨name, es, rfl, hname, h⟩ := h.perform_done
  obtain ⟨clear, es, rfl, hclear, h⟩ := h.perform_done
  obtain ⟨find, es, rfl, hfind, h⟩ := h.perform_done
  obtain ⟨save, es, rfl, hsave, h⟩ := h.perform_done
  obtain ⟨link, es, rfl, hlink, h⟩ := h.perform_done
  obtain ⟨reset, e, after, rfl, hreset, he, h⟩ := main_done h
  have hl' : Linked ([entry, check, name, clear, find, save, link, reset] ++ e :: after) := hl
  obtain ⟨hv, ops, hs, hraised, hnone, hsome⟩ := walkTail_stretch h hl'
  obtain ⟨hbefore, hafter, hreturns, htells⟩ := w.call_settles π e
    (seen (entry :: check :: name :: clear :: find :: save :: link :: reset :: e :: after)) e.answer
  have hall : raised (entry :: check :: name :: clear :: find :: save :: link :: reset :: e ::
      after) = ops.filterMap Op.raises := by
    simp [raiseOf, hentry, hcheck, hname, hclear, hfind, hsave, hlink, hreset, he, hraised]
  have hops : ops = walkTells π e := by
    by_cases hfailed : e.answer = -1
    · have hsaid := hreport w.kind.api w.args e (by simp [nativeOf, he]) hfailed
      rw [hall, failureReport] at hsaid
      rcases hsome hfailed with rfl | rfl
      · have hzero : allZero e.heard = false := by
          by_contra hne
          simp [hne] at hsaid
        simp [walkTells, hzero]
      · have hzero : allZero e.heard = true := by
          by_contra hne
          simp [hne, Op.raises] at hsaid
        simp [walkTells, hfailed, hzero]
    · rw [hnone hfailed, walkTells, if_neg fun hboth => hfailed hboth.1]
  refine .served [entry, check, name, clear, find, save, link, reset]
    (w.call_rejected.trans (decide_eq_false hrejected)) rfl (by rw [he, w.call_passed])
    ?_ ?_ ?_ ?_ ?_ ?_
  · exact hl.cleared [entry, check, name, clear, find, save, link] rfl hreset
  · rw [hbefore]
    simp [asked_cons, nativeOf, hentry, hcheck, hname, hclear, hfind, hsave, hlink, hreset]
  · rw [hs.asked, hafter]
  · simp [hentry, hcheck, hname, hclear, hfind, hsave, hlink, hreset, Op.tells]
  · rw [hs.told, hops, htells]
  · rw [hv, hreturns]

/-! ## Every call -/

theorem code_ended {b : Word} (hf : c.api = some f) (hl : Linked es)
    (hreport : ∀ w : WalkCall, c = w.call → ∀ g args e, (g, args, e) ∈ natives es →
      e.answer = -1 → raised es = failureReport π e)
    (h : Follows (c.code π b) es (.done v)) : Ending π c f es v := by
  have walks : ∀ w : WalkCall, c = w.call → Ending π w.call w.kind.api es v := by
    rintro w rfl
    exact walk_ended w hl (hreport w rfl) h
  cases c with
  | access | chdir | chmod | chown | dirfd | faccessat | fchdir | fchmod | fchmodat | fchown
  | fchownat | fstat | fstatat | fstatvfs | ftruncate | futimens | getcwd | lchown | link
  | linkat | lstat | mkdir | mkdirat | mkdtemp | mknod | readlink | readlinkat | rmdir | stat
  | statvfs | symlink | symlinkat | truncate | unlink | unlinkat | utimensat =>
    cases hf
    exact errnoWrapper_ended _ rfl rfl rfl rfl rfl (fun _ => rfl) (fun _ => rfl) (fun _ _ => rfl) hl h
  | basename | dirname | fpathconf | pathconf | readdir | telldir =>
    cases hf
    exact inBandWrapper_ended _ rfl rfl rfl rfl rfl (fun _ => rfl) (fun _ => rfl)
      (fun _ _ => rfl) hl h
  | alphasort | umask =>
    cases hf
    exact plainWrapper_ended rfl rfl rfl (fun _ => rfl) (fun _ => rfl) (fun _ _ => rfl) hl h
  | rewinddir | seekdir | sync =>
    cases hf
    exact voidWrapper_ended rfl rfl rfl (fun _ => rfl) (fun _ => rfl) (fun _ _ => rfl) hl h
  | closedir =>
    cases hf
    exact closedir_ended hl h
  | fdopendir =>
    cases hf
    exact fdopendir_ended hl h
  | opendir =>
    cases hf
    exact opendir_ended hl h
  | scandir =>
    cases hf
    exact scandir_ended hl h
  | mkstemp =>
    cases hf
    exact mkstemp_ended hl h
  | realpath =>
    cases hf
    exact realpath_ended hl h
  | renameat =>
    cases hf
    exact renameat_ended hl h
  | fnmatch =>
    cases hf
    exact fnmatch_ended hl h
  | glob =>
    cases hf
    exact glob_ended hl h
  | globfree =>
    cases hf
    exact globfree_ended hl h
  | ftw path fn ndirs =>
    cases hf
    exact walks ⟨.ftw, path, fn, ndirs, 0⟩ rfl
  | nftw path fn fdLimit flags =>
    cases hf
    exact walks ⟨.nftw, path, fn, fdLimit, flags⟩ rfl
  | callFtwCallback | callNftwCallback => cases hf

end

/-- How every finished call went, nested walks and other threads included. -/
theorem call_outcomes {π : Platform} {legal : Config → Nat → Move → Prop} {heap : Word → Word}
    {cfg : Config} (h : Effect.Config.Reach (system π) legal (startConfig heap) cfg) {t id : Nat}
    {act : Activation} {f : Api} {v : Word} (hexit : (t, .exit id act v) ∈ cfg.log)
    (hf : act.entry.api = some f) : Ending π act.entry f act.past v := by
  obtain ⟨now, hsound⟩ := h.accounted.returned t id act v hexit
  refine code_ended hf (linked_of_sound hsound) ?_ hsound.follows
  intro w hw g args e he hfailed
  exact (walk_reports h hexit hw he hfailed).2.2

/-- opendir finds a directory whose stream has descriptor 3. -/
def openedDirectory : List (Nat × Move) :=
  (0, .call (.opendir 1) 0 calm₀) ::
    (runs 0 3 ++ answers 0 7 ++ answers 0 3 ++ runs 0 3 ++ [(0, .exit)])

def Item.opened : Nat × Item → Bool
  | (t, .exit _ act v) => t = 0 ∧ act.entry = .opendir 1 ∧ v = 7
  | _ => false

theorem openedDirectory_opens : ((startConfig fun _ => 0).run (system linux) (fun _ _ _ => True)
    openedDirectory).map (fun cfg => cfg.log.any Item.opened) = some true := by
  decide +kernel

theorem call_outcomes_opened :
    ∃ cfg id act, (startConfig fun _ => 0).run (system linux) (fun _ _ _ => True)
        openedDirectory = some cfg ∧ (0, .exit id act 7) ∈ cfg.log ∧
      Ending linux (.opendir 1) .opendir act.past 7 := by
  obtain ⟨cfg, hcfg, hany⟩ := Option.map_eq_some_iff.mp openedDirectory_opens
  obtain ⟨⟨t, i⟩, hmem, hi⟩ := List.any_eq_true.mp hany
  cases i with
  | exit id act v =>
    simp only [Item.opened, decide_eq_true_eq] at hi
    obtain ⟨rfl, hentry, rfl⟩ := hi
    have hended := call_outcomes (Effect.Config.Reach.of_run .init hcfg) hmem
      (by rw [hentry]; rfl)
    exact ⟨cfg, id, act, hcfg, hmem, hentry ▸ hended⟩
  | _ => cases hi

end P101Filesystem
