import P101Filesystem.Effect.Brackets
import P101Filesystem.Effect.Numbers
import P101Filesystem.Effect.Protocol
import P101Filesystem.Source.Normal
import P101Filesystem.Source.Footprint
import P101Filesystem.Walk.Code
import Mathlib.Data.List.Induction

/-!
# The instrumentation log

A wrapper logs its entry, its native call, an error or its records, and its exit. The calls
of a thread nest, so its log is a word of brackets named after the calls.
-/
namespace P101Filesystem

open Effect

/-- Who traces: a wrapper, or the p101_strlen that a realpath call makes. -/
inductive Tracer where
  | wrapper (f : Api)
  | strlen
  deriving DecidableEq, Repr

/-- What is logged, with the number of the wrapper call that logs it. -/
inductive Note where
  | entry (id : Nat) (tracer : Tracer)
  | exit (id : Nat) (tracer : Tracer)
  | native (id : Nat) (f : Api)
  | raise (id : Nat) (domain : Domain) (code : Word)
  | record (id : Nat) (r : Record)
  deriving DecidableEq, Repr

def Note.id : Note → Nat
  | .entry id _ | .exit id _ | .native id _ | .raise id _ _ | .record id _ => id

/-- A native call is logged when it returns. p101_strlen is a wrapper of another library and
traces by itself. -/
def Op.notes (id : Nat) : Op → List Note
  | .traceEntry f => [.entry id (.wrapper f)]
  | .traceExit f => [.exit id (.wrapper f)]
  | .strlen _ => [.entry id .strlen, .exit id .strlen]
  | .native f _ => [.native id f]
  | .raise domain _ code => [.raise id domain code]
  | .record r => [.record id r]
  | _ => []

def Item.notes : Item → List Note
  | .event id e => e.op.notes id
  | _ => []

/-- What thread `t` has logged. -/
def notes (log : List (Nat × Item)) (t : Nat) : List Note :=
  log.flatMap fun entry => if entry.1 = t then Item.notes entry.2 else []

def Note.bracket : Note → Option (Bracket (Nat × Tracer))
  | .entry id tracer => some (.opens (id, tracer))
  | .exit id tracer => some (.closes (id, tracer))
  | _ => none

def brackets (log : List (Nat × Item)) (t : Nat) : List (Bracket (Nat × Tracer)) :=
  (notes log t).filterMap Note.bracket

def Op.brackets (id : Nat) : Op → List (Bracket (Nat × Tracer))
  | .traceEntry f => [.opens (id, .wrapper f)]
  | .traceExit f => [.closes (id, .wrapper f)]
  | .strlen _ => [.opens (id, .strlen), .closes (id, .strlen)]
  | _ => []

theorem brackets_notes (id : Nat) (o : Op) :
    (o.notes id).filterMap Note.bracket = o.brackets id := by
  cases o <;> rfl

/-- The notes of call `id` to the wrapper of `f`. A native call of another function is
bookkeeping. -/
def Note.concerns (id : Nat) (f : Api) : Note → Bool
  | .native j g => j = id ∧ g = f
  | n => n.id = id

/-- What a finished call of the wrapper of `f` has logged. -/
inductive Complete (id : Nat) (f : Api) : List Note → Prop
  | refused (domain : Domain) (code : Word) : Complete id f
      [.entry id (.wrapper f), .raise id domain code, .exit id (.wrapper f)]
  | failed (domain : Domain) (code : Word) : Complete id f
      [.entry id (.wrapper f), .native id f, .raise id domain code, .exit id (.wrapper f)]
  | served (records : List Record) : Complete id f
      ([.entry id (.wrapper f), .native id f] ++ records.map (.record id) ++
        [.exit id (.wrapper f)])
  | measured (p : Word) (size : Nat) : f = .realpath → Complete id f
      [.entry id (.wrapper f), .native id f, .entry id .strlen, .exit id .strlen,
        .record id (.alloc p size), .exit id (.wrapper f)]

/-! ## The logging protocol -/

inductive LogPhase where
  | fresh | entered | ran | recorded | sized | allocated | raised | left
  deriving DecidableEq, Repr

/-- Operations that log nothing of a call to the wrapper of `f`. -/
def Op.quiet (f : Api) : Op → Bool
  | .traceEntry _ | .traceExit _ | .raise _ _ _ | .strlen _ | .record _ => false
  | .native g _ => g ≠ f
  | _ => true

inductive LogStep (f : Api) : LogPhase → Op → Word → LogPhase → Prop
  | quiet {ph o v} : o.quiet f = true → LogStep f ph o v ph
  | enter {v} : LogStep f .fresh (.traceEntry f) v .entered
  | main {args v} : LogStep f .entered (.native f args) v .ran
  | refuse {domain message code v} :
      LogStep f .entered (.raise domain message code) v .raised
  | fail {domain message code v} : LogStep f .ran (.raise domain message code) v .raised
  | record {ph r v} : ph = .ran ∨ ph = .recorded → LogStep f ph (.record r) v .recorded
  | measure {p v} : f = .realpath → LogStep f .ran (.strlen p) v .sized
  | allocate {p size v} : f = .realpath → LogStep f .sized (.record (.alloc p size)) v .allocated
  | leave {ph v} : ph = .ran ∨ ph = .recorded ∨ ph = .allocated ∨ ph = .raised →
      LogStep f ph (.traceExit f) v .left

def logProtocol (f : Api) : Protocol Op Word LogPhase := ⟨LogStep f, fun ph _ => ph = .left⟩

section
open Protocol
variable {f : Api} {ph : LogPhase} {π : Platform}

/-- An operation that logs nothing. -/
theorem logs_nothing {o : Op} {next : Word → Code Word} (ho : o.quiet f = true)
    (h : ∀ v, (logProtocol f).Keeps ph (next v)) : (logProtocol f).Keeps ph (.perform o next) :=
  keeps_step (fun _ => ph) (fun _ => .quiet ho) h

theorem logs_exiting (h : ph = .ran ∨ ph = .recorded ∨ ph = .allocated ∨ ph = .raised) (v : Word) :
    (logProtocol f).Keeps ph (exiting f v) :=
  keeps_step (fun _ => .left) (fun _ => .leave h) fun _ => rfl

theorem logs_failing (v : Word) : (logProtocol f).Keeps .ran (failing f v) := by
  refine logs_nothing rfl fun e => keeps_step (fun _ => .raised) (fun _ => .fail) fun _ => ?_
  exact logs_exiting (by simp) v

theorem logs_guarded {domain : Domain} {failure : Word → Word} {body : Code Word}
    (h : (logProtocol f).Keeps .entered body) :
    (logProtocol f).Keeps .fresh (guarded f domain failure body) := by
  refine keeps_step (fun _ => .entered) (fun _ => .enter) fun _ => logs_nothing rfl fun fault => ?_
  refine keeps_ite (keeps_step (fun _ => .raised) (fun _ => .refuse) fun _ => ?_) h
  exact logs_exiting (by simp) _

/-- The native call, with errno reset before it. -/
theorem logs_main {args : List Word} {next : Word → Code Word}
    (h : ∀ v, (logProtocol f).Keeps .ran (next v)) :
    (logProtocol f).Keeps .entered (.perform (.setErrno 0) fun _ => .perform (.native f args) next) :=
  logs_nothing rfl fun _ => keeps_step (fun _ => .ran) (fun _ => .main) h

theorem logs_record {r : Record} {next : Word → Code Word} (hph : ph = .ran ∨ ph = .recorded)
    (h : ∀ v, (logProtocol f).Keeps .recorded (next v)) :
    (logProtocol f).Keeps ph (.perform (.record r) next) :=
  keeps_step (fun _ => .recorded) (fun _ => .record hph) h

/-- A program of loads and allocation records. -/
theorem logs_lists {p : Code Unit} {next : Unit → Code Word}
    (hp : p.Avoids fun o => o.lists = false) (hph : ph = .ran ∨ ph = .recorded)
    (h : ∀ ph, ph = .ran ∨ ph = .recorded → (logProtocol f).Keeps ph (next ())) :
    (logProtocol f).Keeps ph (p.bind next) := by
  induction p generalizing ph with
  | done => exact h ph hph
  | perform o cont ih =>
    obtain ⟨ho, hcont⟩ := hp
    cases o with
    | load q => exact logs_nothing rfl fun v => ih v (hcont v) hph
    | record r => exact logs_record hph fun v => ih v (hcont v) (by simp)
    | _ => exact absurd rfl ho

/-- Every wrapper keeps to the protocol. -/
theorem Shape.logs {base : Word} {p : Code Word} (h : Shape π base f p) :
    (logProtocol f).Keeps .fresh p := by
  cases h with
  | errno failure args =>
    rw [errnoWrapper_eq]
    refine logs_guarded (logs_main fun v => keeps_ite (logs_failing v) ?_)
    exact logs_exiting (by simp) v
  | inBand failure args =>
    rw [inBandWrapper_eq]
    refine logs_guarded (logs_main fun v => keeps_ite (logs_nothing rfl fun e => ?_) ?_)
    · exact keeps_ite (logs_failing v) (logs_exiting (by simp) v)
    · exact logs_exiting (by simp) v
  | plain args =>
    rw [plainWrapper_eq]
    refine keeps_step (fun _ => .entered) (fun _ => .enter) fun _ => logs_main fun v => ?_
    exact logs_exiting (by simp) v
  | void args =>
    refine keeps_step (fun _ => .entered) (fun _ => .enter) fun _ => logs_main fun v => ?_
    exact logs_exiting (by simp) 0
  | closedir dirp =>
    rw [p101Closedir_eq]
    refine logs_guarded (logs_nothing rfl fun fd => logs_main fun v => ?_)
    refine keeps_ite (logs_failing v) (keeps_ite ?_ ?_)
    · refine logs_record (by simp) fun _ => logs_record (by simp) fun _ => ?_
      exact logs_exiting (by simp) v
    · exact logs_record (by simp) fun _ => logs_exiting (by simp) v
  | fdopendir fd =>
    rw [p101Fdopendir_eq]
    refine logs_guarded (logs_main fun v => keeps_ite (logs_nothing rfl fun e => ?_) ?_)
    · exact keeps_ite (logs_failing v) (logs_exiting (by simp) v)
    · exact logs_record (by simp) fun _ => logs_exiting (by simp) v
  | opendir dirname =>
    rw [p101Opendir_eq]
    refine logs_guarded (logs_main fun v => keeps_ite (logs_failing v) ?_)
    refine logs_nothing rfl fun fd => keeps_ite ?_ ?_
    · refine logs_record (by simp) fun _ => logs_record (by simp) fun _ => ?_
      exact logs_exiting (by simp) v
    · exact logs_record (by simp) fun _ => logs_exiting (by simp) v
  | scandir dir namelist sel compar =>
    rw [p101Scandir_eq]
    refine logs_guarded (logs_main fun v => keeps_ite (logs_failing v) ?_)
    refine logs_lists (trackList_lists π namelist v) (by simp) fun ph hph => ?_
    exact logs_exiting (by rcases hph with rfl | rfl <;> simp) v
  | mkstemp nameTemplate =>
    rw [p101Mkstemp_normal]
    refine logs_guarded (logs_main fun v => keeps_ite (logs_failing v) ?_)
    exact logs_record (by simp) fun _ => logs_exiting (by simp) v
  | realpath fileName resolvedName =>
    rw [p101Realpath_eq]
    refine logs_guarded (logs_main fun v => keeps_ite (logs_failing v) (keeps_ite ?_ ?_))
    · refine keeps_step (fun _ => .sized) (fun _ => .measure rfl) fun length => ?_
      refine keeps_step (fun _ => .allocated) (fun _ => .allocate rfl) fun _ => ?_
      exact logs_exiting (by simp) v
    · exact logs_exiting (by simp) v
  | renameat oldfd oldName newfd newName =>
    rw [p101Renameat_eq]
    refine logs_guarded (logs_main fun v => keeps_ite (logs_nothing rfl fun e => ?_) ?_)
    · refine keeps_step (fun _ => .raised) (fun _ => .fail) fun _ => ?_
      exact logs_exiting (by simp) v
    · exact logs_exiting (by simp) v
  | fnmatch pattern string flags =>
    rw [p101Fnmatch_eq]
    refine logs_guarded (logs_main fun v => keeps_ite ?_ (logs_exiting (by simp) v))
    exact keeps_step (fun _ => .raised) (fun _ => .fail) fun _ => logs_exiting (by simp) v
  | glob pattern flags errfunc pglob =>
    rw [p101Glob_eq]
    refine logs_guarded (logs_main fun v => keeps_ite ?_ (keeps_ite ?_ ?_))
    · exact keeps_step (fun _ => .raised) (fun _ => .fail) fun _ => logs_exiting (by simp) v
    · exact logs_record (by simp) fun _ => logs_exiting (by simp) v
    · exact logs_exiting (by simp) v
  | globfree pglob =>
    rw [p101Globfree_eq]
    refine keeps_step (fun _ => .entered) (fun _ => .enter) fun _ => logs_main fun v => ?_
    exact logs_record (by simp) fun _ => logs_exiting (by simp) 0
  | walk k path fn limit args =>
    have exits : ∀ ph v, ph = .ran ∨ ph = .raised → (logProtocol k.api).Keeps ph
        (.perform (.traceExit k.api) fun _ => (.done v : Code Word)) :=
      fun ph v hph => logs_exiting (by rcases hph with rfl | rfl <;> simp) v
    have refuses : ∀ code, (logProtocol k.api).Keeps .entered
        (.perform (.raise .errno none code) fun _ =>
          .perform (.traceExit k.api) fun _ => (.done (-1) : Code Word)) := fun code =>
      keeps_step (fun _ => .raised) (fun _ => .refuse) fun _ => exits .raised (-1) (by simp)
    rw [walk_eq]
    refine keeps_step (fun _ => .entered) (fun _ => .enter) fun _ => logs_nothing rfl fun fault => ?_
    refine keeps_ite (refuses fault) (keeps_ite (refuses π.einval) ?_)
    refine logs_nothing rfl fun _ => logs_nothing rfl fun _ => logs_nothing rfl fun previous => ?_
    refine logs_nothing rfl fun _ => logs_nothing rfl fun _ => logs_main fun v => ?_
    rw [walkTail_eq]
    refine logs_nothing rfl fun e => logs_nothing rfl fun previous => logs_nothing rfl fun _ => ?_
    refine keeps_ite (logs_nothing rfl fun stopped => keeps_ite ?_ ?_) (exits .ran v (by simp))
    · exact keeps_step (fun _ => .raised) (fun _ => .fail) fun _ => exits .raised v (by simp)
    · exact exits .ran v (by simp)

end

/-! ## What one call logs -/

/-- The notes that the events of call `id` add. -/
def contribution (id : Nat) (f : Api) (es : List Event) : List Note :=
  es.flatMap fun e => (e.op.notes id).filter (Note.concerns id f)

/-- What a call of the wrapper of `f` has logged when it is in a phase. -/
inductive Logged (id : Nat) (f : Api) : LogPhase → List Note → Prop
  | fresh : Logged id f .fresh []
  | entered : Logged id f .entered [.entry id (.wrapper f)]
  | ran : Logged id f .ran [.entry id (.wrapper f), .native id f]
  | recorded (records : List Record) : Logged id f .recorded
      ([.entry id (.wrapper f), .native id f] ++ records.map (.record id))
  | sized : f = .realpath → Logged id f .sized
      [.entry id (.wrapper f), .native id f, .entry id .strlen, .exit id .strlen]
  | allocated (p : Word) (size : Nat) : f = .realpath → Logged id f .allocated
      [.entry id (.wrapper f), .native id f, .entry id .strlen, .exit id .strlen,
        .record id (.alloc p size)]
  | refused (domain : Domain) (code : Word) : Logged id f .raised
      [.entry id (.wrapper f), .raise id domain code]
  | failed (domain : Domain) (code : Word) : Logged id f .raised
      [.entry id (.wrapper f), .native id f, .raise id domain code]
  | left {l} : Complete id f l → Logged id f .left l

section
variable {id : Nat} {f : Api} {ph ph' : LogPhase} {l : List Note} {o : Op} {v : Word}

theorem notes_quiet (ho : o.quiet f = true) : (o.notes id).filter (Note.concerns id f) = [] := by
  cases o with
  | native g args =>
    have hg : g ≠ f := by simpa [Op.quiet] using ho
    simp [Op.notes, Note.concerns, hg]
  | traceEntry | traceExit | raise | strlen | record => cases ho
  | _ => rfl

theorem Logged.step (h : Logged id f ph l) (hs : LogStep f ph o v ph') :
    Logged id f ph' (l ++ (o.notes id).filter (Note.concerns id f)) := by
  cases hs with
  | quiet ho =>
    rw [notes_quiet ho, List.append_nil]
    exact h
  | enter =>
    cases h
    simpa [Op.notes, Note.concerns, Note.id] using Logged.entered
  | main =>
    cases h
    simpa [Op.notes, Note.concerns] using Logged.ran
  | @refuse domain message code =>
    cases h
    simpa [Op.notes, Note.concerns, Note.id] using Logged.refused domain code
  | @fail domain message code =>
    cases h
    simpa [Op.notes, Note.concerns, Note.id] using Logged.failed domain code
  | @record _ r _ hph =>
    have hnotes : ((Op.record r).notes id).filter (Note.concerns id f) = [.record id r] := by
      simp [Op.notes, Note.concerns, Note.id]
    rw [hnotes]
    rcases hph with rfl | rfl
    · cases h
      exact .recorded [r]
    · cases h with
      | recorded records => simpa using Logged.recorded (records ++ [r])
  | measure hf =>
    cases h
    simpa [Op.notes, Note.concerns, Note.id] using Logged.sized hf
  | @allocate p size _ hf =>
    cases h
    simpa [Op.notes, Note.concerns, Note.id] using Logged.allocated p size hf
  | leave hph =>
    have hnotes : ((Op.traceExit f).notes id).filter (Note.concerns id f) =
        [.exit id (.wrapper f)] := by
      simp [Op.notes, Note.concerns, Note.id]
    rw [hnotes]
    cases h with
    | ran => exact .left (.served [])
    | recorded records => exact .left (.served records)
    | allocated p size hf => exact .left (.measured p size hf)
    | refused domain code => exact .left (.refused domain code)
    | failed domain code => exact .left (.failed domain code)
    | _ => simp at hph

theorem Logged.run {es : List Event} (h : Logged id f ph l)
    (hp : (logProtocol f).Path ph es ph') : Logged id f ph' (l ++ contribution id f es) := by
  induction hp generalizing l with
  | nil => simpa [contribution] using h
  | cons hs _ ih => simpa [contribution] using ih (h.step hs)

/-- Every call can still be completed. -/
theorem Logged.completes (h : Logged id f ph l) : ∃ whole, l <+: whole ∧ Complete id f whole := by
  cases h with
  | fresh => exact ⟨_, List.nil_prefix, .served []⟩
  | entered | ran => exact ⟨_, ⟨_, rfl⟩, .served []⟩
  | recorded records => exact ⟨_, ⟨_, rfl⟩, .served records⟩
  | sized hf => exact ⟨_, ⟨_, rfl⟩, .measured NULL 0 hf⟩
  | allocated p size hf => exact ⟨_, ⟨_, rfl⟩, .measured p size hf⟩
  | refused domain code => exact ⟨_, ⟨_, rfl⟩, .refused domain code⟩
  | failed domain code => exact ⟨_, ⟨_, rfl⟩, .failed domain code⟩
  | left hl => exact ⟨l, List.prefix_rfl, hl⟩

end

/-- A call of a wrapper has logged what its phase says. -/
theorem logged_of_sound {π : Platform} {act : Activation} {rest : Code Word} {now : Local}
    {f : Api} (hs : act.Sound (system π) rest now) (hf : act.entry.api = some f) (id : Nat) :
    ∃ ph, Logged id f ph (contribution id f act.past) ∧ (logProtocol f).Keeps ph rest := by
  obtain ⟨ph, hpath, hk⟩ := (code_shape π act.base hf).logs.path hs.follows
  exact ⟨ph, by simpa using Logged.fresh.run hpath, hk⟩

/-! ## What is open -/

def Op.entersTrace : Op → Bool
  | .traceEntry _ => true
  | _ => false

def Op.leavesTrace : Op → Bool
  | .traceExit _ => true
  | _ => false

/-- A call that has logged its entry and not its exit. -/
def openTrace (id : Nat) (act : Activation) : List (Nat × Tracer) :=
  match act.entry.api with
  | some f =>
    if (act.past.any fun e => e.op.entersTrace) ∧ ¬ act.past.any fun e => e.op.leavesTrace then
      [(id, .wrapper f)]
    else []
  | none => []

/-- The open calls of a stack, the latest first. -/
def openTraces (stack : List Frame) : List (Nat × Tracer) :=
  (codes stack).flatMap fun c => openTrace c.1 c.2

def LogPhase.isOpen (ph : LogPhase) : Bool := ph ≠ .fresh ∧ ph ≠ .left

section
variable {id : Nat} {f : Api} {ph ph' : LogPhase} {o : Op} {v : Word}

theorem LogStep.traces (h : LogStep f ph o v ph') :
    (ph' ≠ .fresh ↔ ph ≠ .fresh ∨ o.entersTrace = true) ∧
      (ph' = .left ↔ ph = .left ∨ o.leavesTrace = true) := by
  cases h with
  | quiet ho =>
    have hnone : o.entersTrace = false ∧ o.leavesTrace = false := by
      cases o <;> first | exact ⟨rfl, rfl⟩ | cases ho
    simp [hnone.1, hnone.2]
  | record hph => rcases hph with rfl | rfl <;> simp [Op.leavesTrace]
  | leave hph => rcases hph with rfl | rfl | rfl | rfl <;> simp [Op.leavesTrace]
  | _ => simp [Op.entersTrace, Op.leavesTrace]

theorem path_traces {es : List Event} (h : (logProtocol f).Path ph es ph') :
    (ph' ≠ .fresh ↔ ph ≠ .fresh ∨ es.any fun e => e.op.entersTrace) ∧
      (ph' = .left ↔ ph = .left ∨ es.any fun e => e.op.leavesTrace) := by
  induction h with
  | nil => simp
  | cons hs _ ih =>
    obtain ⟨hfresh, hleft⟩ := LogStep.traces hs
    rw [ih.1, ih.2, hfresh, hleft]
    simp [or_assoc]

theorem openTrace_of_path {act : Activation} (hf : act.entry.api = some f)
    (h : (logProtocol f).Path .fresh act.past ph) :
    openTrace id act = if ph.isOpen then [(id, .wrapper f)] else [] := by
  obtain ⟨hfresh, hleft⟩ := path_traces h
  simp only [ne_eq, not_true_eq_false, false_or, reduceCtorEq] at hfresh hleft
  simp only [openTrace, hf, ← hfresh, ← hleft]
  simp [LogPhase.isOpen]

/-- One event opens its call, closes it, or lets a p101_strlen open and close. -/
theorem scan_event {act : Activation} {e : Event} {pending : List (Nat × Tracer)}
    (hf : act.entry.api = some f) (hpath : (logProtocol f).Path .fresh act.past ph)
    (hs : LogStep f ph e.op e.answer ph') :
    scan (openTrace id act ++ pending) ((e.op.notes id).filterMap Note.bracket) =
      some (openTrace id (act.push e) ++ pending) := by
  have hpath' : (logProtocol f).Path .fresh (act.push e).past ph' := hpath.snoc hs
  have hold : openTrace id act = if ph.isOpen then [(id, .wrapper f)] else [] :=
    openTrace_of_path hf hpath
  have hnew : openTrace id (act.push e) = if ph'.isOpen then [(id, .wrapper f)] else [] :=
    openTrace_of_path hf hpath'
  rw [hold, hnew, brackets_notes]
  generalize e.op = o at hs
  generalize e.answer = w at hs
  cases hs with
  | @quiet _ o _ ho =>
    have hnone : o.brackets id = [] := by
      cases o <;> first | rfl | cases ho
    rw [hnone, scan_nil]
  | record hph => rcases hph with rfl | rfl <;> simp [Op.brackets, LogPhase.isOpen]
  | leave hph => rcases hph with rfl | rfl | rfl | rfl <;> simp [Op.brackets, LogPhase.isOpen]
  | _ => simp [Op.brackets, LogPhase.isOpen]

/-- A trampoline logs nothing. -/
theorem notes_trampolined (ho : o.trampolined = true) : o.notes id = [] := by
  cases o <;> first | rfl | cases ho

end

section
variable {π : Platform} {id : Nat} {act : Activation} {o : Op} {next : Word → Code Word}
  {now : Local} {e : Event} {pending : List (Nat × Tracer)}

theorem scan_sound (hs : act.Sound (system π) (.perform o next) now) (he : e.op = o) :
    scan (openTrace id act ++ pending) ((e.op.notes id).filterMap Note.bracket) =
      some (openTrace id (act.push e) ++ pending) := by
  cases hf : act.entry.api with
  | none =>
    have ho : o.trampolined = true := by
      have hallows := hs.follows.not_perform (act.entry.footprint π act.base)
      simpa [Call.allows, hf] using hallows
    rw [he, notes_trampolined ho]
    simp [openTrace, hf]
  | some f =>
    obtain ⟨ph, hpath, hk⟩ := (code_shape π act.base hf).logs.path hs.follows
    obtain ⟨ph', hstep, -⟩ := hk e.answer
    exact scan_event hf hpath (he ▸ hstep)

/-- A call that returns has logged its exit. -/
theorem openTrace_done {v : Word} (hs : act.Sound (system π) (.done v) now) :
    openTrace id act = [] := by
  cases hf : act.entry.api with
  | none => simp [openTrace, hf]
  | some f =>
    obtain ⟨ph, hpath, hk⟩ := (code_shape π act.base hf).logs.path hs.follows
    have hleft : ph = .left := hk
    rw [openTrace_of_path hf hpath, hleft]
    rfl

end

theorem stepped_scan {π : Platform} {fresh : Nat} {s s' : Shared} {th th' : Thread} {m : Move}
    {i : Item} (h : Effect.Thread.Stepped (system π) fresh s th m s' th' i)
    (hsound : StackSound (system π) th.loc th.stack) :
    scan (openTraces th.stack) (i.notes.filterMap Note.bracket) = some (openTraces th'.stack) := by
  cases h with
  | @call l s' g heard since below c base a hp he =>
    have hnew : openTrace fresh ⟨c, base, (disturb a s l).2, []⟩ = [] := by
      cases hc : c.api <;> simp [openTrace, hc]
    simp [Item.notes, openTraces, system, hnew]
  | invoke | act | backOutside | hand => simp [Item.notes, openTraces]
  | back => exact scan_sound hsound.2.1 rfl
  | op => exact scan_sound hsound.1 rfl
  | exit => simp [Item.notes, openTraces, openTrace_done hsound.1]

/-! ## Every run -/

section
variable {log : List (Nat × Item)} {t u : Nat} {i : Item}

theorem notes_append : notes (log ++ [(u, i)]) t = notes log t ++ if u = t then i.notes else [] := by
  simp [notes]

theorem brackets_append : brackets (log ++ [(u, i)]) t =
    brackets log t ++ if u = t then i.notes.filterMap Note.bracket else [] := by
  simp only [brackets, notes_append, List.filterMap_append]
  split <;> rfl

theorem notes_other {id j : Nat} {f : Api} {o : Op} (h : j ≠ id) :
    (o.notes j).filter (Note.concerns id f) = [] := by
  cases o <;> simp [Op.notes, Note.concerns, Note.id, h]

theorem note_id {id : Nat} {o : Op} {n : Note} (h : n ∈ o.notes id) : n.id = id := by
  cases o <;> simp only [Op.notes, List.mem_cons, List.not_mem_nil, or_false] at h <;>
    first | (subst h; rfl) | (rcases h with rfl | rfl <;> rfl)

/-- The notes of a call in the log are those of its events. -/
theorem filter_notes {id : Nat} {f : Api} :
    (notes log t).filter (Note.concerns id f) = contribution id f (eventsOf log t id) := by
  induction log using List.reverseRecOn with
  | nil => rfl
  | append_singleton log entry ih =>
    obtain ⟨u, i⟩ := entry
    rw [notes_append, List.filter_append, ih]
    cases i with
    | event j e =>
      rw [eventsOf_event]
      by_cases hu : u = t
      · by_cases hj : j = id
        · simp [hu, hj, Item.notes, contribution]
        · simp [hu, hj, Item.notes, notes_other hj]
      · simp [hu]
    | _ =>
      rw [eventsOf_quiet (by simp)]
      simp [Item.notes]

end

/-- The log of thread `t`: its brackets leave open just the calls that are running, a thread
that is back in its main program has a balanced log, and each call of a wrapper logs one
complete sequence of notes. -/
structure WellFormed (cfg : Config) (t : Nat) : Prop where
  nested : scan [] (brackets cfg.log t) = some (openTraces (cfg.threads t).stack)
  balanced : codes (cfg.threads t).stack = [] → Balanced (brackets cfg.log t)
  completed : ∀ id act v f, (t, .exit id act v) ∈ cfg.log → act.entry.api = some f →
    Complete id f ((notes cfg.log t).filter (Note.concerns id f))
  begun : ∀ id act f, cfg.Activated t id act → act.entry.api = some f →
    ∃ whole, (notes cfg.log t).filter (Note.concerns id f) <+: whole ∧ Complete id f whole
  owned : ∀ n ∈ notes cfg.log t, ∃ act f, cfg.Activated t n.id act ∧ act.entry.api = some f

section
variable {π : Platform} {legal : Config → Nat → Move → Prop} {heap : Word → Word} {cfg : Config}

theorem scan_of_reach (h : Effect.Config.Reach (system π) legal (startConfig heap) cfg) (t : Nat) :
    scan [] (brackets cfg.log t) = some (openTraces (cfg.threads t).stack) := by
  induction h with
  | init => rfl
  | @step cfg cfg' u m hr _ hs ih =>
    obtain ⟨s, th, i, hst, rfl⟩ := Config.stepped hs
    rw [brackets_append, scan_append ih]
    by_cases hu : u = t
    · subst hu
      simpa using stepped_scan hst (hr.accounted.sound u)
    · simp [hu, Function.update_of_ne (Ne.symm hu)]

/-- In every run, nested calls and other threads included, the instrumentation log is well
formed. -/
theorem log_well_formed (h : Effect.Config.Reach (system π) legal (startConfig heap) cfg) (t : Nat) :
    WellFormed cfg t where
  nested := scan_of_reach h t
  balanced := by
    intro hnone
    apply balanced_of_scan
    rw [scan_of_reach h t, openTraces, hnone]
    rfl
  completed := by
    intro id act v f hexit hf
    obtain ⟨now, hs⟩ := h.accounted.returned t id act v hexit
    obtain ⟨ph, hlogged, hk⟩ := logged_of_sound hs hf id
    obtain rfl : ph = .left := hk
    rw [filter_notes, h.eventsOf (.inr ⟨v, hexit⟩)]
    cases hlogged with
    | left hwhole => exact hwhole
  begun := by
    intro id act f hact hf
    obtain ⟨rest, now, hs⟩ := h.accounted.activation hact
    obtain ⟨ph, hlogged, -⟩ := logged_of_sound hs hf id
    rw [filter_notes, h.eventsOf hact]
    exact hlogged.completes
  owned := by
    intro n hn
    obtain ⟨⟨u, i⟩, hmem, hi⟩ := List.mem_flatMap.mp hn
    split at hi
    · next hu =>
      obtain rfl : u = t := hu
      cases i with
      | event id e =>
        obtain ⟨act, hact, he⟩ := h.accounted.happened u id e hmem
        obtain ⟨rest, now, hs⟩ := h.accounted.activation hact
        have hid : n.id = id := note_id hi
        cases hf : act.entry.api with
        | none =>
          have ho : e.op.trampolined = true := by
            have hallows := (hs.follows.avoids (act.entry.footprint π act.base)).1 e he
            simpa [Call.allows, hf] using hallows
          rw [Item.notes, notes_trampolined ho] at hi
          cases hi
        | some f => exact ⟨act, f, hid ▸ hact, hf⟩
      | _ => cases hi
    · cases hi

end

/-- A scandir whose selector calls realpath, and which then fails. -/
def selecting : List (Nat × Move) :=
  [(0, .call (.scandir 9 8 7 0) 0 calm₀)] ++ runs 0 3 ++
    [(0, .hand), (0, .invoke (.user 7 [6]) calm₀), (0, .call (.realpath 3 NULL) 0 calm₀)] ++
    runs 0 3 ++ answers 0 55 ++ runs 0 3 ++
    [(0, .exit), (0, .back 0 calm₀), (0, .back (-1) ⟨0, 13, []⟩)] ++ runs 0 3 ++ [(0, .exit)]

theorem log_well_formed_selecting :
    ∃ cfg, (startConfig fun _ => 0).run (system linux) (fun _ _ _ => True) selecting = some cfg ∧
      brackets cfg.log 0 = [.opens (0, .wrapper .scandir), .opens (6, .wrapper .realpath),
        .opens (6, .strlen), .closes (6, .strlen), .closes (6, .wrapper .realpath),
        .closes (0, .wrapper .scandir)] ∧ ∀ t, WellFormed cfg t := by
  have hrun : ((startConfig fun _ => 0).run (system linux) (fun _ _ _ => True) selecting).map
      (fun cfg => brackets cfg.log 0) =
      some [.opens (0, .wrapper .scandir), .opens (6, .wrapper .realpath), .opens (6, .strlen),
        .closes (6, .strlen), .closes (6, .wrapper .realpath), .closes (0, .wrapper .scandir)] := by
    decide +kernel
  obtain ⟨cfg, hcfg, hbrackets⟩ := Option.map_eq_some_iff.mp hrun
  exact ⟨cfg, hcfg, hbrackets, log_well_formed (Effect.Config.Reach.of_run .init hcfg)⟩

end P101Filesystem
