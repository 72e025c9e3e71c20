import P101Filesystem.Effect.Typestate
import P101Filesystem.Ledger.Concerns
import P101Filesystem.Ledger.Marks

/-!
# Phases of the directory wrappers

How far opendir, fdopendir, mkstemp and closedir have come between their native calls and
their records. Every other wrapper is idle throughout: it makes none of the four native
calls and none of the records.
-/
namespace P101Filesystem

open Effect Protocol

/-- A native call is over and its records are still to come in `opened`, `known`, `noted`,
`adopted`, `made`, `closed` and `unnoted`. -/
inductive DirectoryPhase where
  | idle
  | opendir | opened (p : Word) | known (p fd : Word) | noted (p : Word)
  | fdopendir | adopted (p : Word)
  | mkstemp | made (fd : Word)
  | closedir (p : Word) | asked (p fd : Word) | closed (p fd : Word) | unnoted (p : Word)
  deriving DecidableEq, Repr

/-- The native calls that hand out or take back what the ledger is about. -/
def Api.handles (f : Api) : Bool :=
  f = .opendir ∨ f = .fdopendir ∨ f = .mkstemp ∨ f = .closedir

def Op.directory : Op → Option (DirectoryKey × Bool)
  | .record r => r.directory
  | _ => none

inductive DirectoryStep (π : Platform) : DirectoryPhase → Op → Word → DirectoryPhase → Prop
  | inert {ph o v} : o.party = none → o.directory = none → DirectoryStep π ph o v ph
  | other {f args v} : f.handles = false → DirectoryStep π .idle (.native f args) v .idle
  | callback {fn args v} : DirectoryStep π .idle (.callback fn args) v .idle
  | openFailed {args} : DirectoryStep π .opendir (.native .opendir args) NULL .idle
  | «open» {args p} : p ≠ NULL → DirectoryStep π .opendir (.native .opendir args) p (.opened p)
  | ask {p fd} : 0 ≤ fd → DirectoryStep π (.opened p) (.native .dirfd [p]) fd (.known p fd)
  | askFailed {p fd} : fd < 0 → DirectoryStep π (.opened p) (.native .dirfd [p]) fd (.noted p)
  | noteDescriptor {p fd v} :
      DirectoryStep π (.known p fd) (.record (.openFd fd)) v (.noted p)
  | noteStream {p size label v} : DirectoryStep π (.noted p)
      (.record (.acquire .directoryStream (π.pointerResourceId p) size label)) v .idle
  | adoptFailed {fd} : DirectoryStep π .fdopendir (.native .fdopendir [fd]) NULL .idle
  | adopt {fd p} : p ≠ NULL →
      DirectoryStep π .fdopendir (.native .fdopendir [fd]) p (.adopted p)
  | noteAdopted {p size label v} : DirectoryStep π (.adopted p)
      (.record (.acquire .directoryStream (π.pointerResourceId p) size label)) v .idle
  | makeFailed {args} : DirectoryStep π .mkstemp (.native .mkstemp args) (-1) .idle
  | make {args fd} : fd ≠ -1 → DirectoryStep π .mkstemp (.native .mkstemp args) fd (.made fd)
  | noteMade {fd v} : DirectoryStep π (.made fd) (.record (.openFd fd)) v .idle
  | inquire {p fd} : DirectoryStep π (.closedir p) (.native .dirfd [p]) fd (.asked p fd)
  | closeFailed {p fd} : DirectoryStep π (.asked p fd) (.native .closedir [p]) (-1) .idle
  | close {p fd v} : v ≠ -1 → 0 ≤ fd →
      DirectoryStep π (.asked p fd) (.native .closedir [p]) v (.closed p fd)
  | closeUnknown {p fd v} : v ≠ -1 → fd < 0 →
      DirectoryStep π (.asked p fd) (.native .closedir [p]) v (.unnoted p)
  | noteClosed {p fd v} : DirectoryStep π (.closed p fd) (.record (.closeFd fd)) v (.unnoted p)
  | noteReleased {p v} : DirectoryStep π (.unnoted p)
      (.record (.release .directoryStream (π.pointerResourceId p))) v .idle

/-- A call may return before its first native call, on an injected fault, and when there
is nothing left to record. -/
def DirectoryPhase.Final : DirectoryPhase → Prop
  | .idle | .opendir | .fdopendir | .mkstemp | .closedir _ => True
  | _ => False

def directoryProtocol (π : Platform) : Protocol Op Word DirectoryPhase :=
  ⟨DirectoryStep π, fun ph _ => ph.Final⟩

def Call.directoryPhase : Call → DirectoryPhase
  | .opendir _ => .opendir
  | .fdopendir _ => .fdopendir
  | .mkstemp _ => .mkstemp
  | .closedir p => .closedir p
  | _ => .idle

variable {π : Platform}

theorem directory_concerns (π : Platform) :
    Concerns (directoryProtocol π) .idle Api.handles where
  routine := by
    intro ph o v ho
    cases o with
    | native | callback | load | record => cases ho
    | _ => exact .inert rfl rfl
  load := .inert rfl rfl
  callback := .callback
  native := .other
  record := by
    intro f r v hf hr
    simp only [Api.handles, decide_eq_false_iff_not, not_or] at hf
    refine .inert rfl ?_
    cases r with
    | openFd | closeFd => simp [Record.madeBy, hf] at hr
    | alloc => rfl
    | acquire cls | release cls =>
      cases cls with
      | directoryStream => simp [Record.madeBy, hf] at hr
      | globResult => rfl
  final := trivial
  dirfd := rfl

theorem opendir_keeps (dirname : Word) :
    (directoryProtocol π).Keeps .opendir (p101Opendir π dirname) := by
  have hd := directory_concerns π
  rw [p101Opendir_eq]
  refine hd.guarded (fun _ => trivial) (hd.pass rfl fun _ => fun p => ?_)
  by_cases hp : p = NULL
  · subst hp
    refine ⟨.idle, .openFailed, ?_⟩
    simp only [if_true]
    exact hd.failing trivial
  · refine ⟨.opened p, .open hp, ?_⟩
    simp only [hp, if_false]
    intro fd
    by_cases hfd : fd ≥ 0
    · refine ⟨.known p fd, .ask hfd, ?_⟩
      simp only [hfd, if_true]
      refine keeps_step (fun _ => .noted p) (fun _ => .noteDescriptor) fun _ => ?_
      exact keeps_step (fun _ => .idle) (fun _ => .noteStream) fun _ => hd.exiting trivial
    · refine ⟨.noted p, .askFailed (Int.not_le.mp hfd), ?_⟩
      simp only [hfd, if_false]
      exact keeps_step (fun _ => .idle) (fun _ => .noteStream) fun _ => hd.exiting trivial

theorem fdopendir_keeps (fd : Word) :
    (directoryProtocol π).Keeps .fdopendir (p101Fdopendir π fd) := by
  have hd := directory_concerns π
  rw [p101Fdopendir_eq]
  refine hd.guarded (fun _ => trivial) (hd.pass rfl fun _ => fun p => ?_)
  by_cases hp : p = NULL
  · subst hp
    refine ⟨.idle, .adoptFailed, ?_⟩
    simp only [if_true]
    exact hd.pass rfl fun _ => keeps_ite (hd.failing trivial) (hd.exiting trivial)
  · refine ⟨.adopted p, .adopt hp, ?_⟩
    simp only [hp, if_false]
    exact keeps_step (fun _ => .idle) (fun _ => .noteAdopted) fun _ => hd.exiting trivial

theorem mkstemp_keeps (nameTemplate : Word) :
    (directoryProtocol π).Keeps .mkstemp (p101Mkstemp nameTemplate) := by
  have hd := directory_concerns π
  rw [p101Mkstemp_normal]
  refine hd.guarded (fun _ => trivial) (hd.pass rfl fun _ => fun fd => ?_)
  by_cases hfd : fd = -1
  · subst hfd
    refine ⟨.idle, .makeFailed, ?_⟩
    simp only [if_true]
    exact hd.failing trivial
  · refine ⟨.made fd, .make hfd, ?_⟩
    simp only [hfd, if_false]
    exact keeps_step (fun _ => .idle) (fun _ => .noteMade) fun _ => hd.exiting trivial

theorem closedir_keeps (dirp : Word) :
    (directoryProtocol π).Keeps (.closedir dirp) (p101Closedir π dirp) := by
  have hd := directory_concerns π
  have released : ∀ v, (directoryProtocol π).Keeps (.unnoted dirp) (.perform
      (.record (.release .directoryStream (π.pointerResourceId dirp))) fun _ =>
        exiting .closedir v) := fun v =>
    keeps_step (fun _ => .idle) (fun _ => .noteReleased) fun _ => hd.exiting trivial
  rw [p101Closedir_eq]
  refine hd.guarded (fun _ => trivial) ?_
  refine keeps_step (.asked dirp) (fun _ => .inquire) fun fd => hd.pass rfl fun _ => ?_
  intro v
  by_cases hv : v = -1
  · subst hv
    refine ⟨.idle, .closeFailed, ?_⟩
    simp only [if_true]
    exact hd.failing trivial
  · by_cases hfd : fd ≥ 0
    · refine ⟨.closed dirp fd, .close hv hfd, ?_⟩
      simp only [hv, hfd, if_true, if_false]
      exact keeps_step (fun _ => .unnoted dirp) (fun _ => .noteClosed) fun _ => released v
    · refine ⟨.unnoted dirp, .closeUnknown hv (Int.not_le.mp hfd), ?_⟩
      simp only [hv, hfd, if_false]
      exact released v

theorem directory_keeps (c : Call) (b : Word) :
    (directoryProtocol π).Keeps c.directoryPhase (c.code π b) := by
  cases c with
  | opendir => exact opendir_keeps _
  | fdopendir => exact fdopendir_keeps _
  | mkstemp => exact mkstemp_keeps _
  | closedir => exact closedir_keeps _
  | _ => exact (directory_concerns π).code (fun f hf => by cases hf <;> rfl) b

def directoryTypestate (π : Platform) : Typestate (system π) DirectoryPhase where
  protocol := directoryProtocol π
  idle := .idle
  first := fun c _ => c.directoryPhase
  reentrant := Party.reentrant
  keeps := directory_keeps
  permits := reentrant_of_permits
  invokes := reentrant_of_invokes
  acts := reentrant_of_acts
  hands := by
    intro ph o v ph' g hs hp hg
    cases hs with
    | inert hn => exact absurd (hn.symm.trans hp) (by simp)
    | other | callback => rfl
    | noteDescriptor | noteStream | noteAdopted | noteMade | noteClosed | noteReleased => cases hp
    | _ =>
      obtain rfl := Option.some.inj hp
      simp [Party.reentrant] at hg

end P101Filesystem
