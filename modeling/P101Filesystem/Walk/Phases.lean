import P101Filesystem.Source.Footprint
import P101Filesystem.Effect.Protocol
import P101Filesystem.Walk.Code

/-!
# Phases of a call

How far a call has come with its context: a walk fills it in, links it by setting the
pointer, runs its native walk and unlinks it; a trampoline reads the pointer, looks the
callback up and may mark the context. No other wrapper touches a context.
-/
namespace P101Filesystem

open Effect

/-- The argument is the pointer the call has read: `previous` for a walk, the context for
a trampoline. -/
inductive Phase where
  | plain
  | entered | named | cleared | found (p : Word) | saved | linked | restoring (p : Word) | unlinked
  | looking | holding (p : Word) | calling (p : Word) | answered (p : Word)
  deriving DecidableEq, Repr

inductive Role where
  | walk (k : Kind) (fn : Word)
  | trampoline (k : Kind)
  | plain
  deriving DecidableEq, Repr

def Call.role : Call → Role
  | .ftw _ fn _ => .walk .ftw fn
  | .nftw _ fn _ _ => .walk .nftw fn
  | .callFtwCallback _ _ _ => .trampoline .ftw
  | .callNftwCallback _ _ _ _ => .trampoline .nftw
  | _ => .plain

/-- Operations that involve neither contexts nor outside parties. -/
def Op.inert : Op → Bool
  | .native _ _ | .callback _ _ | .getActive _ | .setActive _ _ | .loadField _ _ _
  | .storeField _ _ _ _ => false
  | _ => true

/-- The steps of a walk with callback `fn` whose context is at `b`. -/
inductive WalkStep (k : Kind) (fn b : Word) : Phase → Op → Word → Phase → Prop
  | inert {ph o v} : o.inert = true → WalkStep k fn b ph o v ph
  | name {v} : WalkStep k fn b .entered (.storeField k b .callback fn) v .named
  | clear {u v} : WalkStep k fn b .named (.storeField k b .stopped u) v .cleared
  | find {q} : WalkStep k fn b .cleared (.getActive k) q (.found q)
  | save {q v} : WalkStep k fn b (.found q) (.storeField k b .previous q) v .saved
  | link {v} : WalkStep k fn b .saved (.setActive k b) v .linked
  | run {args v} : WalkStep k fn b .linked (.native k.api args) v .linked
  | fetch {q} : WalkStep k fn b .linked (.loadField k b .previous) q (.restoring q)
  | unlink {q v} : WalkStep k fn b (.restoring q) (.setActive k q) v .unlinked
  | check {v} : WalkStep k fn b .unlinked (.loadField k b .stopped) v .unlinked

inductive TrampolineStep (k : Kind) : Phase → Op → Word → Phase → Prop
  | look {p} : TrampolineStep k .looking (.getActive k) p (.holding p)
  | fetch {p v} : TrampolineStep k (.holding p) (.loadField k p .callback) v (.calling p)
  | call {p fn args v} : TrampolineStep k (.calling p) (.callback fn args) v (.answered p)
  | mark {p u v} : TrampolineStep k (.answered p) (.storeField k p .stopped u) v (.answered p)

inductive PlainStep : Phase → Op → Word → Phase → Prop
  | inert {o v} : o.inert = true → PlainStep .plain o v .plain
  | native {f args v} : f ≠ .ftw → f ≠ .nftw → PlainStep .plain (.native f args) v .plain

def Role.Step (b : Word) : Role → Phase → Op → Word → Phase → Prop
  | .walk k fn => WalkStep k fn b
  | .trampoline k => TrampolineStep k
  | .plain => PlainStep

def Role.first : Role → Phase
  | .walk _ _ => .entered
  | .trampoline _ => .looking
  | .plain => .plain

/-- A walk returns before it has touched its context, or after it has unlinked it. -/
def Role.Final : Role → Phase → Prop
  | .walk _ _, ph => ph = .entered ∨ ph = .unlinked
  | .trampoline _, _ => True
  | .plain, _ => True

def Role.protocol (b : Word) (r : Role) : Protocol Op Word Phase :=
  ⟨r.Step b, fun ph _ => r.Final ph⟩

open Protocol in
theorem walkTail_keeps (π : Platform) (k : Kind) (fn b retVal : Word) :
    ((Role.walk k fn).protocol b).Keeps .linked (walkTail π k b retVal) := by
  have exits : ((Role.walk k fn).protocol b).Keeps .unlinked
      (.perform (.traceExit k.api) fun _ => (.done retVal : Code Word)) :=
    keeps_step (fun _ => .unlinked) (fun _ => .inert rfl) fun _ => .inr rfl
  rw [walkTail_eq]
  refine keeps_step (fun _ => .linked) (fun _ => .inert rfl) fun savedErrno => ?_
  refine keeps_step .restoring (fun _ => .fetch) fun previous => ?_
  refine keeps_step (fun _ => .unlinked) (fun _ => .unlink) fun _ => ?_
  refine keeps_ite (keeps_step (fun _ => .unlinked) (fun _ => .check) fun stopped => ?_) exits
  exact keeps_ite (keeps_step (fun _ => .unlinked) (fun _ => .inert rfl) fun _ => exits) exits

open Protocol in
theorem walk_keeps (π : Platform) (k : Kind) (path fn limit : Word) (args : List Word) (b : Word) :
    ((Role.walk k fn).protocol b).Keeps .entered (walk π k path fn limit args b) := by
  have exits : ((Role.walk k fn).protocol b).Keeps .entered
      (.perform (.traceExit k.api) fun _ => (.done (-1) : Code Word)) :=
    keeps_step (fun _ => .entered) (fun _ => .inert rfl) fun _ => .inl rfl
  rw [walk_eq]
  refine keeps_step (fun _ => .entered) (fun _ => .inert rfl) fun _ => ?_
  refine keeps_step (fun _ => .entered) (fun _ => .inert rfl) fun fault => ?_
  refine keeps_ite (keeps_step (fun _ => .entered) (fun _ => .inert rfl) fun _ => exits) ?_
  refine keeps_ite (keeps_step (fun _ => .entered) (fun _ => .inert rfl) fun _ => exits) ?_
  refine keeps_step (fun _ => .named) (fun _ => .name) fun _ => ?_
  refine keeps_step (fun _ => .cleared) (fun _ => .clear) fun _ => ?_
  refine keeps_step .found (fun _ => .find) fun previous => ?_
  refine keeps_step (fun _ => .saved) (fun _ => .save) fun _ => ?_
  refine keeps_step (fun _ => .linked) (fun _ => .link) fun _ => ?_
  refine keeps_step (fun _ => .linked) (fun _ => .inert rfl) fun _ => ?_
  exact keeps_step (fun _ => .linked) (fun _ => .run) fun retVal => walkTail_keeps π k fn b retVal

open Protocol in
theorem trampoline_keeps (k : Kind) (args : List Word) (b : Word) :
    ((Role.trampoline k).protocol b).Keeps .looking (trampoline k args) := by
  rw [trampoline_eq]
  refine keeps_step .holding (fun _ => .look) fun context => ?_
  refine keeps_step (fun _ => .calling context) (fun _ => .fetch) fun callback => ?_
  refine keeps_step (fun _ => .answered context) (fun _ => .call) fun result => ?_
  rw [trampolineTail_eq]
  exact keeps_ite (keeps_step (fun _ => .answered context) (fun _ => .mark) fun _ => trivial) trivial

/-- A wrapper that is no walk has no use for contexts. -/
theorem plain_keeps {f : Api} (hf : f ≠ .ftw ∧ f ≠ .nftw) {p : Code Word}
    (hp : p.Avoids (Outside f)) (b : Word) : (Role.plain.protocol b).Keeps .plain p := by
  refine Protocol.keeps_of_avoids hp (fun o v ho => ?_) fun _ => trivial
  obtain ⟨h1, h2⟩ := hf
  cases o with
  | native g args =>
    refine .native ?_ ?_
    · rintro rfl
      simp [Outside, Op.footprint, Ne.symm h1] at ho
    · rintro rfl
      simp [Outside, Op.footprint, Ne.symm h2] at ho
  | callback | getActive | setActive | loadField | storeField =>
    simp [Outside, Op.footprint, h1, h2] at ho
  | traceEntry | traceExit | checkFault | raise | getErrno | setErrno | strlen | load | record =>
    exact .inert rfl

theorem api_of_plain {c : Call} (h : c.role = .plain) :
    ∃ f, c.api = some f ∧ f ≠ .ftw ∧ f ≠ .nftw := by
  cases c with
  | ftw | nftw | callFtwCallback | callNftwCallback => cases h
  | _ => exact ⟨_, rfl, by decide, by decide⟩

/-- Every call keeps to the protocol of its role. -/
theorem code_keeps (π : Platform) (c : Call) (b : Word) :
    (c.role.protocol b).Keeps c.role.first (c.code π b) := by
  cases hr : c.role with
  | walk k fn =>
    cases c with
    | ftw path fn' ndirs =>
      cases hr
      exact walk_keeps π .ftw _ _ _ _ _
    | nftw path fn' fdLimit flags =>
      cases hr
      exact walk_keeps π .nftw _ _ _ _ _
    | _ => cases hr
  | trampoline k =>
    cases c with
    | callFtwCallback path status type =>
      cases hr
      exact trampoline_keeps .ftw _ _
    | callNftwCallback path status type walk =>
      cases hr
      exact trampoline_keeps .nftw _ _
    | _ => cases hr
  | plain =>
    obtain ⟨f, hf, hne⟩ := api_of_plain hr
    exact plain_keeps hne (code_shape π b hf).footprint b

end P101Filesystem
