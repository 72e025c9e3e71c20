import P101Filesystem.Source.Footprint
import P101Filesystem.Source.Normal
import P101Filesystem.Effect.Protocol

/-!
# What a ledger is about

A ledger follows some of the wrappers from their native calls to their records. The others
have nothing to record in it, and tracing, the injector and errors do not concern it.
-/
namespace P101Filesystem

open Effect Protocol

/-- Tracing, the injector, the error object, errno and the contexts of walks. -/
def Op.routine : Op → Bool
  | .native _ _ | .callback _ _ | .load _ | .record _ => false
  | _ => true

variable {Ph : Type} {pr : Protocol Op Word Ph} {idle ph : Ph} {about : Api → Bool} {π : Platform}

/-- The protocol is about the wrappers of `about`: whatever another one does, it is idle. -/
structure Concerns (pr : Protocol Op Word Ph) (idle : Ph) (about : Api → Bool) : Prop where
  routine : ∀ {ph o v}, o.routine = true → pr.next ph o v ph
  load : ∀ {p v}, pr.next idle (.load p) v idle
  callback : ∀ {fn args v}, pr.next idle (.callback fn args) v idle
  native : ∀ {f args v}, about f = false → pr.next idle (.native f args) v idle
  record : ∀ {f r v}, about f = false → r.madeBy f = true → pr.next idle (.record r) v idle
  final : ∀ {v}, pr.final idle v
  dirfd : about .dirfd = false

namespace Concerns

theorem pass (h : Concerns pr idle about) {o : Op} {next : Word → Code Word}
    (ho : o.routine = true) (hn : ∀ v, pr.Keeps ph (next v)) : pr.Keeps ph (.perform o next) :=
  keeps_step (fun _ => ph) (fun _ => h.routine ho) hn

theorem exiting (h : Concerns pr idle about) {f : Api} {v : Word} (hf : pr.final ph v) :
    pr.Keeps ph (exiting f v) :=
  h.pass rfl fun _ => hf

theorem failing (h : Concerns pr idle about) {f : Api} {v : Word} (hf : pr.final ph v) :
    pr.Keeps ph (failing f v) :=
  h.pass rfl fun _ => h.pass rfl fun _ => h.exiting hf

/-- A call may be over before its body. -/
theorem guarded (h : Concerns pr idle about) {f : Api} {domain : Domain} {failure : Word → Word}
    {body : Code Word} (hf : ∀ v, pr.final ph v) (hb : pr.Keeps ph body) :
    pr.Keeps ph (guarded f domain failure body) := by
  refine h.pass rfl fun _ => h.pass rfl fun fault => keeps_ite ?_ hb
  exact h.pass rfl fun _ => h.exiting (hf _)

theorem other_step (h : Concerns pr idle about) {c : Call} {f : Api} {o : Op} {v : Word}
    (hc : c.api = some f) (hf : about f = false) (ho : c.allows o) : pr.next idle o v idle := by
  simp only [Call.allows, hc] at ho
  cases o with
  | native g args =>
    simp only [Op.footprint, decide_eq_true_eq] at ho
    rcases ho with rfl | ⟨rfl, -⟩
    · exact h.native hf
    · exact h.native h.dirfd
  | callback => exact h.callback
  | load => exact h.load
  | record r => exact h.record hf ho
  | _ => exact h.routine rfl

theorem trampoline_step (h : Concerns pr idle about) {o : Op} {v : Word}
    (ho : o.trampolined = true) : pr.next idle o v idle := by
  cases o with
  | callback => exact h.callback
  | getActive | loadField | storeField => exact h.routine rfl
  | _ => cases ho

/-- The trampolines and the wrappers that the protocol is not about stay idle. -/
theorem code (h : Concerns pr idle about) {c : Call} (hc : ∀ f ∈ c.api, about f = false)
    (b : Word) : pr.Keeps idle (c.code π b) := by
  refine keeps_of_avoids (Call.footprint π b c) (fun o v ho => ?_) fun _ => h.final
  have hallows : c.allows o := not_not.mp ho
  cases hapi : c.api with
  | some f => exact h.other_step hapi (hc f hapi) hallows
  | none =>
    rw [Call.allows, hapi] at hallows
    exact h.trampoline_step hallows

end Concerns

end P101Filesystem
