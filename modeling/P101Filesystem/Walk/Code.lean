import P101Filesystem.Source.Readings
import P101Filesystem.Effect.Settle

/-!
# The stretches of walk code

A walk wrapper runs from its entry to the native walk, and from the native walk's return
to its own; a trampoline runs up to the user's callback and from there on. Each stretch
gets one specification.
-/
namespace P101Filesystem

open Effect

variable (π : Platform)

/-- What a walk wrapper does once the native walk has returned. -/
def walkTail (k : Kind) (context retVal : Word) : Code Word := do
  let savedErrno ← errno
  let previous ← loadField k context .previous
  setActive k previous
  when (retVal = -1) do
    let stopped ← loadField k context .stopped
    when (stopped = 0) (raiseErrno (if savedErrno = 0 then π.eio else savedErrno))
  traceExit k.api
  pure retVal

theorem walk_eq (k : Kind) (path fn limit : Word) (args : List Word) (context : Word) :
    walk π k path fn limit args context =
      .perform (.traceEntry k.api) fun _ => .perform (.checkFault k.api) fun fault =>
        if fault ≠ 0 then .perform (.raise .errno none fault) fun _ =>
          .perform (.traceExit k.api) fun _ => .done (-1)
        else if path = NULL ∨ fn = NULL ∨ limit < 1 then
          .perform (.raise .errno none π.einval) fun _ =>
          .perform (.traceExit k.api) fun _ => .done (-1)
        else .perform (.storeField k context .callback fn) fun _ =>
          .perform (.storeField k context .stopped 0) fun _ =>
          .perform (.getActive k) fun previous =>
          .perform (.storeField k context .previous previous) fun _ =>
          .perform (.setActive k context) fun _ =>
          .perform (.setErrno 0) fun _ =>
          .perform (.native k.api args) (walkTail π k context) := by
  simp only [walk, wrapper, faultReturn, trace, traceExit, checkFault, raiseErrno, storeField,
    getActive, setActive, setErrno, native, Program.bind_def, Program.pure_def, act_bind,
    Program.op_bind, Program.ite_bind, Program.bind_assoc, Program.done_bind,
    Program.perform_bind]
  rfl

theorem walkTail_eq (k : Kind) (context retVal : Word) :
    walkTail π k context retVal =
      .perform .getErrno fun savedErrno =>
      .perform (.loadField k context .previous) fun previous =>
      .perform (.setActive k previous) fun _ =>
        if retVal = -1 then .perform (.loadField k context .stopped) fun stopped =>
          if stopped = 0 then
            .perform (.raise .errno none (if savedErrno = 0 then π.eio else savedErrno)) fun _ =>
            .perform (.traceExit k.api) fun _ => .done retVal
          else .perform (.traceExit k.api) fun _ => .done retVal
        else .perform (.traceExit k.api) fun _ => .done retVal := by
  simp [walkTail, errno, loadField, setActive, when, raiseErrno, traceExit]

/-- What a trampoline does once the user's callback has returned. -/
def trampolineTail (k : Kind) (context result : Word) : Code Word := do
  when (result ≠ 0) (storeField k context .stopped 1)
  pure result

theorem trampoline_eq (k : Kind) (args : List Word) :
    trampoline k args =
      .perform (.getActive k) fun context =>
      .perform (.loadField k context .callback) fun callback =>
      .perform (.callback callback args) (trampolineTail k context) := rfl

theorem trampolineTail_eq (k : Kind) (context result : Word) :
    trampolineTail k context result =
      if result ≠ 0 then .perform (.storeField k context .stopped 1) fun _ => .done result
      else .done result := by
  simp [trampolineTail, when, storeField]

/-! ## Contexts in memory -/

theorem Shared.context_eq_some {s : Shared} {k : Kind} {p : Word} {c : Context} :
    s.context k p = some c ↔ s.cells p = some c ∧ c.kind = k := by
  simp [Shared.context, Option.filter_eq_some_iff]

@[simp] theorem Shared.put_put (s : Shared) (p : Word) (c d : Option Context) :
    (s.put p c).put p d = s.put p d := by
  simp [Shared.put]

@[simp] theorem Shared.context_put_same (s : Shared) (k : Kind) (p : Word) (c : Context) :
    (s.put p (some c)).context k p = if c.kind = k then some c else none := by
  simp [Shared.context, Option.filter]

/-! ## Rules for the operations on contexts -/

section
variable {π} {adm : Op → Answer → Prop}
  {Q : Effect.Halt Op Word Party → Shared → Local → List Event → Prop}
  {s : Shared} {l : Local} {es : List Event} {next : Word → Code Word}

theorem wp_storeField {k : Kind} {p v : Word} {f : Field} {c : Context}
    (hc : s.context k p = some c)
    (h : (system π).wp adm Q (next 0) (s.put p (some (c.set v f))) l
      (es ++ [⟨.storeField k p f v, [], 0, l, l⟩])) :
    (system π).wp adm Q (.perform (.storeField k p f v) next) s l es :=
  System.wp_det (r := (0, s.put p (some (c.set v f)), l)) rfl
    (fun _ => by simp [system, Op.run, hc]) h

theorem wp_loadField {k : Kind} {p : Word} {f : Field} {c : Context}
    (hc : s.context k p = some c)
    (h : (system π).wp adm Q (next (c.get f)) s l (es ++ [⟨.loadField k p f, [], c.get f, l, l⟩])) :
    (system π).wp adm Q (.perform (.loadField k p f) next) s l es :=
  System.wp_det (r := (c.get f, s, l)) rfl (fun _ => by simp [system, Op.run, hc]) h

theorem wp_getActive {k : Kind}
    (h : (system π).wp adm Q (next (l.active k)) s l (es ++ [⟨.getActive k, [], l.active k, l, l⟩])) :
    (system π).wp adm Q (.perform (.getActive k) next) s l es :=
  System.wp_det (r := (l.active k, s, l)) rfl (fun _ => rfl) h

theorem wp_setActive {k : Kind} {p : Word}
    (h : (system π).wp adm Q (next 0) s { l with active := Function.update l.active k p }
      (es ++ [⟨.setActive k p, [], 0, l, { l with active := Function.update l.active k p }⟩])) :
    (system π).wp adm Q (.perform (.setActive k p) next) s l es :=
  System.wp_det (r := (0, s, { l with active := Function.update l.active k p })) rfl
    (fun _ => rfl) h

theorem wp_getErrno
    (h : (system π).wp adm Q (next l.errno) s l (es ++ [⟨.getErrno, [], l.errno, l, l⟩])) :
    (system π).wp adm Q (.perform .getErrno next) s l es :=
  System.wp_det (r := (l.errno, s, l)) rfl (fun _ => rfl) h

theorem wp_setErrno {e : Word}
    (h : (system π).wp adm Q (next 0) s { l with errno := e }
      (es ++ [⟨.setErrno e, [], 0, l, { l with errno := e }⟩])) :
    (system π).wp adm Q (.perform (.setErrno e) next) s l es :=
  System.wp_det (r := (0, s, { l with errno := e })) rfl (fun _ => rfl) h

theorem wp_raise {d : Domain} {m : Option String} {code : Word}
    (h : (system π).wp adm Q (next 0) s l (es ++ [⟨.raise d m code, [], 0, l, l⟩])) :
    (system π).wp adm Q (.perform (.raise d m code) next) s l es :=
  System.wp_det (r := (0, s, l)) rfl (fun _ => rfl) h

theorem wp_traceExit {f : Api}
    (h : ∀ e, (system π).wp adm Q (next 0) s { l with errno := e }
      (es ++ [⟨.traceExit f, [], 0, l, { l with errno := e }⟩])) :
    (system π).wp adm Q (.perform (.traceExit f) next) s l es :=
  (System.wp_run rfl).mpr fun a _ => ⟨(0, s, { l with errno := a.errno }), rfl, h a.errno⟩

theorem wp_traceEntry {f : Api}
    (h : ∀ e, (system π).wp adm Q (next 0) s { l with errno := e }
      (es ++ [⟨.traceEntry f, [], 0, l, { l with errno := e }⟩])) :
    (system π).wp adm Q (.perform (.traceEntry f) next) s l es :=
  (System.wp_run rfl).mpr fun a _ => ⟨(0, s, { l with errno := a.errno }), rfl, h a.errno⟩

end

/-! ## The stretches -/

/-- What a stretch of walk code does besides the accesses to its context: it consults the
injector, and raises; native calls and callbacks end it. -/
structure Stretch (es : List Event) (faults : List (Api × Word)) (codes : List Word) : Prop where
  consulted : consulted es = faults
  natives : natives es = []
  callbacks : callbacks es = []
  raised : raised es = codes.map fun code => (.errno, code)

/-- Where a walk wrapper halts after it is entered: it was faulted, its arguments were
rejected, or its native walk starts under a context of its own. -/
inductive Started (adm : Op → Answer → Prop) (k : Kind) (path fn limit : Word) (args : List Word)
    (context : Word) (s : Shared) (l : Local) :
    Effect.Halt Op Word Party → Shared → Local → List Event → Prop
  | faulted {a e es} : adm (.checkFault k.api) a → a.word ≠ 0 →
      Stretch es [(k.api, a.word)] [a.word] →
      Started adm k path fn limit args context s l (.returns (-1)) s ⟨e, l.active⟩ es
  | rejected {e es} : (path = NULL ∨ fn = NULL ∨ limit < 1) →
      Stretch es [(k.api, 0)] [π.einval] →
      Started adm k path fn limit args context s l (.returns (-1)) s ⟨e, l.active⟩ es
  | running {es} : ¬ (path = NULL ∨ fn = NULL ∨ limit < 1) → Stretch es [(k.api, 0)] [] →
      Started adm k path fn limit args context s l
        (.hands (.native k.api args) (.native k.api args) (walkTail π k context))
        (s.put context (some ⟨k, fn, 0, l.active k⟩))
        ⟨0, Function.update l.active k context⟩ es

theorem wp_walk (adm : Op → Answer → Prop) (k : Kind) (path fn limit : Word) (args : List Word)
    (context : Word) (s : Shared) (l : Local) {c : Context} (hc : s.context k context = some c) :
    (system π).wp adm (Started π adm k path fn limit args context s l)
      (walk π k path fn limit args context) s l [] := by
  obtain ⟨hcell, hkind⟩ := Shared.context_eq_some.mp hc
  rw [walk_eq]
  refine wp_traceEntry fun _ => ?_
  refine (System.wp_run rfl).mpr fun a ha => ⟨_, rfl, ?_⟩
  dsimp only
  split
  · next hf =>
    refine wp_raise (wp_traceExit fun _ => ?_)
    refine .faulted ha hf ?_
    constructor <;> simp [faultOf, nativeOf, callbackOf, raiseOf]
  · next hf =>
    have ha0 : a.word = 0 := by simpa using hf
    split
    · next hr =>
      refine wp_raise (wp_traceExit fun _ => ?_)
      refine .rejected hr ?_
      constructor <;> simp [faultOf, nativeOf, callbackOf, raiseOf, ha0]
    · next hr =>
      refine wp_storeField hc (wp_storeField (c := c.set fn .callback) (by simp [hkind]) ?_)
      refine wp_getActive (wp_storeField (c := (c.set fn .callback).set 0 .stopped)
        (by simp [hkind]) ?_)
      refine wp_setActive (wp_setErrno ((System.wp_hands rfl).mpr ?_))
      have hput : ((s.put context (some (c.set fn .callback))).put context
          (some ((c.set fn .callback).set 0 .stopped))).put context
          (some (((c.set fn .callback).set 0 .stopped).set (l.active k) .previous)) =
          s.put context (some ⟨k, fn, 0, l.active k⟩) := by
        simp [Context.set, hkind]
      dsimp only
      rw [hput]
      refine .running hr ?_
      constructor <;> simp [faultOf, nativeOf, callbackOf, raiseOf, ha0]

/-- What a walk wrapper raises for a native walk that returned `retVal` and left `e`. -/
def walkRaises (retVal stopped e : Word) : List Word :=
  if retVal = -1 ∧ stopped = 0 then [if e = 0 then π.eio else e] else []

/-- The walk wrapper's last stretch: it puts the pointer back, and raises when its own
native walk failed without any callback having stopped it. -/
theorem wp_walkTail (adm : Op → Answer → Prop) (k : Kind) (context retVal : Word) (s : Shared)
    (l : Local) {c : Context} (hc : s.context k context = some c) :
    (system π).wp adm (fun h s' l' es => h = .returns retVal ∧ s' = s ∧
        l'.active = Function.update l.active k c.previous ∧
        Stretch es [] (walkRaises π retVal c.stopped l.errno))
      (walkTail π k context retVal) s l [] := by
  rw [walkTail_eq]
  refine wp_getErrno (wp_loadField hc (wp_setActive ?_))
  split
  · next hr =>
    refine wp_loadField hc ?_
    split
    · next hs =>
      have hs : c.stopped = 0 := hs
      refine wp_raise (wp_traceExit fun _ => ⟨rfl, rfl, rfl, ?_⟩)
      constructor <;>
        simp [walkRaises, hr, hs, Context.get, faultOf, nativeOf, callbackOf, raiseOf]
    · next hs =>
      have hs : ¬ c.stopped = 0 := hs
      refine wp_traceExit fun _ => ⟨rfl, rfl, rfl, ?_⟩
      constructor <;> simp [walkRaises, hs, Context.get, faultOf, nativeOf, callbackOf, raiseOf]
  · next hr =>
    refine wp_traceExit fun _ => ⟨rfl, rfl, rfl, ?_⟩
    constructor <;> simp [walkRaises, hr, Context.get, faultOf, nativeOf, callbackOf, raiseOf]

/-- A trampoline looks the callback up in the context the pointer names. -/
theorem wp_trampoline (adm : Op → Answer → Prop) (k : Kind) (args : List Word) (s : Shared)
    (l : Local) {c : Context} (hc : s.context k (l.active k) = some c) :
    (system π).wp adm (fun h s' l' es => s' = s ∧ l' = l ∧
        h = .hands (.callback c.callback args) (.user c.callback args)
          (trampolineTail k (l.active k)) ∧ Stretch es [] [])
      (trampoline k args) s l [] := by
  rw [trampoline_eq]
  refine wp_getActive (wp_loadField hc ((System.wp_hands rfl).mpr ⟨rfl, rfl, rfl, ?_⟩))
  constructor <;> simp [Context.get, faultOf, nativeOf, callbackOf, raiseOf]

/-- The context after a callback returned `result`. -/
def Context.answered (c : Context) (result : Word) : Context :=
  if result = 0 then c else { c with stopped := 1 }

theorem wp_trampolineTail (adm : Op → Answer → Prop) (k : Kind) (context result : Word)
    (s : Shared) (l : Local) {c : Context} (hc : s.context k context = some c) :
    (system π).wp adm (fun h s' l' es => h = .returns result ∧ l' = l ∧
        s' = s.put context (some (c.answered result)) ∧ Stretch es [] [])
      (trampolineTail k context result) s l [] := by
  rw [trampolineTail_eq]
  split
  · next hr =>
    refine wp_storeField hc ⟨rfl, rfl, by simp [Context.answered, Context.set, hr], ?_⟩
    constructor <;> simp [faultOf, nativeOf, callbackOf, raiseOf]
  · next hr =>
    have hr : result = 0 := by simpa using hr
    refine ⟨by rw [hr], rfl, ?_, ?_⟩
    · rw [Context.answered, if_pos hr, ← (Shared.context_eq_some.mp hc).1]
      simp [Shared.put]
    · constructor <;> rfl

end P101Filesystem
