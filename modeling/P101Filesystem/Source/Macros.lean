import P101Filesystem.Source.Operations

/-!
# The wrapper macros and the common wrapper shapes

P101_WRAPPER_FAULT_RETURN leaves the rest of a wrapper for the label that
P101_WRAPPER_DONE puts before the exit trace, so a wrapper is a traced block and an
injected fault, or a `goto`, ends that block early.
-/
namespace P101Filesystem

open Effect (Program)

/-- An operation used for its effect. -/
def act (o : Op) : Code Unit := do
  let _ ← Program.op o
  pure ()

@[simp] theorem act_bind {α : Type} (o : Op) (f : Unit → Code α) :
    (act o).bind f = .perform o fun _ => f () := rfl

def when (c : Prop) [Decidable c] (p : Code Unit) : Code Unit := if c then p else pure ()

def trace (f : Api) : Code Unit := act (.traceEntry f)
def traceExit (f : Api) : Code Unit := act (.traceExit f)
def checkFault (f : Api) : Code Word := Program.op (.checkFault f)
def errno : Code Word := Program.op .getErrno
def setErrno (e : Word) : Code Unit := act (.setErrno e)
def native (f : Api) (args : List Word) : Code Word := Program.op (.native f args)
def load (p : Word) : Code Word := Program.op (.load p)
def raiseErrno (code : Word) : Code Unit := act (.raise .errno none code)
def raiseSystem (message : String) (code : Word) : Code Unit :=
  act (.raise .system (some message) code)

/-- P101_ERROR_RAISE_ERRNO(err, errno). -/
def raiseCurrentErrno : Code Unit := do
  let e ← errno
  raiseErrno e

def trackOpen (fd : Word) : Code Unit := act (.record (.openFd fd))
def trackClose (fd : Word) : Code Unit := act (.record (.closeFd fd))
def trackAlloc (p : Word) (size : Nat) : Code Unit := act (.record (.alloc p size))
def trackAcquire (cls : ResourceClass) (id : String) (label : Label) : Code Unit :=
  act (.record (.acquire cls id 0 label))
def trackRelease (cls : ResourceClass) (id : String) : Code Unit := act (.record (.release cls id))

/-- P101_TRACE ... P101_WRAPPER_DONE. -/
def wrapper (f : Api) (block : Code Word) : Code Word := do
  trace f
  let retVal ← block
  traceExit f
  pure retVal

/-- P101_WRAPPER_FAULT_RETURN. -/
def faultReturn (f : Api) (failure : Word) (rest : Code Word) : Code Word := do
  let fault ← checkFault f
  if fault ≠ 0 then do
    raiseErrno fault
    pure failure
  else rest

/-- P101_WRAPPER_FAULT_RETURN_SYSTEM_CODE. -/
def faultReturnSystemCode (f : Api) (rest : Code Word) : Code Word := do
  let fault ← checkFault f
  if fault ≠ 0 then do
    act (.raise .system none fault)
    pure fault
  else rest

/-- Raises errno whenever the native call returns its failure value. -/
def errnoWrapper (f : Api) (failure : Word) (args : List Word) : Code Word :=
  wrapper f <| faultReturn f failure do
    setErrno 0
    let retVal ← native f args
    when (retVal = failure) raiseCurrentErrno
    pure retVal

/-- Raises errno only if the native call also set it. -/
def inBandWrapper (f : Api) (failure : Word) (args : List Word) : Code Word :=
  wrapper f <| faultReturn f failure do
    setErrno 0
    let retVal ← native f args
    when (retVal = failure) do
      let e ← errno
      when (e ≠ 0) raiseCurrentErrno
    pure retVal

/-- No error object: nothing is injected and nothing is raised. -/
def plainWrapper (f : Api) (args : List Word) : Code Word := do
  trace f
  setErrno 0
  let retVal ← native f args
  traceExit f
  pure retVal

/-- The `void` wrappers without an error object; `after` is what they report. -/
def voidWrapper (f : Api) (args : List Word) (after : Code Unit) : Code Word := do
  trace f
  setErrno 0
  let _ ← native f args
  after
  traceExit f
  pure 0

end P101Filesystem
