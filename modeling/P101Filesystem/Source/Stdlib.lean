import P101Filesystem.Source.Macros

/-! stdlib.c: temporary names and canonical paths. -/
namespace P101Filesystem

variable (π : Platform)

def p101Mkdtemp (nameTemplate : Word) : Code Word := errnoWrapper .mkdtemp NULL [nameTemplate]

/-- Spells the fault and exit protocol by hand, with an exit trace on each branch. -/
def p101Mkstemp (nameTemplate : Word) : Code Word := do
  trace .mkstemp
  let fault ← checkFault .mkstemp
  if fault ≠ 0 then do
    raiseErrno fault
    traceExit .mkstemp
    pure (-1)
  else do
    setErrno 0
    let retVal ← native .mkstemp [nameTemplate]
    (if retVal = -1 then raiseCurrentErrno else trackOpen retVal)
    traceExit .mkstemp
    pure retVal

/-- The hand-written protocol is the one the macros give. -/
theorem p101Mkstemp_eq (nameTemplate : Word) : p101Mkstemp nameTemplate =
    wrapper .mkstemp (faultReturn .mkstemp (-1) do
      setErrno 0
      let retVal ← native .mkstemp [nameTemplate]
      (if retVal = -1 then raiseCurrentErrno else trackOpen retVal)
      pure retVal) := by
  simp [p101Mkstemp, wrapper, faultReturn, trace, traceExit, checkFault, raiseErrno, setErrno,
    native, trackOpen, raiseCurrentErrno, errno]

def p101Realpath (fileName resolvedName : Word) : Code Word :=
  wrapper .realpath <| faultReturn .realpath NULL do
    setErrno 0
    let retVal ← native .realpath [fileName, resolvedName]
    (if retVal = NULL then raiseCurrentErrno
    else when (resolvedName = NULL) do
      let length ← Effect.Program.op (.strlen retVal)
      trackAlloc retVal ((length.toNat + 1) % 2 ^ π.sizeBits))
    pure retVal

end P101Filesystem
