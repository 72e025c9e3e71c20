import P101Filesystem.Source.Macros

/-! libgen.c, stdio.c, fnmatch.c and glob.c: names and patterns. -/
namespace P101Filesystem

variable (π : Platform)

def p101Basename (path : Word) : Code Word := inBandWrapper .basename NULL [path]

def p101Dirname (path : Word) : Code Word := inBandWrapper .dirname NULL [path]

/-- `stdio_error_code`: an unset errno is reported as EIO. -/
def stdioErrorCode (errorCode : Word) : Word := if errorCode = 0 then π.eio else errorCode

def p101Renameat (oldfd oldName newfd newName : Word) : Code Word :=
  wrapper .renameat <| faultReturn .renameat (-1) do
    setErrno 0
    let retVal ← native .renameat [oldfd, oldName, newfd, newName]
    when (retVal = -1) do
      let e ← errno
      raiseErrno (stdioErrorCode π e)
    pure retVal

def p101Fnmatch (pattern string flags : Word) : Code Word :=
  wrapper .fnmatch <| faultReturnSystemCode .fnmatch do
    setErrno 0
    let retVal ← native .fnmatch [pattern, string, flags]
    when (retVal ≠ 0 ∧ retVal ≠ π.fnmNomatch)
      (raiseSystem "Invalid filename match pattern" retVal)
    pure retVal

def p101Glob (pattern flags errfunc pglob : Word) : Code Word :=
  wrapper .glob <| faultReturnSystemCode .glob do
    setErrno 0
    let retVal ← native .glob [pattern, flags, errfunc, pglob]
    (if retVal ≠ 0 ∧ retVal ≠ π.globNomatch then
      if retVal = π.globAborted then raiseSystem "" retVal
      else if retVal = π.globNospace then raiseSystem "" retVal
      else raiseSystem "<unknown glob error>" retVal
    else when (retVal = 0)
      (trackAcquire .globResult (π.pointerResourceId pglob) .absent))
    pure retVal

def p101Globfree (pglob : Word) : Code Word :=
  voidWrapper .globfree [pglob] (trackRelease .globResult (π.pointerResourceId pglob))

end P101Filesystem
