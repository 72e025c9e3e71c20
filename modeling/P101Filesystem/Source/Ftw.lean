import P101Filesystem.Source.Macros

/-!
# ftw.c: tree walks

The user's callback is not handed to the native walk. It waits in a context on the
wrapper's own stack frame, which the trampoline finds through a thread-local pointer.
The two walks differ in their native call and its arguments only.
-/
namespace P101Filesystem

variable (π : Platform)

open Effect (Program)

def getActive (k : Kind) : Code Word := Program.op (.getActive k)
def setActive (k : Kind) (p : Word) : Code Unit := act (.setActive k p)
def loadField (k : Kind) (p : Word) (f : Field) : Code Word := Program.op (.loadField k p f)
def storeField (k : Kind) (p : Word) (f : Field) (v : Word) : Code Unit :=
  act (.storeField k p f v)

/-- `context` is the address of the local context structure. -/
def walk (k : Kind) (path fn limit : Word) (args : List Word) (context : Word) : Code Word :=
  wrapper k.api <| faultReturn k.api (-1) <|
    if path = NULL ∨ fn = NULL ∨ limit < 1 then do
      raiseErrno π.einval
      pure (-1)
    else do
      storeField k context .callback fn
      storeField k context .stopped 0
      let previous ← getActive k
      storeField k context .previous previous
      setActive k context
      setErrno 0
      let retVal ← native k.api args
      let savedErrno ← errno
      let previous ← loadField k context .previous
      setActive k previous
      when (retVal = -1) do
        let stopped ← loadField k context .stopped
        when (stopped = 0) (raiseErrno (if savedErrno = 0 then π.eio else savedErrno))
      pure retVal

def p101Ftw (path fn ndirs context : Word) : Code Word :=
  walk π .ftw path fn ndirs [path, ndirs] context

def p101Nftw (path fn fdLimit flags context : Word) : Code Word :=
  walk π .nftw path fn fdLimit [path, fdLimit, flags] context

def trampoline (k : Kind) (args : List Word) : Code Word := do
  let context ← getActive k
  let callback ← loadField k context .callback
  let result ← Program.op (.callback callback args)
  when (result ≠ 0) (storeField k context .stopped 1)
  pure result

def callFtwCallback (path status type : Word) : Code Word := trampoline .ftw [path, status, type]

def callNftwCallback (path status type walk : Word) : Code Word :=
  trampoline .nftw [path, status, type, walk]

end P101Filesystem
