import P101Filesystem.Source.Macros

/-! dirent.c: directory streams. -/
namespace P101Filesystem

variable (π : Platform)

def p101Alphasort (d1 d2 : Word) : Code Word := plainWrapper .alphasort [d1, d2]

/-- The id is spelled while the stream still exists, and the descriptor is asked of the
native dirfd, so that the query cannot be faulted on its own. -/
def p101Closedir (dirp : Word) : Code Word :=
  let resourceId := π.pointerResourceId dirp
  wrapper .closedir <| faultReturn .closedir (-1) do
    let fd ← native .dirfd [dirp]
    setErrno 0
    let retVal ← native .closedir [dirp]
    (if retVal = -1 then raiseCurrentErrno
    else do
      when (fd ≥ 0) (trackClose fd)
      trackRelease .directoryStream resourceId)
    pure retVal

def p101Dirfd (dirp : Word) : Code Word := errnoWrapper .dirfd (-1) [dirp]

/-- The descriptor is adopted, so only the stream is recorded. -/
def p101Fdopendir (fd : Word) : Code Word :=
  wrapper .fdopendir <| faultReturn .fdopendir NULL do
    setErrno 0
    let retVal ← native .fdopendir [fd]
    (if retVal = NULL then do
      let e ← errno
      when (e ≠ 0) raiseCurrentErrno
    else trackAcquire .directoryStream (π.pointerResourceId retVal) (.text "fdopendir"))
    pure retVal

def p101Opendir (dirname : Word) : Code Word :=
  wrapper .opendir <| faultReturn .opendir NULL do
    setErrno 0
    let retVal ← native .opendir [dirname]
    (if retVal = NULL then raiseCurrentErrno
    else do
      let fd ← native .dirfd [retVal]
      when (fd ≥ 0) (trackOpen fd)
      trackAcquire .directoryStream (π.pointerResourceId retVal) (.pointer dirname))
    pure retVal

def p101Readdir (dirp : Word) : Code Word := inBandWrapper .readdir NULL [dirp]

def p101Rewinddir (dirp : Word) : Code Word := voidWrapper .rewinddir [dirp] (pure ())

/-- `(size_t)ret_val * sizeof(struct dirent *)`. -/
def listSize (retVal : Word) : Nat :=
  (retVal % 2 ^ π.sizeBits).toNat * π.sizeofDirentPointer % 2 ^ π.sizeBits

/-- The loop over the entries, `remaining` of them from `index` on. -/
def trackEntries (namelist : Word) : Nat → Nat → Code Unit
  | 0, _ => pure ()
  | remaining + 1, index => do
    let list ← load namelist
    let entry ← load (list + index * π.sizeofDirentPointer)
    trackAlloc entry π.sizeofDirent
    trackEntries namelist remaining (index + 1)

def p101Scandir (dir namelist sel compar : Word) : Code Word :=
  wrapper .scandir <| faultReturn .scandir (-1) do
    setErrno 0
    let retVal ← native .scandir [dir, namelist, sel, compar]
    (if retVal = -1 then raiseCurrentErrno
    else do
      let list ← load namelist
      when (list ≠ NULL) do
        let block ← load namelist
        trackAlloc block (listSize π retVal)
        trackEntries π namelist retVal.toNat 0)
    pure retVal

def p101Seekdir (dirp loc : Word) : Code Word := voidWrapper .seekdir [dirp, loc] (pure ())

def p101Telldir (dirp : Word) : Code Word := inBandWrapper .telldir (-1) [dirp]

end P101Filesystem
