import P101Filesystem.Source.Macros

/-! unistd.c: paths, links, ownership and limits. -/
namespace P101Filesystem

def p101Access (path amode : Word) : Code Word := errnoWrapper .access (-1) [path, amode]

def p101Chdir (path : Word) : Code Word := errnoWrapper .chdir (-1) [path]

def p101Chown (path owner group : Word) : Code Word := errnoWrapper .chown (-1) [path, owner, group]

def p101Faccessat (fd path amode flag : Word) : Code Word :=
  errnoWrapper .faccessat (-1) [fd, path, amode, flag]

def p101Fchdir (fildes : Word) : Code Word := errnoWrapper .fchdir (-1) [fildes]

def p101Fchown (fildes owner group : Word) : Code Word :=
  errnoWrapper .fchown (-1) [fildes, owner, group]

def p101Fchownat (fd path owner group flag : Word) : Code Word :=
  errnoWrapper .fchownat (-1) [fd, path, owner, group, flag]

/-- -1 with errno 0 is "no limit". -/
def p101Fpathconf (fildes name : Word) : Code Word := inBandWrapper .fpathconf (-1) [fildes, name]

def p101Ftruncate (fildes length : Word) : Code Word :=
  errnoWrapper .ftruncate (-1) [fildes, length]

def p101Getcwd (buf size : Word) : Code Word := errnoWrapper .getcwd NULL [buf, size]

def p101Lchown (path owner group : Word) : Code Word :=
  errnoWrapper .lchown (-1) [path, owner, group]

def p101Link (path1 path2 : Word) : Code Word := errnoWrapper .link (-1) [path1, path2]

def p101Linkat (fd1 path1 fd2 path2 flag : Word) : Code Word :=
  errnoWrapper .linkat (-1) [fd1, path1, fd2, path2, flag]

/-- -1 with errno 0 is "no limit". -/
def p101Pathconf (path name : Word) : Code Word := inBandWrapper .pathconf (-1) [path, name]

def p101Readlink (path buf bufsize : Word) : Code Word :=
  errnoWrapper .readlink (-1) [path, buf, bufsize]

def p101Readlinkat (fd path buf bufsize : Word) : Code Word :=
  errnoWrapper .readlinkat (-1) [fd, path, buf, bufsize]

def p101Rmdir (path : Word) : Code Word := errnoWrapper .rmdir (-1) [path]

def p101Symlink (path1 path2 : Word) : Code Word := errnoWrapper .symlink (-1) [path1, path2]

def p101Symlinkat (path1 fd path2 : Word) : Code Word :=
  errnoWrapper .symlinkat (-1) [path1, fd, path2]

def p101Truncate (path length : Word) : Code Word := errnoWrapper .truncate (-1) [path, length]

def p101Unlink (path : Word) : Code Word := errnoWrapper .unlink (-1) [path]

def p101Unlinkat (fd path flag : Word) : Code Word := errnoWrapper .unlinkat (-1) [fd, path, flag]

def p101Sync : Code Word := voidWrapper .sync [] (pure ())

end P101Filesystem
