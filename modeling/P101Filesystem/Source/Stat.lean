import P101Filesystem.Source.Macros

/-! sys/stat.c and sys/statvfs.c: modes, times, directories and file systems. -/
namespace P101Filesystem

def p101Chmod (path mode : Word) : Code Word := errnoWrapper .chmod (-1) [path, mode]

def p101Fchmod (fildes mode : Word) : Code Word := errnoWrapper .fchmod (-1) [fildes, mode]

def p101Fchmodat (fd path mode flag : Word) : Code Word :=
  errnoWrapper .fchmodat (-1) [fd, path, mode, flag]

def p101Fstat (fildes buf : Word) : Code Word := errnoWrapper .fstat (-1) [fildes, buf]

def p101Fstatat (fd path buf flag : Word) : Code Word :=
  errnoWrapper .fstatat (-1) [fd, path, buf, flag]

def p101Futimens (fd times : Word) : Code Word := errnoWrapper .futimens (-1) [fd, times]

def p101Lstat (path buf : Word) : Code Word := errnoWrapper .lstat (-1) [path, buf]

def p101Mkdir (path mode : Word) : Code Word := errnoWrapper .mkdir (-1) [path, mode]

def p101Mkdirat (fd path mode : Word) : Code Word := errnoWrapper .mkdirat (-1) [fd, path, mode]

def p101Stat (path buf : Word) : Code Word := errnoWrapper .stat (-1) [path, buf]

def p101Umask (cmask : Word) : Code Word := plainWrapper .umask [cmask]

def p101Utimensat (fd path times flag : Word) : Code Word :=
  errnoWrapper .utimensat (-1) [fd, path, times, flag]

def p101Mknod (path mode dev : Word) : Code Word := errnoWrapper .mknod (-1) [path, mode, dev]

def p101Fstatvfs (fildes buf : Word) : Code Word := errnoWrapper .fstatvfs (-1) [fildes, buf]

def p101Statvfs (path buf : Word) : Code Word := errnoWrapper .statvfs (-1) [path, buf]

end P101Filesystem
