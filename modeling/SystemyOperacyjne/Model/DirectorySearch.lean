import Mathlib.Algebra.Ring.Nat
import SystemyOperacyjne.Library.PathNames

/-!
# Searching a directory

`cw02/zad2/main.c`: the regular files in a directory and in the directories below it that have at
most a given size are printed, by a recursion over `opendir` and `readdir`, or by `nftw`.

The recursion has one buffer for the path of a directory, `root_path`, which is the caller's
`tmpRoot`: a callee appends its name to it. A call takes the contents of this buffer and returns
them as it leaves them. The strings of C are lists here, and these buffers are as long as it takes:
they have room for 1023 characters. The block `copy` is another matter. It is as long as the path,
without room for the `NUL` that `strcpy` stores behind it, and what that does is up to the allocator
(`Heap`).
-/

set_option autoImplicit false

namespace SystemyOperacyjne.DirectorySearch

open Library

abbrev Path := List Char

/-- `st_mode & S_IFMT`. -/
inductive Kind
  | regular
  | directory
  | link
  | other  -- a device, a pipe or a socket
  deriving DecidableEq, Repr

/-- What `lstat` tells of a file: `permissions` are the bits `S_IRUSR` to `S_IXOTH`. -/
structure Stat where
  kind : Kind
  size : ℕ
  permissions : List Bool
  mtime : ℤ
  deriving DecidableEq, Repr

/-- The files, as the calls of the system show them: `opendir` with the names that `readdir` then
gives, one after the other. -/
structure Files where
  lstat : Path → Option Stat
  opendir : Path → Option (List Path)

/-- The allocator: how many bytes a block has room for when `n` are asked for, and, for the block
of a directory that has no room left, whether the byte that is stored behind it ends the program.
That depends on all that is allocated before and after it. -/
structure Heap where
  room : ℕ → ℕ
  le_room : ∀ n, n ≤ room n
  fatal : Path → Bool

/-- What `checkReg` prints of a file. -/
structure Report where
  fullpath : Path
  size : ℕ
  mode : List Char
  mtime : ℤ
  deriving DecidableEq, Repr

/-- What goes wrong. -/
inductive Failure
  | lstat  -- `lstat` fails, and what is in the buffer is used
  | readdirNull  -- `readdir(NULL)`
  | overrun  -- the allocator finds that a block has been written past its end
  | outOfFuel
  deriving DecidableEq, Repr

/-- The nine letters of the mode. -/
def modeLetters (permissions : List Bool) : List Char :=
  (permissions.zip "rwxrwxrwx".toList).map fun p => if p.1 then p.2 else '-'

/-- What is printed of a regular file. -/
def report (fullpath : Path) (fileStat : Stat) : Report where
  fullpath := fullpath
  size := fileStat.size % 2 ^ 32  -- `(unsigned int)`
  mode := modeLetters fileStat.permissions
  mtime := fileStat.mtime

/-- SOURCE: cw02/zad2/main.c:17-49 -/
def checkReg (files : Files) (fullpath : Path) (sizeRest : ℤ) : Except Failure (List Report) :=
  match files.lstat fullpath with
  | none => .error .lstat
  | some fileStat =>
    if fileStat.kind ≠ .regular then .ok []
    else if (fileStat.size : ℤ) ≤ sizeRest then .ok [report fullpath fileStat]
    else .ok []

/-- The loop over the entries of a directory, with the contents of `tmpRoot`; `descend` is the
recursive call.
SOURCE: cw02/zad2/main.c:68-109 -/
def readLoop (files : Files) (bytes : ℤ)
    (descend : Path → Path → Except Failure (List Report × Path)) (rootPath : Path) :
    List Path → Path → Except Failure (List Report)
  | [], _ => .ok []
  | d_name :: names, _ => do
    let tmpRoot := rootPath  -- `strcpy(tmpRoot,root_path)`
    let dentPath := tmpRoot ++ d_name
    if d_name = ['.'] ∨ d_name = ['.', '.'] then
      readLoop files bytes descend rootPath names tmpRoot
    else
      match files.lstat dentPath with
      | none => .error .lstat
      | some statbuf => do
        let (below, tmpRoot) ←
          if statbuf.kind = .directory then descend tmpRoot d_name else .ok ([], tmpRoot)
        let here ← if statbuf.kind = .regular then checkReg files dentPath bytes else .ok []
        let later ← readLoop files bytes descend rootPath names tmpRoot
        return below ++ here ++ later

/-- The contents of `root_path` with the name of the child appended.
SOURCE: cw02/zad2/main.c:53-59 -/
def appendChild (rootPath : Path) : Option Path → Path
  | none => rootPath
  | some child => rootPath ++ child ++ ['/']

/-- The `NUL` behind the copy of a path has room in the block, or is stored where it does not end
the program. -/
def Heap.spares (heap : Heap) (path : Path) : Bool :=
  path.length < heap.room path.length ∨ ¬ heap.fatal path

/-- `strcpy` into the block `copy`, one byte longer than what was asked for.
SOURCE: cw02/zad2/main.c:63-64 -/
def copyPath (heap : Heap) (rootPath : Path) : Except Failure Unit :=
  if heap.spares rootPath then .ok () else .error .overrun

/-- What is printed, and the contents of the buffer `root_path` afterwards.
SOURCE: cw02/zad2/main.c:51-113 -/
def search (heap : Heap) (files : Files) (bytes : ℤ) :
    ℕ → Path → Option Path → Except Failure (List Report × Path)
  | 0, _, _ => .error .outOfFuel
  | fuel + 1, rootPath, child => do
    let rootPath := appendChild rootPath child
    let root := files.opendir rootPath
    copyPath heap rootPath
    match root with
    | none => .error .readdirNull
    | some names => do
      let reports ← readLoop files bytes
        (fun path name => search heap files bytes fuel path (some name)) rootPath names []
      return (reports, rootPath)

/-- The path that the search begins with; `none` if `realpath` fails, and `strlen(NULL)` is called.
SOURCE: cw02/zad2/main.c:115-135 -/
def validatePath {D : Type*} (fs : Directories D) (cwd : D) (path : Path) : Option Path :=
  let validPath := path
  let resolved := if path.head? ≠ some '/' then fs.realpath cwd path else some path
  resolved.map fun path => if path.getLast? ≠ some '/' then path ++ ['/'] else validPath

end SystemyOperacyjne.DirectorySearch
