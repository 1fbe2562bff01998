import SystemyOperacyjne.Model.BatchInterpreter

/-!
# The argument array of a command

The accesses of `execCommand` to its array `cmd`, in `cw03/zad1/main.c` and `cw03/zad2/main.c`. The
array is allocated for one pointer and grows by one with every word; each access is noted with the
number of pointers that the latest `malloc` or `realloc` has allocated. A store past the end does
nothing that is seen here, and the function goes on.
-/

set_option autoImplicit false

namespace SystemyOperacyjne.BatchInterpreter

open Library

/-- A store to `cmd[index]`, or a read of it. -/
structure Access where
  index : ℕ
  allocated : ℕ
  deriving DecidableEq, Repr

/-- What `fork` leads to. -/
inductive Fork
  | child (calls : Calls)
  | parent (status : Status)  -- the child's, from `waitpid` or `wait4`
  | failed
  deriving DecidableEq, Repr

/-- The loop over the words behind the first, with `slots` of `maxArgs` left: the accesses, and
the `index` behind them; `none` is the return with too many arguments.
SOURCE: cw03/zad1/main.c:40-52, cw03/zad2/main.c:42-55 -/
def argAccesses : ℕ → ℕ → List Char → List Access × Option ℕ
  | slots, index, s =>
    match strtok (" \n\t".toList.contains ·) s with
    | none => ([], some index)
    | some (_, rest) =>
      match slots with
      | 0 => ([], none)
      | slots + 1 =>
        let index := index + 1
        let allocated := index
        let (accesses, final) := argAccesses slots index rest
        -- the store of what `malloc` returns, and the read for `strcpy`
        (⟨index - 1, allocated⟩ :: ⟨index - 1, allocated⟩ :: accesses, final)

/-- The clean-up loop.
SOURCE: cw03/zad1/main.c:71-74, cw03/zad2/main.c:110-112 -/
def freeAccesses (index allocated : ℕ) : List Access :=
  (List.range index).map fun i => ⟨i + 1, allocated⟩

/-- `execvp` reads the vector up to its `NULL`. -/
def execAccesses (index allocated : ℕ) : List Access :=
  ⟨0, allocated⟩ :: (List.range (index + 1)).map fun i => ⟨i, allocated⟩

/-- What follows `fork`.
SOURCE: cw03/zad1/main.c:57-74, cw03/zad2/main.c:61-112 -/
def forkAccesses (v : Version) (index allocated : ℕ) : Fork → List Access
  | .child calls =>
    match v with
    | .plain => execAccesses index allocated
    | .limited =>
      if ¬ calls.limitCpu then []
      else if ¬ calls.limitMem then []
      else execAccesses index allocated
  | .parent (.exited _) => freeAccesses index allocated
  | .parent (.killed _) => ⟨0, allocated⟩ :: freeAccesses index allocated
  | .failed => freeAccesses index allocated

/-- The accesses of `execCommand`.
SOURCE: cw03/zad1/main.c:30-76, cw03/zad2/main.c:32-115 -/
def cmdAccesses (v : Version) (fork : Fork) (line : List Char) : List Access :=
  match strtok (" \t\n\r".toList.contains ·) line with
  | none => []  -- `strlen(NULL)`
  | some (_, rest) =>
    ⟨0, 1⟩ :: ⟨0, 1⟩ ::
      match argAccesses maxArgs 1 rest with
      | (accesses, none) => accesses
      | (accesses, some index) =>
        let allocated := index
        -- `cmd[index]=NULL`
        accesses ++ ⟨index, allocated⟩ :: forkAccesses v index allocated fork

end SystemyOperacyjne.BatchInterpreter
