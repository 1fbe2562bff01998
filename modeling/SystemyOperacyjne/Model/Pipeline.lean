import Mathlib.Logic.Function.Basic
import SystemyOperacyjne.Library.Descriptors
import SystemyOperacyjne.Library.Tokens
import SystemyOperacyjne.Library.Transition

/-!
# The pipeline interpreter

`cw05/zad1/main.c`: the interpreter reads a line, splits it at `|` and runs the commands one
after another, the output of each going through a pipe to the next. `execLine` and `execCmd`
change the descriptors of the interpreter itself: the read end of the pipe comes to stand under
descriptor 0, so that after every command another number is the lowest free one.

The interpreter and the command that it has forked run side by side. What a command does is a
parameter: `execvp` gives the state it begins in, and `behave` says what it does in a state. A
pipe takes `capacity` bytes; a read waits while the pipe is empty and its write end is open
somewhere, a write waits while the pipe is full. How many bytes one call moves, up to what was
asked for, is open.
-/

set_option autoImplicit false

namespace SystemyOperacyjne.Pipeline

open Library

def MAX_CMDS : ℕ := 22

def MAX_ARGS : ℕ := 6

def SEP : List Char := ['|']

abbrev Word := List Char

abbrev Data := List Char

/-- What a descriptor stands for: what was open under it when the interpreter began, or an end of
a pipe. -/
inductive Handle
  | inherited (n : ℕ)
  | readEnd (p : ℕ)
  | writeEnd (p : ℕ)
  deriving DecidableEq, Repr

/-- The next thing a command does, with the state it then is in. -/
inductive Op (σ : Type)
  | read (size : ℕ) (next : Data → σ)  -- from its standard input
  | write (data : Data) (next : σ)  -- to its standard output
  | exit

/-- What the interpreter is started with: its line, what can be read from the descriptors that
are open, whether those from 3 on are open, what stands in the buffer of `stdout`; how much a pipe
takes, and what the commands do (`none` where `execvp` fails). -/
structure Setting (σ : Type) where
  line : List Char
  input : ℕ → Data
  opened : List Bool
  buffered : Data
  capacity : ℕ
  execvp : List (Option Word) → Option σ
  behave : σ → Op σ

/-- The points of `execLine` and of the parent's part of `execCmd`. -/
inductive Pc
  | firstPipe  -- `pipe(fd)` before the loop
  | test (i : ℕ)  -- the test of the loop
  | pipe (i : ℕ)  -- `pipe(fd)`
  | fork (i : ℕ)  -- `exec_cmd`, up to its `fork`
  | closeWrite (i : ℕ)  -- `close(fd[1])`
  | dupRead (i : ℕ)  -- `dup2(fd[0], STDIN_FILENO)`
  | wait (i : ℕ)  -- `wait(NULL)`
  | closeIn (i : ℕ)  -- `close(in)`
  | next (i : ℕ)  -- `last=fd[0]; close(fd[1])`
  | closeLast  -- `close(fd[0])` behind the loop
  | done
  deriving DecidableEq, Repr

/-- The points of a child; `next` is `none` when it ends after its text. -/
inductive ChildPc (σ : Type)
  | dupIn  -- `dup2(in, STDIN_FILENO)`
  | dupOut  -- `dup2(fd[1], STDOUT_FILENO)`
  | exec  -- `execvp`
  | running (p : σ)
  | writing (rest : Data) (next : Option σ)
  | exited

/-- A child: which command it is, its descriptors, and what `execCmd` was called with. -/
structure Child (σ : Type) where
  index : ℕ
  pc : ChildPc σ
  fds : Descriptors Handle
  inFd : ℕ
  writeFd : ℕ
  redirected : Bool
  cmd : List (Option Word)

/-- The interpreter, the pipes that it has made, what has not been read yet of what was open
before, and the child, up to the return of `wait`. -/
structure State (σ : Type) where
  pc : Pc
  fds : Descriptors Handle
  fd : ℕ × ℕ
  last : ℕ
  pipesNo : ℕ
  pipe : ℕ → Data
  input : ℕ → Data
  child : Option (Child σ)

/-- `execvp` is called for a command, or the command reads or writes. -/
inductive Event
  | exec (k : ℕ) (cmd : List (Option Word))
  | read (k : ℕ) (source : Option Handle) (size : ℕ) (data : Data)
  | write (k : ℕ) (target : Option Handle) (data : Data)
  deriving DecidableEq, Repr

/-- Who steps; a child's call moves so many bytes. -/
inductive Choice
  | interpreter
  | child (n : ℕ)
  deriving DecidableEq, Repr

/-- The array `words` after `words[0]=strtok(s,delimiters)` and the loop that goes on with
`words[i]=strtok(NULL,delimiters)` as long as there is a place and a word; the array is cleared
before.
SOURCE: cw05/zad1/main.c:29-36, cw05/zad1/main.c:57-61 -/
def fill (delimiters : List Char) : ℕ → List Char → List (Option Word)
  | 0, _ => []
  | places + 1, s =>
    match strtok (delimiters.contains ·) s with
    | none => List.replicate (places + 1) none
    | some (word, rest) => some word :: fill delimiters places rest

variable {σ : Type}

/-- `commands[i]`. -/
def Setting.command (c : Setting σ) (i : ℕ) : Option Word :=
  (fill SEP MAX_CMDS (cString c.line))[i]?.join

/-- `exec_cmd` is called with `out=-1`. -/
def Setting.isLast (c : Setting σ) (i : ℕ) : Bool :=
  i = MAX_CMDS - 1 || c.command (i + 1) = none

/-- The array `cmd` of `exec_cmd`. -/
def argv (cmds : Word) : List (Option Word) :=
  fill " \n\t\r".toList MAX_ARGS cmds

/-- The write end of the pipe is open in the interpreter or in the child. -/
def State.writerOpen (s : State σ) (p : ℕ) : Bool :=
  s.fds.holds (.writeEnd p) || s.child.any fun ch => ch.fds.holds (.writeEnd p)

/-- The read end of the pipe is open in the interpreter or in the child. -/
def State.readerOpen (s : State σ) (p : ℕ) : Bool :=
  s.fds.holds (.readEnd p) || s.child.any fun ch => ch.fds.holds (.readEnd p)

/-- `pipe(fd)`. -/
def State.makePipe (s : State σ) : State σ :=
  let r := s.fds.lowestFree
  let fds := s.fds.assign r (.readEnd s.pipesNo)
  let w := fds.lowestFree
  { s with
    fds := fds.assign w (.writeEnd s.pipesNo)
    fd := (r, w)
    pipesNo := s.pipesNo + 1
    pipe := Function.update s.pipe s.pipesNo [] }

/-- `fork`: the child has a copy of the descriptors. -/
def State.fork (c : Setting σ) (s : State σ) (i : ℕ) : Child σ where
  index := i
  pc := .dupIn
  fds := s.fds
  inFd := s.last
  writeFd := s.fd.2
  redirected := !c.isLast i
  cmd := argv ((c.command i).getD [])

/-- One step of the interpreter; `none` while it waits for the child and when it is done.
SOURCE: cw05/zad1/main.c:27-53, cw05/zad1/main.c:55-82 -/
def execLine (c : Setting σ) (s : State σ) : Option (State σ) :=
  match s.pc with
  | .firstPipe => some { s.makePipe with last := 0, pc := .test 0 }
  | .test i =>
    some { s with pc := if i < MAX_CMDS ∧ c.command i ≠ none then .pipe i else .closeLast }
  | .pipe i => some { s.makePipe with pc := .fork i }
  | .fork i => some { s with child := some (s.fork c i), pc := .closeWrite i }
  | .closeWrite i => some { s with fds := s.fds.close s.fd.2, pc := .dupRead i }
  | .dupRead i => some { s with fds := s.fds.dup2 s.fd.1 0, pc := .wait i }
  | .wait i =>
    match s.child with
    | none => some { s with pc := .closeIn i }
    | some ch =>
      match ch.pc with
      | .exited => some { s with child := none, pc := .closeIn i }
      | _ => none
  | .closeIn i => some { s with fds := s.fds.close s.last, pc := .next i }
  | .next i =>
    some { s with last := s.fd.1, fds := s.fds.close s.fd.2, pc := .test (i + 1) }
  | .closeLast => some { s with fds := s.fds.close s.fd.1, pc := .done }
  | .done => none

/-- What a read of up to `size` bytes that moves `n` takes, and what it leaves; nothing is moved
only where nothing can be. -/
def chunk (available : Data) (size n : ℕ) : Option (Data × Data) :=
  if n ≤ size ∧ n ≤ available.length ∧ (n = 0 → size = 0 ∨ available = []) then
    some (available.take n, available.drop n)
  else none

/-- `read(0, …, size)` in a child; `none` while it waits for data. -/
def State.readFrom (s : State σ) (source : Option Handle) (size n : ℕ) :
    Option (Data × State σ) :=
  match source with
  | some (.inherited d) => do
    let (data, rest) ← chunk (s.input d) size n
    return (data, { s with input := Function.update s.input d rest })
  | some (.readEnd p) =>
    if s.pipe p = [] ∧ 0 < size ∧ s.writerOpen p then none
    else do
      let (data, rest) ← chunk (s.pipe p) size n
      return (data, { s with pipe := Function.update s.pipe p rest })
  | some (.writeEnd _) | none => some ([], s)  -- `EBADF`

/-- The child's own part of the state changes. -/
def State.setChild (s : State σ) (ch : Child σ) : State σ :=
  { s with child := some ch }

/-- `exit`, or the death of the child: its descriptors are closed. -/
def Child.exit (ch : Child σ) : Child σ :=
  { ch with pc := .exited, fds := [] }

/-- The child when it has written everything. -/
def Child.proceed (ch : Child σ) (next : Option σ) : Child σ :=
  match next with
  | some p => { ch with pc := .running p }
  | none => ch.exit

/-- `write(1, rest)` in a child: `n` bytes are moved; `none` while it waits for room. -/
def State.writeTo (c : Setting σ) (s : State σ) (ch : Child σ) (rest : Data) (next : Option σ)
    (n : ℕ) : Option (Option Event × State σ) :=
  let target := ch.fds.entry 1
  let written := some (Event.write ch.index target (rest.take n))
  let left := { ch with pc := .writing (rest.drop n) next }
  match target with
  | some (.inherited _) =>
    if 0 < n ∧ n ≤ rest.length then some (written, s.setChild left) else none
  | some (.writeEnd p) =>
    if s.readerOpen p then
      if 0 < n ∧ n ≤ rest.length ∧ (s.pipe p).length + n ≤ c.capacity then
        some (written, { s.setChild left with
          pipe := Function.update s.pipe p (s.pipe p ++ rest.take n) })
      else none
    else some (none, s.setChild ch.exit)  -- `SIGPIPE`
  | some (.readEnd _) | none => some (none, s.setChild (ch.proceed next))  -- `EBADF`

/-- One step of the child.
SOURCE: cw05/zad1/main.c:63-70 -/
def execCmd (c : Setting σ) (s : State σ) (ch : Child σ) (n : ℕ) :
    Option (Option Event × State σ) :=
  match ch.pc with
  | .dupIn =>
    some (none, s.setChild { ch with fds := ch.fds.dup2 ch.inFd 0, pc := .dupOut })
  | .dupOut =>
    some (none, s.setChild
      { ch with fds := if ch.redirected then ch.fds.dup2 ch.writeFd 1 else ch.fds, pc := .exec })
  | .exec =>
    match c.execvp ch.cmd with
    | some p => some (some (.exec ch.index ch.cmd), s.setChild { ch with pc := .running p })
    | none =>
      some (some (.exec ch.index ch.cmd),
        s.setChild { ch with pc := .writing (c.buffered ++ "exec error\n".toList) none })
  | .running p =>
    match c.behave p with
    | .read size next => do
      let source := ch.fds.entry 0
      let (data, s') ← s.readFrom source size n
      return (some (.read ch.index source size data),
        s'.setChild { ch with pc := .running (next data) })
    | .write data next => some (none, s.setChild { ch with pc := .writing data (some next) })
    | .exit => some (none, s.setChild ch.exit)
  | .writing rest next =>
    if rest = [] then some (none, s.setChild (ch.proceed next)) else s.writeTo c ch rest next n
  | .exited => none

/-- One step of the interpreter or of the child. -/
def next (c : Setting σ) (s : State σ) : Choice → Option (Option Event × State σ)
  | .interpreter => (execLine c s).map fun s' => (none, s')
  | .child n => s.child.bind fun ch => execCmd c s ch n

/-- The interpreter when `execLine` is called. -/
def start (c : Setting σ) : State σ where
  pc := .firstPipe
  fds := [some (.inherited 0), some (.inherited 1), some (.inherited 2)] ++
    c.opened.mapIdx fun n isOpen => if isOpen then some (.inherited (n + 3)) else none
  fd := (0, 0)
  last := 0
  pipesNo := 0
  pipe _ := []
  input := c.input
  child := none

/-- The program. -/
def program (c : Setting σ) : Machine (State σ) Choice (Option Event) where
  init s := s = start c
  next := next c

end SystemyOperacyjne.Pipeline
