import Mathlib.Logic.Function.Basic
import SystemyOperacyjne.Library.Tokens

/-!
# The batch interpreter

`cw03/zad1/main.c`, and `cw03/zad2/main.c`, whose children put limits on themselves first.
The interpreter reads a file line by line. A line that begins with `#` sets or removes a
variable; any other line is split into words, and a child is forked to execute them.

The lines that have not been read are in the buffer of the stream when the child is forked,
so the child has a copy of them. A child that cannot be turned into the command returns from
`execCommand` to the loop of `main`, and reads on in its copy; its parent waits for it and
then reads on in its own. Nothing runs at the same time, so a run is a list of events. A process
is named by the numbers of the lines at which it and its ancestors were forked.

`cmd[index]=NULL` stores one pointer behind the array (`ArgumentArray`), and whether that
overwrites anything depends on the allocator and on everything it has allocated before. Where it
does, `free` or a later `malloc` finds it and ends the process with a signal, between two lines as
far as anyone can see. What these calls do is therefore an outcome of calls like any other
(`Calls.stopped`), free for every process and every line.
-/

set_option autoImplicit false

namespace SystemyOperacyjne.BatchInterpreter

open Library

/-- The two programs. -/
inductive Version
  | plain  -- `cw03/zad1`
  | limited  -- `cw03/zad2`
  deriving DecidableEq, Repr

abbrev Word := List Char

/-- The environment of a process. -/
abbrev Env := Word → Option Word

/-- How a process has ended. -/
inductive Status
  | exited (code : ℕ)
  | killed (signal : ℕ)
  deriving DecidableEq, Repr

/-- The outcomes of the calls that process `p` and the child it forks make for a line: both
calls of `setrlimit` in the child, and `execvp`, which returns only if it fails; otherwise the
command runs and ends with a status. Then those of the allocator in `p` itself, from the store
behind `cmd` for this line to the next line: it may end the process with a signal. -/
structure Calls where
  limitCpu : Bool
  limitMem : Bool
  exec : Option Status
  stopped : Option ℕ
  deriving DecidableEq, Repr

/-- A process: the numbers of the lines at which it and its ancestors were forked. -/
abbrev Process := List ℕ

/-- The interpreter that was started. -/
def original : Process := []

/-- What a process does. -/
inductive Event
  | directive (p : Process) (lineNumber : ℕ)  -- the variable of the line is set or removed
  | attempt (p : Process) (lineNumber : ℕ) (argv : List Word) (env : Env)  -- forks for the line
  | report (p : Process) (lineNumber : ℕ) (command : Word)  -- `error in line …, command: …`
  | message (p : Process) (text : String)

/-- The signal a read through a null pointer ends a process with. -/
def SIGSEGV : ℕ := 11

/-- `unsetenv` and `setenv` fail on these names. -/
def badName (name : Word) : Bool :=
  name.isEmpty || name.contains '='

/-- What a line with `#` does to the environment, and what it prints.
SOURCE: cw03/zad1/main.c:13-28, cw03/zad2/main.c:15-30 -/
def addVariable (line : List Char) (env : Env) : Env × Option String :=
  match strtok (" \t\n\r".toList.contains ·) line.tail with
  | none => (env, some "unsetenv error\n")  -- `unsetenv(NULL)`
  | some (varname, rest) =>
    match strtok ("\t\n\r".toList.contains ·) rest with
    | none =>
      if badName varname then (env, some "unsetenv error\n")
      else (Function.update env varname none, none)
    | some (value, _) =>
      if badName varname then (env, some "setenv error\n")
      else (Function.update env varname (some value), none)

/-- What a line that is a command comes to before the fork. -/
inductive Command
  | crash  -- no word: `strlen(NULL)`
  | tooMany  -- `Too many arguments`
  | argv (words : List Word)
  deriving DecidableEq, Repr

def maxArgs : ℕ := 10

/-- The words after the first, `slots` of them at most; `none` when there are more.
SOURCE: cw03/zad1/main.c:40-52, cw03/zad2/main.c:42-55 -/
def readArgs : ℕ → List Char → Option (List Word)
  | slots, s =>
    match strtok (" \n\t".toList.contains ·) s with
    | none => some []
    | some (current, rest) =>
      match slots with
      | 0 => none
      | slots + 1 => (readArgs slots rest).map (current :: ·)

/-- The part of `execCommand` before the fork.
SOURCE: cw03/zad1/main.c:32-55, cw03/zad2/main.c:34-58 -/
def execCommand (line : List Char) : Command :=
  match strtok (" \t\n\r".toList.contains ·) line with
  | none => .crash
  | some (current, rest) =>
    match readArgs maxArgs rest with
    | none => .tooMany
    | some args => .argv (current :: args)

/-- What becomes of a child: it runs the command to its end, or it prints a text and returns
from `execCommand`.
SOURCE: cw03/zad1/main.c:59-63, cw03/zad2/main.c:63-94 -/
def childResult (v : Version) (calls : Calls) : Status ⊕ String :=
  let exec := match calls.exec with
    | some status => .inl status
    | none => .inr "exec error\n"
  match v with
  | .plain => exec
  | .limited =>
    if ¬ calls.limitCpu then .inr "setrlimit error\n"
    else if ¬ calls.limitMem then .inr "setrlimit error\n"
    else exec

/-- What the parent prints when the child has ended.
SOURCE: cw03/zad1/main.c:65-69, cw03/zad2/main.c:98-106 -/
def afterWait (p : Process) (lineNumber : ℕ) (argv : List Word) : Status → List Event
  | .exited _ => []
  | .killed _ => [.report p lineNumber (argv.headD [])]

/-- What a process does behind a line, unless the allocator ends it before the next one.
SOURCE: cw03/zad1/main.c:55, cw03/zad1/main.c:71-74 -/
def unlessStopped (stopped : Option ℕ) (later : List Event × Status) : List Event × Status :=
  match stopped with
  | some signal => ([], .killed signal)
  | none => later

/-- The loop of `main` in process `p`, from line `lineNumber` on: what happens, and how the
process ends.
SOURCE: cw03/zad1/main.c:57-113, cw03/zad2/main.c:61-163 -/
def interpret (v : Version) (calls : Process → ℕ → Calls) :
    List (List Char) → Process → ℕ → Env → List Event × Status
  | [], _, _, _ => ([], .exited 0)
  | text :: lines, p, lineNumber, env =>
    let line := cString text
    if line.head? = some '#' then
      let (env, printed) := addVariable line env
      let (events, status) := unlessStopped (calls p lineNumber).stopped
        (interpret v calls lines p (lineNumber + 1) env)
      (.directive p lineNumber :: (printed.map (.message p ·)).toList ++ events, status)
    else
      match execCommand line with
      | .crash => ([], .killed SIGSEGV)
      | .tooMany =>
        let (events, status) := unlessStopped (calls p lineNumber).stopped
          (interpret v calls lines p (lineNumber + 1) env)
        (.message p "Too many arguments\n" :: events, status)
      | .argv argv =>
        let child := p ++ [lineNumber]
        let (childEvents, childStatus) :=
          match childResult v (calls p lineNumber) with
          | .inl status => ([], status)
          | .inr printed =>
            -- the child goes on with the lines that follow
            let (events, status) := unlessStopped (calls child lineNumber).stopped
              (interpret v calls lines child (lineNumber + 1) env)
            (Event.message child printed :: events, status)
        let (events, status) := unlessStopped (calls p lineNumber).stopped
          (interpret v calls lines p (lineNumber + 1) env)
        (Event.attempt p lineNumber argv env :: childEvents ++
          afterWait p lineNumber argv childStatus ++ events, status)

/-- The interpreter on a file.
SOURCE: cw03/zad1/main.c:88-114, cw03/zad2/main.c:129-163 -/
def main (v : Version) (calls : Process → ℕ → Calls) (env : Env) (file : List Char) :
    List Event × Status :=
  interpret v calls (getlines file) original 1 env

/-! ## What the lines are -/

/-- What a line is to the interpreter. -/
inductive Line
  | directive
  | crash
  | tooMany
  | command (argv : List Word)
  deriving DecidableEq, Repr

def kind (text : List Char) : Line :=
  if (cString text).head? = some '#' then .directive
  else
    match execCommand (cString text) with
    | .crash => .crash
    | .tooMany => .tooMany
    | .argv argv => .command argv

/-- What process `p` does behind line `n`. -/
def behind (v : Version) (calls : Process → ℕ → Calls) (lines : List (List Char)) (p : Process)
    (n : ℕ) (env : Env) : List Event × Status :=
  unlessStopped (calls p n).stopped (interpret v calls lines p (n + 1) env)

section Equations

variable {v : Version} {calls : Process → ℕ → Calls} {text : List Char}
  {lines : List (List Char)} {p : Process} {n : ℕ} {env : Env}

/-- A process that the allocator ends does nothing behind the line. -/
theorem behind_stopped {signal : ℕ} (h : (calls p n).stopped = some signal) :
    behind v calls lines p n env = ([], .killed signal) := by
  rw [behind, h]
  rfl

/-- A process that the allocator does not end goes on with the next line. -/
theorem behind_goesOn (h : (calls p n).stopped = none) :
    behind v calls lines p n env = interpret v calls lines p (n + 1) env := by
  rw [behind, h]
  rfl

/-- A variable line. -/
theorem interpret_directive (v : Version) (calls : Process → ℕ → Calls)
    (lines : List (List Char)) (p : Process) (n : ℕ) (env : Env) (h : kind text = .directive) :
    ∃ env' printed, interpret v calls (text :: lines) p n env =
      (.directive p n :: (Option.map (Event.message p) printed).toList ++
        (behind v calls lines p n env').1, (behind v calls lines p n env').2) := by
  unfold kind at h
  split at h
  · rename_i hhash
    refine ⟨(addVariable (cString text) env).1, (addVariable (cString text) env).2, ?_⟩
    simp only [interpret, if_pos hhash, behind]
  · split at h <;> cases h

/-- A line without any word. -/
theorem interpret_crash (h : kind text = .crash) :
    interpret v calls (text :: lines) p n env = ([], .killed SIGSEGV) := by
  unfold kind at h
  split at h
  · cases h
  · rename_i hhash
    split at h
    · rename_i hcmd
      simp only [interpret, if_neg hhash, hcmd]
    · cases h
    · cases h

/-- A line with too many words. -/
theorem interpret_tooMany (h : kind text = .tooMany) :
    interpret v calls (text :: lines) p n env =
      (.message p "Too many arguments\n" :: (behind v calls lines p n env).1,
        (behind v calls lines p n env).2) := by
  unfold kind at h
  split at h
  · cases h
  · rename_i hhash
    split at h
    · cases h
    · rename_i hcmd
      simp only [interpret, if_neg hhash, hcmd, behind]
    · cases h

/-- A command whose child is replaced. -/
theorem interpret_replaced {argv : List Word} {status : Status} (h : kind text = .command argv)
    (hchild : childResult v (calls p n) = .inl status) :
    interpret v calls (text :: lines) p n env =
      (.attempt p n argv env :: afterWait p n argv status ++ (behind v calls lines p n env).1,
        (behind v calls lines p n env).2) := by
  unfold kind at h
  split at h
  · cases h
  · rename_i hhash
    split at h
    · cases h
    · cases h
    · rename_i hcmd
      cases h
      simp only [interpret, if_neg hhash, hcmd, hchild, List.cons_append, List.nil_append, behind]

/-- A command whose child goes on with the lines that follow. -/
theorem interpret_returned {argv : List Word} {printed : String} (h : kind text = .command argv)
    (hchild : childResult v (calls p n) = .inr printed) :
    interpret v calls (text :: lines) p n env =
      (.attempt p n argv env :: .message (p ++ [n]) printed ::
          (behind v calls lines (p ++ [n]) n env).1 ++
        afterWait p n argv (behind v calls lines (p ++ [n]) n env).2 ++
        (behind v calls lines p n env).1, (behind v calls lines p n env).2) := by
  unfold kind at h
  split at h
  · cases h
  · rename_i hhash
    split at h
    · cases h
    · cases h
    · rename_i hcmd
      cases h
      simp only [interpret, if_neg hhash, hcmd, hchild, List.cons_append, behind]

end Equations

end SystemyOperacyjne.BatchInterpreter
