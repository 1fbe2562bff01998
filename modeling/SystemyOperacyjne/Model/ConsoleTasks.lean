import SystemyOperacyjne.Model.ServerTask

/-!
# The tasks that are typed in

The loop of `commandline` in `cw10/zad1/server.c` and `cw10/zad2/server.c`, with the call of
`scanf` that it begins with. What is typed in is a stream of items; `%s` takes any item, which
is then one character, and `%f` takes an item that is a number. Every variable remembers which
call of `scanf` has stored its value; the program does not see that.

In `cw10/zad2` a message is sent even when there is no client, to the server itself.
-/

set_option autoImplicit false

namespace SystemyOperacyjne.ConsoleTasks

open ComputeServer

/-- The two programs. -/
inductive Version
  | streams  -- `cw10/zad1`
  | datagrams  -- `cw10/zad2`
  deriving DecidableEq, Repr

/-- What is typed in between two blanks: the character that `%s` reads, and the number that `%f`
reads, if it is one. -/
structure Item (ν : Type) where
  word : Char
  number : Option ν
  deriving DecidableEq, Repr

/-- A value, and the number of the call of `scanf` that has stored it; `none` if none has. -/
structure Cell (α : Type) where
  value : α
  call : Option ℕ
  deriving DecidableEq, Repr

/-- `struct message`, as far as `commandline` sets it.
SOURCE: cw10/zad1/deff.h:13-21, cw10/zad2/deff.h:13-21 -/
structure TaskMessage (ν : Type) where
  type : MsgType
  num1 : Cell ν
  num2 : Cell ν
  counter : ℤ
  oper : Cell Operation
  deriving DecidableEq, Repr

/-- What happens in an iteration outside `commandline`: what `rand_client` returns, and whether
`write` or `sendto` succeeds. -/
structure Surroundings where
  client : Fd
  succeeds : Bool
  deriving DecidableEq, Repr

/-- The thread: what has been typed in and not been read, the variables, how often `scanf` has
been called, what has been sent, and whether `exitError` has not ended the process. -/
structure Console (ν : Type) where
  input : List (Item ν)
  calls : ℕ
  oper : Cell Char
  num1 : Cell ν
  num2 : Cell ν
  msg : TaskMessage ν
  taskCounter : ℤ
  sent : List (TaskMessage ν)
  running : Bool
  deriving DecidableEq, Repr

variable {ν : Type}

/-- `scanf("%s %f %f",&oper,&num1,&num2)`: how many it has read, or `none` for `EOF`.
SOURCE: cw10/zad1/server.c:205, cw10/zad2/server.c:173 -/
def scanf (s : Console ν) : Option ℕ × Console ν :=
  let call := some s.calls
  let s := { s with calls := s.calls + 1 }
  match s.input with
  | [] => (none, s)
  | item :: input =>
    let s := { s with input, oper := ⟨item.word, call⟩ }
    match input with
    | ⟨_, some x⟩ :: input =>
      let s := { s with input, num1 := ⟨x, call⟩ }
      match input with
      | ⟨_, some y⟩ :: input => (some 3, { s with input, num2 := ⟨y, call⟩ })
      | _ => (some 2, s)
    | _ => (some 1, s)

/-- The operation that a character stands for.
SOURCE: cw10/zad1/server.c:209-219, cw10/zad2/server.c:177-187 -/
def operation : Char → Option Operation
  | '+' => some .add
  | '-' => some .sub
  | '*' => some .mul
  | '/' => some .div
  | _ => none

/-- Whether the message goes out; a `write` to the descriptor `-1` fails. -/
def goesOut (v : Version) (env : Surroundings) : Bool :=
  env.succeeds && (v = .datagrams || env.client ≠ -1)

/-- The message with the operation; the rest is set only if there is a client.
SOURCE: cw10/zad1/server.c:209-230, cw10/zad2/server.c:177-202 -/
def compose (env : Surroundings) (oper : Operation) (s : Console ν) : TaskMessage ν :=
  let msg := { s.msg with oper := ⟨oper, s.oper.call⟩ }
  if env.client = -1 then msg  -- `No clients`
  else { msg with counter := s.taskCounter, num1 := s.num1, num2 := s.num2, type := .msg }

/-- One iteration.
SOURCE: cw10/zad1/server.c:203-236, cw10/zad2/server.c:171-214 -/
def iteration (v : Version) (env : Surroundings) (s : Console ν) : Console ν :=
  match scanf s with
  | (none, s) => s
  | (some _, s) =>
    match operation s.oper.value with
    | none => s
    | some oper =>
      let s := { s with msg := compose env oper s }
      if goesOut v env then
        { s with
          sent := s.sent ++ [s.msg]
          taskCounter := if v = .streams then s.taskCounter + 1 else s.taskCounter }
      else { s with running := false }

/-- `commandline` after so many iterations.
SOURCE: cw10/zad1/server.c:195-238, cw10/zad2/server.c:163-216 -/
def commandline (v : Version) (envs : ℕ → Surroundings) (s : Console ν) : ℕ → Console ν
  | 0 => s
  | k + 1 =>
    let s := commandline v envs s k
    if s.running then iteration v (envs k) s else s

/-- The thread before the loop: its variables hold anything.
SOURCE: cw10/zad1/server.c:198-200, cw10/zad2/server.c:166-168 -/
def Console.start (input : List (Item ν)) (oper : Char) (num1 num2 : ν) (msg : Message ν)
    (taskCounter : ℤ) : Console ν where
  input := input
  calls := 0
  oper := ⟨oper, none⟩
  num1 := ⟨num1, none⟩
  num2 := ⟨num2, none⟩
  msg :=
    { type := msg.type
      num1 := ⟨msg.num1, none⟩
      num2 := ⟨msg.num2, none⟩
      counter := msg.counter
      oper := ⟨msg.oper, none⟩ }
  taskCounter := taskCounter
  sent := []
  running := true

end SystemyOperacyjne.ConsoleTasks
