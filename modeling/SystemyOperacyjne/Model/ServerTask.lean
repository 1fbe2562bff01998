import Mathlib.Logic.Function.Basic
import SystemyOperacyjne.Library.IndexLoop
import SystemyOperacyjne.Model.ClientRegistry

/-!
# The event loop of the compute server

`serverTask` of `cw10/zad1/server.c` from one return of `epoll_wait` to the next call: the
loop over the events reported, in it the loop that accepts connections and the loop that
receives messages, and in the latter the `switch` on the message's type. All four share the
variable `i`, the index of the loop over the events.

What waits on the sockets when `epoll_wait` returns is part of the state, and nothing more
arrives during the pass. Each call of `recv` that returns bytes leaves some message in
`msg`; a socket's `waiting` lists these. `perror` is left out.
-/

set_option autoImplicit false

namespace SystemyOperacyjne.ComputeServer

open Library

/-- `enum type`. SOURCE: cw10/zad1/deff.h:6-8 -/
inductive MsgType
  | msg
  | answer
  | hello
  | ping
  | exit
  deriving DecidableEq, Repr

/-- `enum operation`. SOURCE: cw10/zad1/deff.h:9-11 -/
inductive Operation
  | add
  | sub
  | mul
  | div
  deriving DecidableEq, Repr

/-- `struct message`, over the type `ν` of the machine's `float`.
SOURCE: cw10/zad1/deff.h:13-21 -/
structure Message (ν : Type) where
  type : MsgType
  answer : ν
  num1 : ν
  num2 : ν
  counter : ℤ
  oper : Operation
  name : String
  deriving DecidableEq, Repr

/-- What `recv` returns when no message is left: `-1` with `EAGAIN`, `0`, or `-1` with
another error. -/
inductive Ending
  | again
  | endOfStream
  | failure
  deriving DecidableEq, Repr

/-- What successive calls of `recv` on a connection find. -/
structure Socket (ν : Type) where
  waiting : List (Message ν)
  ending : Ending

/-- A connection that `accept4` will return: its descriptor, whether `epoll_ctl` will be able
to watch it, and what it has sent. -/
structure Pending (ν : Type) where
  fd : Fd
  watched : Bool
  socket : Socket ν

/-- The two sockets the server listens on.
SOURCE: cw10/zad1/server.c:23 -/
structure Listening where
  unSock : Fd
  netSock : Fd

/-- The descriptor is one of the two sockets the server listens on. -/
def Listening.has (l : Listening) (fd : Fd) : Bool :=
  fd = l.netSock || fd = l.unSock

/-- An entry of `events`: the descriptor, and the flags `serverTask` tests. -/
structure Ready where
  fd : Fd
  err : Bool  -- `EPOLLERR`
  hup : Bool  -- `EPOLLHUP`
  rdhup : Bool  -- `EPOLLRDHUP`
  deriving DecidableEq, Repr

/-- A line `serverTask` prints. -/
inductive Line (ν : Type)
  | notAnAnswer  -- `Client please, just send me an answer not a message!`
  | taskAnswer (counter : ℤ) (answer : ν)  -- `Task no.%d = %f`
  | connected (name : String)  -- `%s connected`
  deriving DecidableEq, Repr

/-- What `serverTask` works on: the registry, the lines printed so far, what waits on every
connection, and the connections that wait on a listening socket. -/
structure Server (ν : Type) where
  registry : Registry
  printed : List (Line ν)
  sockets : Fd → Socket ν
  backlog : Fd → List (Pending ν)

variable {ν : Type}

/-- The server prints a line. -/
def Server.print (line : Line ν) (s : Server ν) : Server ν :=
  { s with printed := s.printed ++ [line] }

/-- `close_client` as `serverTask` calls it; the index `i` is handed on. -/
def dropClient (fd : Fd) (i : ℕ) (s : Server ν) : Except Failure (ℕ × Server ν) := do
  let registry ← closeClient fd s.registry
  return (i, { s with registry })

/-- The loop that accepts the connections waiting on a listening socket, up to the call of
`accept4` that returns `-1`.
SOURCE: cw10/zad1/server.c:88-112 -/
def acceptLoop : List (Pending ν) → Server ν → Except Failure (Server ν)
  | [], s => .ok s
  | p :: rest, s =>
    let r := { s.registry with openFds := insert p.fd s.registry.openFds }
    let sockets := Function.update s.sockets p.fd p.socket
    if p.watched then do
      let registry ← addClient p.fd r
      acceptLoop rest { s with registry, sockets }
    else
      .error (.exitError "epoll_ctl")

/-- The `switch` on the type of a message received from `fd`; `i` is the index of the loop
over the events.
SOURCE: cw10/zad1/server.c:130-157 -/
def receive (fd : Fd) (msg : Message ν) (i : ℕ) (s : Server ν) :
    Except Failure (ℕ × Server ν) :=
  match msg.type with
  | .msg => .ok (i, s.print .notAnAnswer)
  | .answer => .ok (i, s.print (.taskAnswer msg.counter msg.answer))
  | .ping => do
    let (i, registry) ← countPing fd 0 s.registry
    return (i, { s with registry })
  | .exit => dropClient fd i s
  | .hello => .ok (i, s.print (.connected msg.name))

/-- The loop that receives the messages waiting on `fd`. Once the descriptor is closed `recv`
fails, which is an error other than `EAGAIN`.
SOURCE: cw10/zad1/server.c:114-159 -/
def recvLoop (fd : Fd) : List (Message ν) → ℕ → Server ν → Except Failure (ℕ × Server ν)
  | [], i, s =>
    if fd ∈ s.registry.openFds ∧ (s.sockets fd).ending = .again then
      .ok (i, s)
    else
      dropClient fd i s
  | msg :: rest, i, s =>
    if fd ∈ s.registry.openFds then do
      let socket := { s.sockets fd with waiting := rest }
      let (i, s) ← receive fd msg i { s with sockets := Function.update s.sockets fd socket }
      recvLoop fd rest i s
    else
      dropClient fd i s

/-- The body of the loop over the events, for the event `event` at index `i`; the value of
`i` after it is returned with the state.
SOURCE: cw10/zad1/server.c:76-160 -/
def handleEvent (l : Listening) (event : Ready) (i : ℕ) (s : Server ν) :
    Except Failure (ℕ × Server ν) :=
  if event.err ∨ event.hup then
    if l.has event.fd then
      .ok (i, s)
    else
      dropClient event.fd i s
  else if event.rdhup then
    if l.has event.fd then
      .ok (i, s)
    else
      dropClient event.fd i s
  else if l.has event.fd then do
    let backlog := Function.update s.backlog event.fd []
    let s ← acceptLoop (s.backlog event.fd) { s with backlog }
    return (i, s)
  else
    recvLoop event.fd (s.sockets event.fd).waiting i s

end SystemyOperacyjne.ComputeServer
