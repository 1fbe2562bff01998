import SystemyOperacyjne.Model.TaskExchange

/-!
# The compute server over datagrams

`cw10/zad2/server.c` and any number of processes running `cw10/zad2/client.c`. The server has
two sockets, a Unix one bound to `path` and an Internet one bound to its port, and every client
a socket of its own, with an address that `recvfrom` reports. A step is one datagram, a command
line or a round of pings. The registry and its functions are those of `cw10/zad1`, and so is
what the client does with a message.

The sockets block, and the loop around `recvfrom` has no way out: once `serverTask` has been
told of a datagram on one of its sockets, it receives from this socket for ever.
-/

set_option autoImplicit false

namespace SystemyOperacyjne.DatagramServer

open Library ComputeServer

/-- The addresses: the server's two, and those of the clients' sockets. -/
inductive Address (κ : Type)
  | path
  | port
  | of (c : κ)
  deriving DecidableEq, Repr

/-- Who reads from a socket. -/
inductive Party (κ : Type)
  | server
  | client (c : κ)
  deriving DecidableEq, Repr

/-- What is around the server: the descriptors of its sockets, and which clients have Unix
sockets. -/
structure Sockets (κ : Type) where
  unSock : Fd
  netSock : Fd
  isUnix : κ → Bool

/-- The address is one of a Unix socket. -/
def Sockets.unix {κ : Type} (n : Sockets κ) : Address κ → Bool
  | .path => true
  | .port => false
  | .of c => n.isUnix c

/-- The address that a socket of the server is bound to. -/
def Sockets.address {κ : Type} (n : Sockets κ) (fd : Fd) : Address κ :=
  if fd = n.unSock then .path else .port

/-- The socket of the server that a client writes to. -/
def Sockets.of {κ : Type} (n : Sockets κ) (c : κ) : Fd :=
  if n.isUnix c then n.unSock else n.netSock

/-- The server and its clients. `receiving` is the socket whose loop `serverTask` is in,
`queue` holds the datagrams that wait at the server's sockets with the addresses they come
from, `inbox` those that wait at the clients', and `running` says that the server has not left
through `exitError`. -/
structure Hub (ν κ : Type) where
  registry : Registry
  printed : List (Line ν)
  reports : List String
  taskCounter : ℤ
  commandMsg : Message ν
  pingMsg : Message ν
  receiving : Option Fd
  queue : Fd → List (Address κ × Message ν)
  inbox : κ → List (Message ν)
  greeted : κ → Bool
  running : Bool

variable {ν κ : Type} [DecidableEq κ]

/-- `sendto` from the socket `fd`: who the message is delivered to, or `none` when the call
fails. It does when the socket is not open, and when the address is one of another family. -/
def sendto (n : Sockets κ) (fd : Fd) (dest : Address κ) (msg : Message ν) (s : Hub ν κ) :
    Option (Party κ × Hub ν κ) :=
  if fd ∉ s.registry.openFds ∨ n.unix (n.address fd) ≠ n.unix dest then
    none
  else
    match dest with
    | .path => some (.server, { s with
        queue := Function.update s.queue n.unSock (s.queue n.unSock ++ [(n.address fd, msg)]) })
    | .port => some (.server, { s with
        queue := Function.update s.queue n.netSock (s.queue n.netSock ++ [(n.address fd, msg)]) })
    | .of c => some (.client c, { s with
        inbox := Function.update s.inbox c (s.inbox c ++ [msg]) })

/-- A message sent for an entry of the registry, and who it was delivered to. -/
abbrev Sent (κ : Type) := Fd × Option (Party κ)

/-- `commandline` on one line `<op> a b`, where `rand` is what `rand()` returns. Whatever client
is picked, the message is sent to `path`, and `taskCounter` is not counted up. When there is no
client, what is sent is no task.
SOURCE: cw10/zad2/server.c:173-214 -/
def commandline (n : Sockets κ) (oper : Operation) (num1 num2 : ν) (rand : ℕ) (s : Hub ν κ) :
    Except Failure (List (Sent κ) × Hub ν κ) := do
  let msg := { s.commandMsg with oper }
  let client ← randClient rand s.registry
  let s := if client = -1
    then { s with commandMsg := msg, reports := s.reports ++ ["No clients"] }
    else { s with commandMsg :=
      { msg with counter := s.taskCounter, num1, num2, type := .msg } }
  let sent := fun party => if client = -1 then [] else [(client, party)]
  match sendto n n.unSock .path s.commandMsg s with
  | some (party, s) => return (sent (some party), s)
  | none => return (sent none, { s with running := false })

/-- Send the `PING` of `ping_task` for one entry after the other, to `path`.
SOURCE: cw10/zad2/server.c:228-232 -/
def sendPings (n : Sockets κ) : List Fd → Hub ν κ → List (Sent κ) × Hub ν κ
  | [], s => ([], s)
  | fd :: fds, s =>
    match sendto n fd .path s.pingMsg s with
    | some (party, s) =>
      let (sent, s) := sendPings n fds s
      ((fd, some party) :: sent, s)
    | none => ([(fd, none)], { s with running := false })

/-- A round of pings. SOURCE: cw10/zad2/server.c:226-237 -/
def pingTask (n : Sockets κ) (s : Hub ν κ) : Except Failure (List (Sent κ) × Hub ν κ) := do
  let (fds, registry) ← pingLoop 0 s.registry
  return sendPings n fds { s with registry }

/-- The `switch` of `serverTask` on a message received on the socket `fd`. The sender's address
has been written to memory that nothing reads.
SOURCE: cw10/zad2/server.c:96-126 -/
def receive (fd : Fd) (msg : Message ν) (s : Hub ν κ) : Except Failure (Hub ν κ) :=
  match msg.type with
  | .answer => .ok { s with printed := s.printed ++ [.taskAnswer msg.counter msg.answer] }
  | .msg => .ok { s with printed := s.printed ++ [.notAnAnswer] }
  | .ping => do
    let (_, registry) ← countPing fd 0 s.registry
    return { s with registry }
  | .exit => do
    let registry ← closeClient fd s.registry
    return { s with registry }
  | .hello => do
    let registry ← addClient fd s.registry
    return { s with registry, printed := s.printed ++ [.connected msg.name] }

/-- What happens next: a client writes its `HELLO`, a client receives the next message sent to
it, `serverTask` receives the next datagram on a socket, a command line is entered, or a round
of pings begins. -/
inductive Choice (ν κ : Type)
  | hello (c : κ) (body : Message ν)
  | client (c : κ)
  | receive (fd : Fd)
  | command (oper : Operation) (num1 num2 : ν) (rand : ℕ)
  | pingRound

/-- What a step shows: the server has registered `fd` for the `HELLO` that came from `sender`,
or has sent messages for entries of the registry. -/
inductive Event (κ : Type)
  | registered (sender : Address κ) (fd : Fd)
  | sends (sent : List (Sent κ))
  | silent
  deriving DecidableEq, Repr

/-- One step. There is none where the choice cannot come up, or where an access outside the
arrays or an `exitError` of the registry ends the server. -/
def Hub.next (n : Sockets κ) (evaluate : Operation → ν → ν → ν) (s : Hub ν κ) :
    Choice ν κ → Option (Event κ × Hub ν κ)
  | .hello c body =>
    if s.greeted c then none else
      let msg := { body with type := .hello }
      some (.silent, { s with
        greeted := Function.update s.greeted c true
        queue := Function.update s.queue (n.of c) (s.queue (n.of c) ++ [(.of c, msg)]) })
  | .client c =>
    match s.inbox c with
    | [] => none
    | msg :: rest =>
      let replies := ((clientMain evaluate msg).getD []).map fun reply => (Address.of c, reply)
      some (.silent, { s with
        inbox := Function.update s.inbox c rest
        queue := Function.update s.queue (n.of c) (s.queue (n.of c) ++ replies) })
  | .receive fd =>
    if s.running ∧ (s.receiving = none ∨ s.receiving = some fd) then
      match s.queue fd with
      | [] => none
      | (sender, msg) :: rest =>
        if fd ∈ s.registry.openFds then do
          let t ← (receive fd msg { s with
            receiving := some fd, queue := Function.update s.queue fd rest }).toOption
          return (if msg.type = .hello then .registered sender fd else .silent, t)
        else
          some (.silent, { s with running := false })  -- `recvfrom` fails
    else none
  | .command oper num1 num2 rand =>
    if s.running then do
      let (sent, t) ← (commandline n oper num1 num2 rand s).toOption
      return (.sends sent, t)
    else none
  | .pingRound =>
    if s.running then do
      let (sent, t) ← (pingTask n s).toOption
      return (.sends sent, t)
    else none

/-- The server has bound its sockets.
SOURCE: cw10/zad2/server.c:134-161, cw10/zad2/server.c:269-271 -/
def Hub.initial (n : Sockets κ) (commandMsg pingMsg : Message ν) : Hub ν κ where
  registry := { Registry.empty with openFds := {n.unSock, n.netSock} }
  printed := []
  reports := []
  taskCounter := 0
  commandMsg := commandMsg
  pingMsg := { pingMsg with type := .ping }
  receiving := none
  queue := fun _ => []
  inbox := fun _ => []
  greeted := fun _ => false
  running := true

/-- The server and its clients. -/
def hub (n : Sockets κ) (evaluate : Operation → ν → ν → ν) :
    Machine (Hub ν κ) (Choice ν κ) (Event κ) where
  init s := ∃ commandMsg pingMsg, s = .initial n commandMsg pingMsg
  next := Hub.next n evaluate

end SystemyOperacyjne.DatagramServer
