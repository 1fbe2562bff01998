import SystemyOperacyjne.Library.Transition
import SystemyOperacyjne.Model.ConnectionEvents
import SystemyOperacyjne.Model.RegistryCalls

/-!
# The compute server and its clients

The three threads of `cw10/zad1/server.c` and any number of processes running
`cw10/zad1/client.c`, as one machine: `commandline` sends a task to a client it picks,
`ping_task` sends a `PING` to every client, a client answers the messages it is sent, and
`serverTask` receives the answers, accepts connections and closes them. One step is a command
line, a round of pings, or one message; all messages are whole and each connection delivers
them in order.

What comes of a write to a connection is for the system to say (`Outlet`). A client that goes away
is gone before `serverTask` hears of it, and from then on a write to a connection over `AF_UNIX`
raises `SIGPIPE`, which the server leaves to end it; one over `AF_INET` still takes what is written
to it, until it is reset. The connections are watched edge-triggered: `serverTask` receives from one
only as long as it has an event that it has not finished with, and its loop over the events may pass
over one.

`Ledger` says what the exchange is for: it follows the tasks, by their numbers, through the
connections.
-/

set_option autoImplicit false

namespace SystemyOperacyjne.ComputeServer

open Library

/-- How the server ends without being told to. -/
inductive Stop
  | failure (how : Failure)
  | sigpipe
  deriving DecidableEq, Repr

/-- A task as the operator enters it. -/
structure Task (ν : Type) where
  oper : Operation
  num1 : ν
  num2 : ν
  deriving DecidableEq, Repr

/-- What comes of a write to a connection. -/
inductive Outlet
  | takes
  | refuses  -- `-1`: there is no room, or the connection has been reset
  | raises  -- `SIGPIPE`
  deriving DecidableEq, Repr

/-- The server and its connections. `commandMsg` and `pingMsg` are the variables `msg` of
`commandline` and `ping_task`, `reports` is what `commandline` prints on `stderr`, `inbox`
holds what was written to a connection and not yet read by its client, `left` has the
connections whose client is gone, and `net` those over `AF_INET`. `armed` are those with an event
that `serverTask` has not finished with.
SOURCE: cw10/zad1/server.c:26, cw10/zad1/server.c:200, cw10/zad1/server.c:241 -/
structure Exchange (ν : Type) where
  server : Server ν
  taskCounter : ℤ
  commandMsg : Message ν
  pingMsg : Message ν
  reports : List String
  inbox : Fd → List (Message ν)
  left : Finset Fd
  net : Finset Fd
  outlet : Fd → Outlet
  armed : Finset Fd

variable {ν : Type}

/-- The system takes what is written to the descriptor. -/
def Exchange.Takes (s : Exchange ν) (fd : Fd) : Prop :=
  fd ∈ s.server.registry.openFds ∧ s.outlet fd = .takes

instance (s : Exchange ν) : DecidablePred s.Takes :=
  fun fd => inferInstanceAs (Decidable (fd ∈ s.server.registry.openFds ∧ s.outlet fd = .takes))

/-- Run a function of the registry. -/
def attempt {α : Type} (x : Except Failure α) : Except Stop α :=
  x.mapError .failure

/-! ## The server -/

/-- `write`: whether the message was written. It is not where the descriptor is not open. -/
def write (fd : Fd) (msg : Message ν) (s : Exchange ν) : Except Stop (Bool × Exchange ν) :=
  if fd ∉ s.server.registry.openFds then
    .ok (false, s)
  else
    match s.outlet fd with
    | .takes => .ok (true, { s with inbox := Function.update s.inbox fd (s.inbox fd ++ [msg]) })
    | .refuses => .ok (false, s)
    | .raises => .error .sigpipe

/-- `commandline` on one line `<op> a b`, where `rand` is what `rand()` returns in
`rand_client`. The client picked is returned with the state.
SOURCE: cw10/zad1/server.c:205-234 -/
def commandline (oper : Operation) (num1 num2 : ν) (rand : ℕ) (s : Exchange ν) :
    Except Stop (Fd × Exchange ν) := do
  let msg := { s.commandMsg with oper }
  let client ← attempt (randClient rand s.server.registry)
  let s := if client = -1
    then { s with commandMsg := msg, reports := s.reports ++ ["No clients"] }
    else { s with commandMsg :=
      { msg with counter := s.taskCounter, num1, num2, type := .msg } }
  let (written, s) ← write client s.commandMsg s
  if written then
    return (client, { s with taskCounter := s.taskCounter + 1 })
  else
    .error (.failure (.exitError "write"))

/-- Write the `PING` of `ping_task` to one client after the other; whether it was written is
not looked at.
SOURCE: cw10/zad1/server.c:248 -/
def writePings : List Fd → Exchange ν → Except Stop (Exchange ν)
  | [], s => .ok s
  | fd :: fds, s => do
    let (_, s) ← write fd s.pingMsg s
    writePings fds s

/-- A round of pings; the descriptors written to are returned with the state.
SOURCE: cw10/zad1/server.c:245-251 -/
def pingTask (s : Exchange ν) : Except Stop (List Fd × Exchange ν) := do
  let (fds, registry) ← attempt (pingLoop 0 s.server.registry)
  let s ← writePings fds { s with server := { s.server with registry } }
  return (fds, s)

/-- `serverTask` accepts a connection, over `AF_INET` or not. Its client has written its `HELLO`
first of all.
SOURCE: cw10/zad1/server.c:88-112, cw10/zad1/client.c:155-161 -/
def acceptOne (fd : Fd) (net : Bool) (hello : Message ν) (s : Exchange ν) :
    Except Stop (Exchange ν) := do
  let socket := ⟨[{ hello with type := .hello }], .again⟩
  let server ← attempt (acceptLoop [⟨fd, true, socket⟩] s.server)
  return { s with
    server
    inbox := Function.update s.inbox fd []
    left := s.left.erase fd
    net := if net then insert fd s.net else s.net.erase fd
    outlet := Function.update s.outlet fd .takes
    armed := insert fd s.armed }

/-- `serverTask` closes a connection, for one of its reasons other than an `EXIT`.
SOURCE: cw10/zad1/server.c:78-87, cw10/zad1/server.c:117-125 -/
def closeOne (fd : Fd) (s : Exchange ν) : Except Stop (Exchange ν) := do
  let (_, server) ← attempt (dropClient fd 0 s.server)
  return { s with server }

/-- `serverTask` receives the message `msg`, the oldest on its connection, behind which `rest`
waits. It is done with the event when nothing is left.
SOURCE: cw10/zad1/server.c:114-159 -/
def receiveOne (fd : Fd) (msg : Message ν) (rest : List (Message ν)) (s : Exchange ν) :
    Except Stop (Exchange ν) := do
  let socket := { s.server.sockets fd with waiting := rest }
  let (_, server) ← attempt (receive fd msg 0
    { s.server with sockets := Function.update s.server.sockets fd socket })
  return { s with server, armed := if rest = [] then s.armed.erase fd else s.armed }

/-! ## The client -/

/-- `respond`. SOURCE: cw10/zad1/client.c:134-153 -/
def respond (evaluate : Operation → ν → ν → ν) (msg : Message ν) : Message ν :=
  { msg with
    type := .answer
    counter := msg.counter + 1
    answer := evaluate msg.oper msg.num1 msg.num2 }

/-- What a client writes when it receives a message, or `none` when it ends.
SOURCE: cw10/zad1/client.c:104-125 -/
def clientMain (evaluate : Operation → ν → ν → ν) (msg : Message ν) : Option (List (Message ν)) :=
  match msg.type with
  | .msg => some [respond evaluate msg]
  | .ping => some [{ msg with type := .ping }]
  | .exit => none
  | .hello => some []
  | .answer => some []

/-- A client is gone. -/
def Exchange.leave (s : Exchange ν) (fd : Fd) : Exchange ν :=
  { s with
    left := insert fd s.left
    outlet := if fd ∈ s.net then s.outlet else Function.update s.outlet fd .raises }

/-- The client of a connection receives the message `msg`, the oldest sent to it, behind which
`rest` waits. What it writes makes an event of the connection. -/
def clientOne (evaluate : Operation → ν → ν → ν) (fd : Fd) (msg : Message ν)
    (rest : List (Message ν)) (s : Exchange ν) : Exchange ν :=
  let s := { s with inbox := Function.update s.inbox fd rest }
  match clientMain evaluate msg with
  | none => s.leave fd
  | some written =>
    let socket := { s.server.sockets fd with waiting := (s.server.sockets fd).waiting ++ written }
    { s with
      server := { s.server with sockets := Function.update s.server.sockets fd socket }
      armed := if written = [] then s.armed else insert fd s.armed }

/-! ## The machine -/

/-- What happens next: a connection is accepted, its client goes away, the system comes to treat
writes to it in another way, its event is passed over, the server closes it, the server receives a
message from it, its client receives one, a command line is entered, or a round of pings begins. -/
inductive Choice (ν : Type)
  | accept (fd : Fd) (net : Bool) (hello : Message ν)
  | leave (fd : Fd)
  | turn (fd : Fd) (outlet : Outlet)
  | lose (fd : Fd)
  | close (fd : Fd)
  | receive (fd : Fd)
  | client (fd : Fd)
  | command (oper : Operation) (num1 num2 : ν) (rand : ℕ)
  | pingRound

/-- What a step shows. -/
inductive Event (ν : Type)
  | connect (fd : Fd)
  | leave (fd : Fd)
  | turn (fd : Fd)
  | lose (fd : Fd)
  | close (fd : Fd)
  | hear (fd : Fd)
  | reply (fd : Fd)
  | issue (task : Task ν) (fd : Fd)
  | ping (fds : List Fd)
  deriving DecidableEq, Repr

/-- One step. There is none where the choice cannot come up, or where the server ends. -/
def Exchange.next (evaluate : Operation → ν → ν → ν) (s : Exchange ν) :
    Choice ν → Option (Event ν × Exchange ν)
  | .accept fd net hello =>
    if 0 ≤ fd ∧ fd ∉ s.server.registry.openFds then do
      let s ← (acceptOne fd net hello s).toOption
      return (.connect fd, s)
    else none
  | .leave fd =>
    if fd ∈ s.server.registry.openFds then
      some (.leave fd, s.leave fd)
    else none
  | .turn fd outlet =>
    -- over `AF_UNIX` it is settled when the client goes, and none raises before
    if fd ∈ s.server.registry.openFds ∧ (fd ∈ s.left → fd ∈ s.net) ∧
        (outlet = .raises → fd ∈ s.left) then
      some (.turn fd, { s with outlet := Function.update s.outlet fd outlet })
    else none
  | .lose fd =>
    if fd ∈ s.armed then
      some (.lose fd, { s with armed := s.armed.erase fd })
    else none
  | .close fd =>
    if fd ∈ s.server.registry.openFds then do
      let s ← (closeOne fd s).toOption
      return (.close fd, s)
    else none
  | .receive fd =>
    match (s.server.sockets fd).waiting with
    | [] => none
    | msg :: rest =>
      if fd ∈ s.server.registry.openFds ∧ fd ∈ s.armed then do
        let s ← (receiveOne fd msg rest s).toOption
        return (.hear fd, s)
      else none
  | .client fd =>
    match s.inbox fd with
    | [] => none
    | msg :: rest =>
      if fd ∈ s.server.registry.openFds ∧ fd ∉ s.left then
        some (.reply fd, clientOne evaluate fd msg rest s)
      else none
  | .command oper num1 num2 rand => do
    let (fd, s) ← (commandline oper num1 num2 rand s).toOption
    return (.issue ⟨oper, num1, num2⟩ fd, s)
  | .pingRound => do
    let (fds, t) ← (pingTask s).toOption
    return (.ping (fds.filter fun fd => s.Takes fd), t)

/-- The server has started, and no client has connected. What the two `msg` hold is not known,
except that `ping_task` has set the type of its own.
SOURCE: cw10/zad1/server.c:26, cw10/zad1/server.c:200, cw10/zad1/server.c:241-242 -/
def Exchange.initial (commandMsg pingMsg : Message ν) : Exchange ν where
  server := .start
  taskCounter := 0
  commandMsg := commandMsg
  pingMsg := { pingMsg with type := .ping }
  reports := []
  inbox := fun _ => []
  left := ∅
  net := ∅
  outlet := fun _ => .takes
  armed := ∅

/-- The server and its clients. -/
def exchange (evaluate : Operation → ν → ν → ν) : Machine (Exchange ν) (Choice ν) (Event ν) where
  init s := ∃ commandMsg pingMsg, s = .initial commandMsg pingMsg
  next := Exchange.next evaluate

/-! ## What the exchange is for -/

/-- The result of a task. -/
def Task.result (evaluate : Operation → ν → ν → ν) (t : Task ν) : ν :=
  evaluate t.oper t.num1 t.num2

/-- The tasks by their numbers: those issued, where each of them is on its way to a client
(`asked`) or back (`replied`), and those answered. A message that is about no task is `none`. -/
structure Ledger (ν : Type) where
  issued : List (Task ν)
  asked : Fd → List (Option ℕ)
  replied : Fd → List (Option ℕ)
  answered : List ℕ

/-- No task has been issued. -/
def Ledger.empty : Ledger ν where
  issued := []
  asked := fun _ => []
  replied := fun _ => []
  answered := []

/-- What an event makes of it. A new connection starts with a greeting. -/
def Ledger.after (L : Ledger ν) : Event ν → Ledger ν
  | .connect fd => { L with
      asked := Function.update L.asked fd []
      replied := Function.update L.replied fd [none] }
  | .issue task fd => { L with
      issued := L.issued ++ [task]
      asked := Function.update L.asked fd (L.asked fd ++ [some L.issued.length]) }
  | .ping fds => { L with
      asked := fds.foldl (fun asked fd => Function.update asked fd (asked fd ++ [none])) L.asked }
  | .reply fd => { L with
      asked := Function.update L.asked fd (L.asked fd).tail
      replied := Function.update L.replied fd (L.replied fd ++ (L.asked fd).take 1) }
  | .hear fd => { L with
      replied := Function.update L.replied fd (L.replied fd).tail
      answered := L.answered ++ ((L.replied fd).take 1).filterMap id }
  | .leave _ => L
  | .turn _ => L
  | .lose _ => L
  | .close _ => L

/-- The ledger of the events of a run. -/
def ledger (events : List (Event ν)) : Ledger ν :=
  events.foldl Ledger.after .empty

end SystemyOperacyjne.ComputeServer
