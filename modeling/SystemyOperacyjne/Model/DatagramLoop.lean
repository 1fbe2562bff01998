import SystemyOperacyjne.Model.DatagramServer

/-!
# The loops of the datagram server

`serverTask` of `cw10/zad2/server.c`, one call at a time: `epoll_wait` reports the sockets on
which datagrams wait, a loop goes through what it has reported, and the loop within it calls
`recvfrom` and works on the message that it gives. `recvfrom` waits while nothing is queued on
the socket; a step that cannot be taken is `none`. Nothing arrives during a run.
-/

set_option autoImplicit false

namespace SystemyOperacyjne.DatagramServer

open Library ComputeServer

def MAX_EPOLL_EVENTS : ℕ := 24

/-- Where `serverTask` is. -/
inductive Control
  | epollWait  -- at `epoll_wait`
  | event (events : List Ready) (i : ℕ)  -- at the test `i<regievents`
  | recvfrom (events : List Ready) (i : ℕ) (fd : Fd)  -- at `recvfrom`
  deriving DecidableEq, Repr

variable {ν κ : Type}

/-- `serverTask` with what it works on. -/
structure Serving (ν κ : Type) where
  control : Control
  hub : Hub ν κ

/-- What `epoll_wait` can report: each socket with a datagram, once and for reading. It does not
return while there is none. -/
def reported (n : Sockets κ) (s : Hub ν κ) (events : List Ready) : Bool :=
  !events.isEmpty && events.length ≤ MAX_EPOLL_EVENTS && (events.map Ready.fd).Nodup &&
    events.all (fun e => (e.fd = n.unSock || e.fd = n.netSock) && !(s.queue e.fd).isEmpty &&
      !e.err && !e.hup && !e.rdhup) &&
    [n.unSock, n.netSock].all fun fd => (s.queue fd).isEmpty || (events.map Ready.fd).contains fd

/-- A socket of the server itself. -/
def Sockets.own (n : Sockets κ) (fd : Fd) : Bool :=
  fd = n.netSock || fd = n.unSock

/-- The value of `i` behind the `switch`: the loop of the `PING` case has used it.
SOURCE: cw10/zad2/server.c:104-113 -/
def indexAfter (fd : Fd) (msg : Message ν) (i : ℕ) (r : Registry) : ℕ :=
  if msg.type = .ping then ((countPing fd 0 r).toOption.map Prod.fst).getD i else i

/-- One step of `serverTask`; `events` is what `epoll_wait` reports if it is called.
SOURCE: cw10/zad2/server.c:63-132 -/
def serverTask (n : Sockets κ) (events : List Ready) (t : Serving ν κ) : Option (Serving ν κ) :=
  match t.control with
  | .epollWait =>
    if reported n t.hub events then some { t with control := .event events 0 } else none
  | .event events i =>
    match events[i]? with
    | none => some { t with control := .epollWait }
    | some event =>
      if event.err ∨ event.hup ∨ event.rdhup then  -- the two branches do the same
        if n.own event.fd then some { t with control := .event events (i + 1) }
        else do
          let registry ← (closeClient event.fd t.hub.registry).toOption
          return { control := .event events (i + 1), hub := { t.hub with registry } }
      else some { t with control := .recvfrom events i event.fd }
  | .recvfrom events i fd =>
    match t.hub.queue fd with
    | [] => none
    | (_, msg) :: rest =>
      if fd ∈ t.hub.registry.openFds then do
        let hub ← (receive fd msg { t.hub with
          receiving := some fd, queue := Function.update t.hub.queue fd rest }).toOption
        return { control := .recvfrom events (indexAfter fd msg i t.hub.registry) fd, hub }
      else none  -- `recvfrom` fails, and `exitError` ends the server

/-- `serverTask`, from a call of `epoll_wait` on. -/
def dispatcher (n : Sockets κ) (hub : Hub ν κ) : Machine (Serving ν κ) (List Ready) Unit where
  init t := t = { control := .epollWait, hub := hub }
  next t events := (serverTask n events t).map fun t => ((), t)

end SystemyOperacyjne.DatagramServer
