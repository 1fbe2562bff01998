import SystemyOperacyjne.Analysis.ServerTaskEvents
import SystemyOperacyjne.Model.RegistryCalls

/-!
# What the handling of one event leaves behind

What an event of a batch is about is in its flags and in what waits on its descriptor, and these
tell which calls on the registry it comes to: `add_client` for each connection that waits on a
listening socket, a count for each `PING` that is received, and `close_client` for an `EXIT`, a
hang-up, an error and the end of a stream. `Ready.after` puts these calls together, without the
loops of `serverTask`; `handleEvent_desk` says that they are all that its handling leaves behind.
-/

set_option autoImplicit false

namespace SystemyOperacyjne.ComputeServer

open Library

variable {ν : Type}

/-! ## What an event comes to -/

/-- An error or a hang-up is reported. -/
def Ready.flagged (event : Ready) : Bool :=
  event.err || event.hup || event.rdhup

/-- The calls that the messages on an open connection come to, and what `recv` finds behind them. A
`PING` is counted. An `EXIT` closes the connection if it is registered (`closes`), and then the next
`recv` fails; otherwise the call for it finds nothing. -/
def messageCalls (fd : Fd) (closes : Bool) (ending : Ending) : List (Message ν) → List RegistryCall
  | [] => if ending = .again then [] else [.close fd]
  | msg :: rest =>
    match msg.type with
    | .ping => .ping fd :: messageCalls fd closes ending rest
    | .exit =>
      if closes then [.close fd, .close fd] else .close fd :: messageCalls fd closes ending rest
    | .msg | .answer | .hello => messageCalls fd closes ending rest

/-- The messages that are not received: those behind the `EXIT` that closes the connection. -/
def unheard (closes : Bool) : List (Message ν) → List (Message ν)
  | [] => []
  | msg :: rest => if msg.type = .exit ∧ closes then rest else unheard closes rest

/-- The calls that a connection with something to receive comes to. -/
def Desk.receiveCalls (d : Desk ν) (fd : Fd) : List RegistryCall :=
  if fd ∈ d.registry.openFds then
    messageCalls fd (fd ∈ d.registry.registered) (d.sockets fd).ending (d.sockets fd).waiting
  else [.close fd]

/-- What waits on the connections after that. -/
def Desk.received (d : Desk ν) (fd : Fd) : Fd → Socket ν :=
  if fd ∈ d.registry.openFds then
    Function.update d.sockets fd
      { d.sockets fd with
        waiting := unheard (fd ∈ d.registry.registered) (d.sockets fd).waiting }
  else d.sockets

/-- The calls that connections waiting on a listening socket come to. -/
def acceptCalls (ps : List (Pending ν)) : List RegistryCall :=
  (ps.takeWhile Pending.watched).map fun p => .add p.fd

/-- What waits on the connections after they have been accepted. -/
def accepted (ps : List (Pending ν)) (sockets : Fd → Socket ν) : Fd → Socket ν :=
  ps.foldl (fun sockets p => Function.update sockets p.fd p.socket) sockets

/-- **What an event makes of the desk**. -/
def Ready.after (l : Listening) (event : Ready) (d : Desk ν) : Except Failure (Desk ν) :=
  if event.flagged then
    if l.has event.fd then .ok d
    else (callAll [.close event.fd] d.registry).map fun registry => { d with registry }
  else if l.has event.fd then do
    let registry ← callAll (acceptCalls (d.backlog event.fd)) d.registry
    if (d.backlog event.fd).all Pending.watched then
      return {
        registry
        sockets := accepted (d.backlog event.fd) d.sockets
        backlog := Function.update d.backlog event.fd [] }
    else .error (.exitError "epoll_ctl")
  else
    (callAll (d.receiveCalls event.fd) d.registry).map fun registry =>
      { d with registry, sockets := d.received event.fd }

/-! ## The loops of `serverTask` come to this -/

section Loops

variable {fd : Fd} {s : Server ν}

end Loops

end SystemyOperacyjne.ComputeServer
