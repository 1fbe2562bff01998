import SystemyOperacyjne.Library.Framing
import SystemyOperacyjne.Library.Transition

/-!
# The bytes under the messages of the compute server

What `serverTask` of `cw10/zad1/server.c` receives on one connection, byte by byte. The client
writes whole `struct message`s; their bytes become available to the server in portions of any
size, and each portion makes an event of the connection, which is watched edge-triggered. When
`serverTask` comes to the event, it receives until nothing is left; its loop over the events may
also pass over it. The socket was accepted with `SOCK_NONBLOCK`, so `recv` does not wait for a whole
message, whatever `MSG_WAITALL` says: it returns a non-empty part of what is available, or
fails with `EAGAIN`. What it returns is at the front of `msg`; the rest of `msg` is left from
before. The test of `count` against `sizeof(msg)` is commented out in the source, so every
`msg` goes to the `switch`.

An `EXIT`, an error and a hang-up, and a `recv` that finds the end of the stream or fails in
another way make `serverTask` call `close_client`, which closes the connection if it is listed in
the table of clients; what has not been received by then never is.
-/

set_option autoImplicit false

namespace SystemyOperacyjne.ComputeServer

open Library

/-- SOURCE: cw10/zad1/deff.h:3 -/
abbrev MAXNAMELEN : ℕ := 16

/-- `sizeof(struct message)`: six fields of four bytes each, and the name.
SOURCE: cw10/zad1/deff.h:13-21 -/
abbrev sizeofMessage : ℕ := 6 * 4 + MAXNAMELEN

/-- The bytes of a `struct message`. -/
abbrev RawMessage := Vector UInt8 sizeofMessage

/-- `msg.type`, whose least significant byte comes first.
SOURCE: cw10/zad1/deff.h:14 -/
def typeOf (msg : RawMessage) : ℕ :=
  msg[0].toNat + 256 * (msg[1].toNat + 256 * (msg[2].toNat + 256 * msg[3].toNat))

/-- SOURCE: cw10/zad1/deff.h:6-8 -/
abbrev EXIT : ℕ := 4

/-- A connection: the bytes on their way from the client to the server, those that the server cannot
receive yet and those that it can; whether the server has not closed it; whether it has an event
that `serverTask` has not come to; and whether `serverTask` is receiving from it. -/
structure Transit where
  coming : List UInt8
  available : List UInt8
  isOpen : Bool
  event : Bool
  receiving : Bool

/-- What happens next: `count` bytes become available; `serverTask` comes to the event, passes over
it, or comes to one that tells of an error or a hang-up; `recv` returns `count` bytes into a `msg`
that held `old`, fails with `EAGAIN`, or finds the end of the stream or fails in another way. Where
`close_client` is called, `listed` says whether it finds the connection in its table. -/
inductive Delivery
  | arrive (count : ℕ)
  | serve
  | lose
  | hangUp (listed : Bool)
  | recv (count : ℕ) (old : RawMessage) (listed : Bool)
  | again
  | stop (listed : Bool)

/-- What a step shows. -/
inductive RecvEvent
  | arrived
  | served
  | lost
  | hungUp
  | received (bytes : List UInt8) (old : RawMessage)
  | again
  | stopped
  deriving DecidableEq

/-- The message that is in `msg` after `recv` makes `serverTask` close the connection. -/
def Transit.Closes (s : Transit) (count : ℕ) (old : RawMessage) (listed : Bool) : Prop :=
  typeOf (overwrite (s.available.take count) old) = EXIT ∧ listed = true

instance (s : Transit) (count : ℕ) (old : RawMessage) (listed : Bool) :
    Decidable (s.Closes count old listed) :=
  inferInstanceAs (Decidable (_ ∧ _))

/-- One step. Where the connection has been closed, the next `recv` fails and ends the loop.
SOURCE: cw10/zad1/server.c:75-87, cw10/zad1/server.c:114-160 -/
def Transit.next (s : Transit) : Delivery → Option (RecvEvent × Transit)
  | .arrive count =>
    if 0 < count ∧ count ≤ s.coming.length then
      some (.arrived, { s with
        coming := s.coming.drop count
        available := s.available ++ s.coming.take count
        event := true })
    else none
  | .serve =>
    if s.isOpen ∧ s.event ∧ ¬ s.receiving then
      some (.served, { s with event := false, receiving := true })
    else none
  | .lose => if s.event then some (.lost, { s with event := false }) else none
  | .hangUp listed =>
    if s.isOpen ∧ ¬ s.receiving then
      some (.hungUp, { s with event := false, isOpen := !listed })
    else none
  | .recv count old listed =>
    if s.receiving ∧ 0 < count ∧ count ≤ s.available.length ∧ count ≤ sizeofMessage then
      some (.received (s.available.take count) old, { s with
        available := s.available.drop count
        isOpen := !decide (s.Closes count old listed)
        receiving := !decide (s.Closes count old listed) })
    else none
  | .again =>
    if s.receiving ∧ s.available = [] then some (.again, { s with receiving := false }) else none
  | .stop listed =>
    if s.receiving then
      some (.stopped, { s with receiving := false, isOpen := !listed })
    else none

/-- A connection on which the client writes the messages `ms`. -/
def transit (ms : List RawMessage) : Machine Transit Delivery RecvEvent where
  init s := s = ⟨stream ms, [], true, false, false⟩
  next := Transit.next

/-- What the successive calls of `recv` have returned, and what `msg` held before each. -/
def received (events : List RecvEvent) : Chunks UInt8 sizeofMessage :=
  events.filterMap fun
    | .received bytes old => some (bytes, old)
    | _ => none

/-- The messages that have reached the `switch`. -/
def switched (events : List RecvEvent) : List RawMessage :=
  (received events).buffers

/-- Nothing more will be received: nothing is coming, and `serverTask` has no event to come to, or
has closed the connection. -/
def Transit.Settled (s : Transit) : Prop :=
  s.coming = [] ∧ (s.isOpen → ¬ s.event ∧ ¬ s.receiving)

/-- Nothing is lost: `recv` returns a whole message, no event is passed over while there is
something to receive, and the connection is not closed before everything has been received. -/
def Transit.Lossless (s : Transit) : Delivery → Prop
  | .arrive _ | .serve | .again => True
  | .lose => s.available = []
  | .hangUp listed | .stop listed => s.available = [] ∧ (listed → s.coming = [])
  | .recv count old listed => count = sizeofMessage ∧
      (s.Closes count old listed → s.available.length = count ∧ s.coming = [])

instance (s : Transit) : (d : Delivery) → Decidable (s.Lossless d)
  | .arrive _ | .serve | .again => inferInstanceAs (Decidable True)
  | .lose => inferInstanceAs (Decidable (s.available = []))
  | .hangUp _ | .stop _ => inferInstanceAs (Decidable (_ ∧ _))
  | .recv _ _ _ => inferInstanceAs (Decidable (_ ∧ _))

/-- The same connection, as long as nothing is lost on it. -/
def sparing (ms : List RawMessage) : Machine Transit Delivery RecvEvent :=
  (transit ms).restricted Transit.Lossless

end SystemyOperacyjne.ComputeServer
