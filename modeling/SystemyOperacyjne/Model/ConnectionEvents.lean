import SystemyOperacyjne.Model.ServerTask

/-!
# Histories of connections

The life of the compute server as its connections see it: clients connect, and their
connections end with a hang-up, a `recv` that returns `0` or an `EXIT` message. Each of these
events reaches the server as one entry of `events`, and `serve` hands it to `serverTask`'s
own code. Beside it stands what the registry is for: `connections` lists the connections of a
history that have not ended, in the order in which they were made.
-/

set_option autoImplicit false

namespace SystemyOperacyjne.ComputeServer

/-- How a connection ends. An `EXIT` message comes with whatever its other fields hold. -/
inductive Closing (ν : Type)
  | error
  | hangUp
  | readHangUp
  | zeroRead
  | exitMessage (body : Message ν)
  deriving DecidableEq, Repr

/-- A client connects, through the Unix socket or the Internet one, and gets the descriptor
`fd`; or the connection `fd` ends. -/
inductive ConnEvent (ν : Type)
  | accept (viaUnix : Bool) (fd : Fd)
  | close (how : Closing ν) (fd : Fd)
  deriving DecidableEq, Repr

variable {ν : Type}

/-- What `epoll_wait` reports about the connection that ends. -/
def Closing.ready (fd : Fd) : Closing ν → Ready
  | .error => ⟨fd, true, false, false⟩
  | .hangUp => ⟨fd, false, true, false⟩
  | .readHangUp => ⟨fd, false, false, true⟩
  | .zeroRead => ⟨fd, false, false, false⟩
  | .exitMessage _ => ⟨fd, false, false, false⟩

/-- What `recv` finds on it. -/
def Closing.socket : Closing ν → Socket ν
  | .error => ⟨[], .failure⟩
  | .hangUp => ⟨[], .endOfStream⟩
  | .readHangUp => ⟨[], .endOfStream⟩
  | .zeroRead => ⟨[], .endOfStream⟩
  | .exitMessage body => ⟨[{ body with type := .exit }], .again⟩

/-- The server handles one event of the history. -/
def serve (l : Listening) (s : Server ν) : ConnEvent ν → Except Failure (Server ν)
  | .accept viaUnix fd => do
    let listener := if viaUnix then l.unSock else l.netSock
    let backlog := Function.update s.backlog listener [⟨fd, true, ⟨[], .again⟩⟩]
    let (_, s) ← handleEvent l ⟨listener, false, false, false⟩ 0 { s with backlog }
    return s
  | .close how fd => do
    let sockets := Function.update s.sockets fd how.socket
    let (_, s) ← handleEvent l (how.ready fd) 0 { s with sockets }
    return s

/-- The server handles a whole history. -/
def serveAll (l : Listening) (history : List (ConnEvent ν)) (s : Server ν) :
    Except Failure (Server ν) :=
  history.foldlM (serve l) s

/-- The server before the first connection. -/
def Server.start : Server ν where
  registry := .empty
  printed := []
  sockets := fun _ => ⟨[], .again⟩
  backlog := fun _ => []

/-! ## What the registry is for -/

/-- The connections after an event: a new one is the last, an ended one is gone. -/
def ConnEvent.after (live : List Fd) : ConnEvent ν → List Fd
  | .accept _ fd => live ++ [fd]
  | .close _ fd => live.erase fd

/-- The connections of a history that have not ended, in the order in which they were made. -/
def connections (history : List (ConnEvent ν)) : List Fd :=
  history.foldl ConnEvent.after []

/-- The event can come next: a new descriptor is not one in use, no more than `MAXCLIENTS`
connections are open at once, and what ends is open. -/
def ConnEvent.Allowed (l : Listening) (live : List Fd) : ConnEvent ν → Prop
  | .accept _ fd => fd ∉ live ∧ l.has fd = false ∧ live.length < MAXCLIENTS
  | .close _ fd => fd ∈ live

instance (l : Listening) (live : List Fd) (e : ConnEvent ν) : Decidable (e.Allowed l live) :=
  match e with
  | .accept _ fd => inferInstanceAs
      (Decidable (fd ∉ live ∧ l.has fd = false ∧ live.length < MAXCLIENTS))
  | .close _ fd => inferInstanceAs (Decidable (fd ∈ live))

/-- Every event of the history could come when it came. -/
def Admissible (l : Listening) (history : List (ConnEvent ν)) : Prop :=
  ∀ (k : ℕ) (h : k < history.length),
    (history.get ⟨k, h⟩).Allowed l (connections (history.take k))

instance (l : Listening) (history : List (ConnEvent ν)) : Decidable (Admissible l history) :=
  Nat.decidableBallLT history.length fun k h =>
    (history.get ⟨k, h⟩).Allowed l (connections (history.take k))

/-- The registry lists exactly the connections `live`, each once, in this order, and these
are the descriptors the process has open. -/
structure Registry.Lists (r : Registry) (live : List Fd) : Prop where
  entries : r.registered = live
  size : r.clientFdsSize + 1 = live.length
  nodup : live.Nodup
  isOpen : ∀ fd, fd ∈ r.openFds ↔ fd ∈ live

end SystemyOperacyjne.ComputeServer
