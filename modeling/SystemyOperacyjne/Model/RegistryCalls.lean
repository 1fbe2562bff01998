import SystemyOperacyjne.Model.ClientRegistry

/-!
# The calls on the client registry

Everything the three threads of `cw10/zad1/server.c` do to the registry, one call after the
other: `serverTask` enters a new connection, closes one and counts a `PING`, `ping_task`
starts a round of pings and later looks which clients have answered, and `commandline` picks
a client. All but the last hold `lock`, so a call is one step; `rand_client` does not, and
what a registry that changes during it would add is left out.

The registry of `cw10/zad2/server.c` is worked on by the same functions.
-/

set_option autoImplicit false

namespace SystemyOperacyjne.ComputeServer

open Library

/-- `rand_client`, where `rand` is what `rand()` returns; `-1` is no client.
SOURCE: cw10/zad1/server.c:333-340 -/
def randClient (rand : ℕ) (r : Registry) : Except Failure Fd :=
  if r.clientFdsSize = -1 then
    .ok (-1)
  else if r.clientFdsSize = 0 then
    load .outOfBounds r.clientFds 0
  else
    load .outOfBounds r.clientFds ((rand : ℤ).tmod (r.clientFdsSize + 1))

/-- The loop of `ping_task` that starts a round, from index `i` on: the client has not
answered yet, and a `PING` is written to it. The descriptors written to are returned in order.
SOURCE: cw10/zad1/server.c:246-250 -/
def pingLoop (i : ℕ) (r : Registry) : Except Failure (List Fd × Registry) :=
  if i ≤ r.clientFdsSize then do
    let clientsPong ← store .outOfBounds r.clientsPong i 0
    let fd ← load .outOfBounds r.clientFds i
    let (fds, r) ← pingLoop (i + 1) { r with clientsPong }
    return (fd :: fds, r)
  else
    .ok ([], r)
termination_by (r.clientFdsSize + 1 - i).toNat

/-- The loop of `ping_task` that ends a round, from index `i` on. It only looks.
SOURCE: cw10/zad1/server.c:255-260 -/
def pongLoop (i : ℕ) (r : Registry) : Except Failure Unit :=
  if i ≤ r.clientFdsSize then do
    let _ ← load .outOfBounds r.clientsPong i
    pongLoop (i + 1) r
  else
    .ok ()
termination_by (r.clientFdsSize + 1 - i).toNat

/-- A call on the registry: `add_client` for the connection `accept4` has just returned,
`close_client`, the two loops of `ping_task`, the count of a `PING` received, `rand_client`. -/
inductive RegistryCall
  | add (fd : Fd)
  | close (fd : Fd)
  | pingRound
  | pongCheck
  | ping (fd : Fd)
  | pick (rand : ℕ)
  deriving DecidableEq, Repr

/-- What a call does to the registry. -/
def call (r : Registry) : RegistryCall → Except Failure Registry
  | .add fd => addClient fd { r with openFds := insert fd r.openFds }
  | .close fd => closeClient fd r
  | .pingRound => do
    let (_, r) ← pingLoop 0 r
    return r
  | .pongCheck => do
    pongLoop 0 r
    return r
  | .ping fd => do
    let (_, r) ← countPing fd 0 r
    return r
  | .pick rand => do
    let _ ← randClient rand r
    return r

/-- What a sequence of calls does to the registry. -/
def callAll (calls : List RegistryCall) (r : Registry) : Except Failure Registry :=
  calls.foldlM call r

/-- The table is full. -/
def Registry.Full (r : Registry) : Prop :=
  r.clientFdsSize + 1 = MAXCLIENTS

instance (r : Registry) : Decidable r.Full :=
  inferInstanceAs (Decidable (r.clientFdsSize + 1 = MAXCLIENTS))

/-! ## What the counts are for -/

/-- What a call makes of the number of answers credited to the client `fd`. -/
def RegistryCall.credited (fd : Fd) (n : ℕ) : RegistryCall → ℕ
  | .add fd' => if fd' = fd then 0 else n
  | .pingRound => 0
  | .ping fd' => if fd' = fd then n + 1 else n
  | _ => n

/-- The number of `PING` messages received from the client `fd` since the last round of pings
or, where that is later, since the client was registered. -/
def credit (fd : Fd) (calls : List RegistryCall) : ℕ :=
  calls.foldl (RegistryCall.credited fd) 0

/-- The counts of the registry that the calls have led to are the credits of its clients. -/
def Registry.Counts (r : Registry) (calls : List RegistryCall) : Prop :=
  ∀ (k : ℕ) (fd : Fd), r.registered[k]? = some fd →
    r.clientsPong[k]? = some (credit fd calls : ℤ)

end SystemyOperacyjne.ComputeServer
