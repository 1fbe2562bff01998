import SystemyOperacyjne.Analysis.TaskExchangeSteps

/-!
# When a command line issues its task

`commandline` writes to whatever `rand_client` returns. Where that is `-1`, because there is
no client, it reports so, but writes all the same, and the failure of the write ends the
server. So it does where `close_client` has left a closed descriptor in the table, and where the
system does not take what is written to the connection.
-/

set_option autoImplicit false

namespace SystemyOperacyjne.ComputeServer

open Library

variable {ν : Type} {evaluate : Operation → ν → ν → ν} {s : Exchange ν}

/-- A message as it may stand on the stack. -/
def someMessage : Message ℤ :=
  ⟨.msg, 0, 0, 0, 0, .add, ""⟩

/-- A machine on which all four operations add. -/
def adding (_ : Operation) (a b : ℤ) : ℤ :=
  a + b

end SystemyOperacyjne.ComputeServer
