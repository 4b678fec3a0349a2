import Mathlib
import GraphExec.Proofs.Beginning
import GraphExec.Proofs.Loading.Refetch
import GraphExec.Proofs.Run.Awaiting
import GraphExec.Schema.Builder

/-!
# Batches

Whenever a bucket is awaited, nothing is ready, nothing is parked at a less depth, and one fetch has
been made at each source for all that was asked for. Its steps are then resumed in the order in
which they were parked. In the end nothing is left to do.
-/

namespace GraphExec

variable {σ : Type}

namespace Schedule

variable {schedule now : Schedule σ} {owner : Nat} {job : Job σ} {weave : Weave σ}

end Schedule

namespace Schema

variable {schema : Schema σ} {config : Config} {requests : List Request} {app : σ}
  {observe : Event → σ → σ} {first : Schedule σ}

end Schema

end GraphExec
