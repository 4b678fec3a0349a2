import GraphExec.Run.Completion

/-!
# Resolving items of lists

The directives of the field are run for each item of a list before the item is looked at. An item
that takes time is waited for; then its position is completed. Nothing of it is done any more once
the list is dead.
-/

namespace GraphExec

namespace ItemStep

variable {σ : Type}

/-- The step in another state. -/
def goTo (step : ItemStep σ) (state : ItemState σ) : Progress σ :=
  .again (.item { step with state })

/-- Parks the step in a state. -/
def park (step : ItemStep σ) (state : ItemState σ) (wait : Wait σ) : Engine σ (Progress σ) := do
  let draft ← Engine.draft
  return .parked (.item { step with state }) (draft.depth step.position.parent + 1) wait

/-- One transition of an item whose list is alive. -/
def advanceAlive (step : ItemStep σ) (job : Job σ) : Engine σ (Progress σ) := do
  let path := step.position.path (← Engine.draft)
  match step.state with
  | .runDirectives cursor item =>
    match ← cursor.advance job step.position.site.owner path with
    | .again cursor => return step.goTo (.runDirectives cursor item)
    | .passed => return step.goTo (.resolved (.ok item))
    | .skipped =>
      step.position.skip
      return .finished
    | .stopped result => return step.goTo (.resolved result)
    | .waiting cursor wait => step.park (.runDirectives cursor item) wait
  | .resolved result =>
    match ← Engine.settle job path result with
    | .lazy lazy => step.park .awaitingValue (.value (.start lazy))
    | value => return step.goTo (.settled value)
  | .settled value =>
    match ← step.position.complete job value with
    | .done => return .finished
    | .waiting lazy => step.park .awaitingValue (.value (.start lazy))
    | .replaced value => return step.goTo (.settled value)
  | .awaitingValue => throw (.invariant (.ranWhileParked .listItem))

/-- One transition of an item. -/
def advance (step : ItemStep σ) (job : Job σ) : Engine σ (Progress σ) := do
  if (← Engine.draft).isDead step.position.parent then return .finished
  else step.advanceAlive job

/-- Hands an item what it waits for. -/
def resume (step : ItemStep σ) (resumption : Resumption σ) : Except FatalError (ItemStep σ) :=
  match step.state, resumption with
  | .runDirectives cursor item, answer => do
    return { step with state := .runDirectives (← cursor.resume answer) item }
  | .awaitingValue, .value result => .ok { step with state := .resolved result }
  | _, other => .error (.invariant (.strayAnswer .listItem other.kind))

end ItemStep

end GraphExec
