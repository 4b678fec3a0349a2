import GraphExec.Run.Field

/-!
# Building objects

An object of the response is built in order: the concrete type of its value is found, the value is
authorized, the object is allocated, its selections are grouped, and each group is left to a step
of its own. A value that may not be shown, or that fails on the way, is replaced by something
else.
-/

namespace GraphExec

namespace ObjectTarget

variable {σ : Type}

/-- Whether the object is still wanted. -/
def isAlive (target : ObjectTarget σ) (draft : Draft) : Bool :=
  match target with
  | .root => true
  | .child position => !draft.isDead position.parent

/-- The number of keys from the root to the object. -/
def depth (target : ObjectTarget σ) (draft : Draft) : Nat :=
  match target with
  | .root => 0
  | .child position => draft.depth position.parent + 1

/-- The path of the object. -/
def path (target : ObjectTarget σ) (draft : Draft) : Path :=
  match target with
  | .root => []
  | .child position => position.path draft

end ObjectTarget

namespace ObjectStep

variable {σ : Type}

/-- The root object of a job, not begun yet. -/
def root (job : Job σ) (type : ObjectType σ) (subject : Subject) : ObjectStep σ :=
  { target := .root
    subject
    selections := job.operation.selections
    serial := job.isMutation
    state := .authorize type }

/-- The step in another state. -/
def goTo (step : ObjectStep σ) (state : ObjectState σ) : Progress σ :=
  .again (.object { step with state })

/-- Parks the step in a state. -/
def park (step : ObjectStep σ) (state : ObjectState σ) (wait : Wait σ) :
    Engine σ (Progress σ) := do
  return .parked (.object { step with state }) (step.target.depth (← Engine.draft)) wait

/-- Gives up the root object: its data are null. -/
def failRoot (job : Job σ) (value : ResolvedValue σ) : Engine σ Unit := do
  match value with
  | .error error => Engine.report error
  | .lazy _ => throw (.invariant .lazyRoot)
  | .unauthorized refusal =>
    match ← Engine.call (job.schema.unauthorized refusal job.query) with
    | .ok (.error error) => Engine.report error
    | .error error => Engine.report error
    | .ok _ => pure ()
  | _ => pure ()
  Engine.modifyDraft Draft.nullData

/-- Writes what the object is replaced by. -/
def fail (step : ObjectStep σ) (job : Job σ) (value : ResolvedValue σ) :
    Engine σ (Progress σ) := do
  match step.target with
  | .root =>
    failRoot job value
    return .finished
  | .child position =>
    match ← position.complete job value with
    | .done => return .finished
    | .waiting lazy => step.park .awaitingReplacement (.value (.start lazy))
    | .replaced value => return step.goTo (.replaced (.ok value))

/-- Writes what a failure comes to. -/
def failWith (step : ObjectStep σ) (job : Job σ) (result : FieldResult σ) :
    Engine σ (Progress σ) := do
  let path := step.target.path (← Engine.draft)
  step.fail job (← Engine.settle job path result)

/-- Asks for the concrete type of the value. -/
def askType (step : ObjectStep σ) (job : Job σ) (abstractType : TypeDefinition σ) :
    Engine σ (Progress σ) := do
  Engine.tell (.beginType abstractType.name)
  match ← Engine.call (job.schema.resolveType abstractType step.subject.value job.query) with
  | some (.ready name) => return step.goTo (.typeResolved abstractType (.ok name))
  | some (.later lazy) => step.park (.awaitingType abstractType) (.type (.start lazy))
  | none =>
    Engine.tell (.endType abstractType.name none)
    throw (.unresolvedType abstractType.name "no type")

/-- The object type of a name, if it is a possible type of an abstract one. -/
def possibleType? (job : Job σ) (abstractType : TypeDefinition σ) (name : String) :
    Option (ObjectType σ) :=
  (job.schema.objectType? name).filter fun type =>
    job.schema.isPossibleType abstractType.name type.name

/-- Takes up the concrete type of the value. -/
def takeType (step : ObjectStep σ) (job : Job σ) (abstractType : TypeDefinition σ)
    (result : Except ResolverError String) : Engine σ (Progress σ) := do
  match result with
  | .error error =>
    Engine.tell (.endType abstractType.name none)
    step.failWith job (.error error)
  | .ok name =>
    Engine.tell (.endType abstractType.name (some name))
    match possibleType? job abstractType name with
    | some type => return step.goTo (.authorize type)
    | none => throw (.unresolvedType abstractType.name name)

/-- Asks whether the value may be shown. -/
def askAuthorization (step : ObjectStep σ) (job : Job σ) (type : ObjectType σ) :
    Engine σ (Progress σ) := do
  match type.authorize? with
  | none => return step.goTo (.allocate type)
  | some authorize =>
    Engine.tell (.beginAuthorized type.name)
    match ← Engine.call (authorize step.subject.value job.query) with
    | .ready allowed => return step.goTo (.authorized type (.ok allowed))
    | .later lazy => step.park (.awaitingAuthorization type) (.authorization (.start lazy))

/-- Takes up whether the value may be shown. -/
def takeAuthorization (step : ObjectStep σ) (job : Job σ) (type : ObjectType σ)
    (result : Except ResolverError Bool) : Engine σ (Progress σ) := do
  Engine.tell (.endAuthorized type.name result.toOption)
  match result with
  | .ok true => return step.goTo (.allocate type)
  | .ok false => step.fail job (.unauthorized (.object type.name))
  | .error error => step.failWith job (.error error)

/-- Allocates the object; the root has been allocated before. -/
def allocate (step : ObjectStep σ) : Engine σ NodeId :=
  match step.target with
  | .root => pure Draft.root
  | .child position => Engine.allocate fun draft =>
    draft.newObject position.parent position.key step.subject.value position.nonNull

/-- Leaves a group of field nodes to a step of its own. The name of the type is known at once. -/
def launch (step : ObjectStep σ) (job : Job σ) (type : ObjectType σ) (node : NodeId)
    (key : String) (group : FieldGroup) : Engine σ Unit := do
  let name := group.first.name
  if name = "__typename" then
    Engine.modifyDraft fun draft => draft.setLeaf node (.field key) (.string type.name) false
  else
    match Fields.get? type.fields name with
    | none => throw (.unknownField type.name name)
    | some field =>
      let site : FieldSite σ := { typeName := type.name, field, group, owner := step.subject }
      let fieldStep := Step.field (FieldStep.new job.schema node key site)
      if step.serial then Engine.hold fieldStep else Engine.enqueue fieldStep

/-- Leaves groups of field nodes to steps of their own, in order. -/
def launchAll (step : ObjectStep σ) (job : Job σ) (type : ObjectType σ) (node : NodeId) :
    Groups → Engine σ Unit
  | [] => pure ()
  | (key, group) :: rest => do
    step.launch job type node key group
    step.launchAll job type node rest

/-- Groups the selections of the object and leaves the groups to steps of their own. -/
def collect (step : ObjectStep σ) (job : Job σ) (type : ObjectType σ) (node : NodeId) :
    Engine σ (Progress σ) := do
  let grouper : Grouper σ :=
    { job, typeName := type.name, identity := step.subject.identity
      path := (← Engine.draft).path node }
  match ← grouper.group step.selections with
  | .waiting key => step.park (.awaitingArguments type node) (.arguments key)
  | .complete grouping =>
    Engine.modifyRun fun run => { run with errors := run.errors ++ grouping.errors }
    Engine.modifyDraft fun draft => draft.setKeys node grouping.groups.keys
    step.launchAll job type node grouping.groups
    return .finished

/-- One transition of an object that is still wanted. -/
def advanceAlive (step : ObjectStep σ) (job : Job σ) : Engine σ (Progress σ) := do
  match step.state with
  | .resolveType abstractType => step.askType job abstractType
  | .typeResolved abstractType result => step.takeType job abstractType result
  | .authorize type => step.askAuthorization job type
  | .authorized type result => step.takeAuthorization job type result
  | .replaced result => step.failWith job result
  | .allocate type => return step.goTo (.collect type (← step.allocate))
  | .collect type node => step.collect job type node
  | .awaitingType _ => throw (.invariant (.ranWhileParked .object))
  | .awaitingAuthorization _ => throw (.invariant (.ranWhileParked .object))
  | .awaitingReplacement => throw (.invariant (.ranWhileParked .object))
  | .awaitingArguments _ _ => throw (.invariant (.ranWhileParked .object))

/-- One transition of an object. -/
def advance (step : ObjectStep σ) (job : Job σ) : Engine σ (Progress σ) := do
  if step.target.isAlive (← Engine.draft) then step.advanceAlive job else return .finished

/-- Hands an object what it waits for. -/
def resume (step : ObjectStep σ) (resumption : Resumption σ) : Except FatalError (ObjectStep σ) :=
  match step.state, resumption with
  | .awaitingType abstractType, .type result =>
    .ok { step with state := .typeResolved abstractType result }
  | .awaitingAuthorization type, .authorization result =>
    .ok { step with state := .authorized type result }
  | .awaitingReplacement, .value result => .ok { step with state := .replaced result }
  | .awaitingArguments type node, .arguments _ => .ok { step with state := .collect type node }
  | _, other => .error (.invariant (.strayAnswer .object other.kind))

end ObjectStep

end GraphExec
