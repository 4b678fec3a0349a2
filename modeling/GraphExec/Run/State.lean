import GraphExec.Arguments.Shared
import GraphExec.Draft.Basic
import GraphExec.Request

/-!
# The state of a run

A run works through steps: an object is built, a field is resolved, an item of a list is resolved.
A step goes on by one transition at a time. It may park itself to wait for an answer, and is
resumed with it.
-/

namespace GraphExec

/-- The nodes of the document that answer under one response key, in document order. -/
structure FieldGroup where
  /-- The first of them; its arguments count. -/
  first : FieldNode
  /-- The others. -/
  others : List FieldNode

/-- All nodes of a group. -/
def FieldGroup.nodes (group : FieldGroup) : List FieldNode :=
  group.first :: group.others

/-- A field of an object, as it is selected. -/
structure FieldSite (σ : Type) where
  /-- The name of the type that owns the field. -/
  typeName : String
  /-- The field. -/
  field : FieldDefinition σ
  /-- The nodes that select it. -/
  group : FieldGroup
  /-- The object that owns the field. -/
  owner : Subject

namespace FieldSite

variable {σ : Type}

/-- What is selected below the field, by any of its nodes. -/
def selections (site : FieldSite σ) : List Selection :=
  site.group.nodes.flatMap (·.selections)

/-- The directives of all nodes. -/
def directives (site : FieldSite σ) : List Directive :=
  site.group.nodes.flatMap (·.directives)

/-- The place in the document that errors name. -/
def location (site : FieldSite σ) : Location :=
  site.group.first.location

end FieldSite

/-- A position of the response that a value is found for. -/
structure Position (σ : Type) where
  /-- The object or list that holds the position. -/
  parent : NodeId
  /-- The key there. -/
  key : PathSegment
  /-- The declared type. -/
  type : TypeRef
  /-- The field that the position belongs to. -/
  site : FieldSite σ

/-- How far the directive at the head of a cursor has got. -/
inductive DirectiveStage where
  /-- Its arguments are not looked up yet. -/
  | unstarted
  /-- Its arguments are waited for. -/
  | awaitingArguments
  /-- Its arguments are there, or failed. -/
  | called (arguments : ArgumentsResult)
  /-- Its answer is waited for. -/
  | awaitingAnswer
  /-- It has answered. -/
  | answered (flow : Except ResolverError DirectiveFlow)

/-- A directive of the document with its definition and the hook that is to be run. -/
structure DirectiveUse (σ : Type) where
  /-- The directive as written. -/
  directive : Directive
  /-- Its definition. -/
  definition : DirectiveDefinition σ
  /-- The hook. -/
  hook : DirectiveHook σ

/-- Directives that are run one after another before a position is resolved. -/
structure DirectiveCursor (σ : Type) where
  /-- The directives that are left. -/
  uses : List (DirectiveUse σ)
  /-- How far the first of them has got. -/
  stage : DirectiveStage

/-- How far the resolution of a field has got. -/
inductive FieldState (σ : Type) where
  /-- Its directives are run. -/
  | runDirectives (cursor : DirectiveCursor σ)
  /-- Its arguments are looked up. -/
  | loadArguments
  /-- Its arguments are waited for. -/
  | awaitingArguments
  /-- Its arguments are there, or failed. -/
  | argumentsLoaded (result : ArgumentsResult)
  /-- Its resolver is called. -/
  | callResolver (arguments : Arguments)
  /-- It has come to a result. -/
  | resolved (result : FieldResult σ)
  /-- Its value is waited for. -/
  | awaitingValue

/-- A field being resolved. -/
structure FieldStep (σ : Type) where
  /-- The object of the response that it is a field of. -/
  parent : NodeId
  /-- The response key. -/
  key : String
  /-- The field. -/
  site : FieldSite σ
  /-- How far it has got. -/
  state : FieldState σ

/-- How far the resolution of an item has got. -/
inductive ItemState (σ : Type) where
  /-- The directives of the field are run for it. -/
  | runDirectives (cursor : DirectiveCursor σ) (item : ResolvedValue σ)
  /-- It has come to a result. -/
  | resolved (result : FieldResult σ)
  /-- Its value is there. -/
  | settled (value : ResolvedValue σ)
  /-- Its value is waited for. -/
  | awaitingValue

/-- An item of a list being resolved. -/
structure ItemStep (σ : Type) where
  /-- The position of the item. -/
  position : Position σ
  /-- How far it has got. -/
  state : ItemState σ

/-- Where an object is built. -/
inductive ObjectTarget (σ : Type) where
  /-- At the root of the response. -/
  | root
  /-- At a position of the response. -/
  | child (position : Position σ)

/-- How far the building of an object has got. -/
inductive ObjectState (σ : Type) where
  /-- Its concrete type is asked for. -/
  | resolveType (abstractType : TypeDefinition σ)
  /-- Its concrete type is waited for. -/
  | awaitingType (abstractType : TypeDefinition σ)
  /-- Its concrete type has been named, or not. -/
  | typeResolved (abstractType : TypeDefinition σ) (result : Except ResolverError String)
  /-- Its authorization is asked for. -/
  | authorize (type : ObjectType σ)
  /-- Its authorization is waited for. -/
  | awaitingAuthorization (type : ObjectType σ)
  /-- Its authorization is decided, or failed. -/
  | authorized (type : ObjectType σ) (result : Except ResolverError Bool)
  /-- What replaces it is waited for. -/
  | awaitingReplacement
  /-- It is replaced. -/
  | replaced (result : FieldResult σ)
  /-- It is allocated. -/
  | allocate (type : ObjectType σ)
  /-- Its selections are collected. -/
  | collect (type : ObjectType σ) (node : NodeId)
  /-- The arguments of a directive on a selection are waited for. -/
  | awaitingArguments (type : ObjectType σ) (node : NodeId)

/-- An object being built. -/
structure ObjectStep (σ : Type) where
  /-- Where it is built. -/
  target : ObjectTarget σ
  /-- What it is made from. -/
  subject : Subject
  /-- What is selected of it. -/
  selections : List Selection
  /-- Whether its fields are resolved one at a time. -/
  serial : Bool
  /-- How far it has got. -/
  state : ObjectState σ

/-- A step of a run. -/
inductive Step (σ : Type) where
  /-- An object is built. -/
  | object (step : ObjectStep σ)
  /-- A field is resolved. -/
  | field (step : FieldStep σ)
  /-- An item of a list is resolved. -/
  | item (step : ItemStep σ)

/-- What a parked step waits for. -/
inductive Wait (σ : Type) where
  /-- The value of a position. -/
  | value (rest : Pending σ (FieldResult σ))
  /-- A shared bag of arguments. -/
  | arguments (key : ArgumentKey)
  /-- The name of a concrete type. -/
  | type (rest : Pending σ (Except ResolverError String))
  /-- An authorization. -/
  | authorization (rest : Pending σ (Except ResolverError Bool))
  /-- The answer of a directive. -/
  | directive (rest : Pending σ (Except ResolverError DirectiveFlow))

/-- What a parked step is resumed with. -/
inductive Resumption (σ : Type) where
  /-- The value of a position. -/
  | value (result : FieldResult σ)
  /-- A bag of arguments. -/
  | arguments (result : ArgumentsResult)
  /-- The name of a concrete type. -/
  | type (result : Except ResolverError String)
  /-- An authorization. -/
  | authorization (result : Except ResolverError Bool)
  /-- The answer of a directive. -/
  | directive (result : Except ResolverError DirectiveFlow)

/-- The kind of an answer, for messages. -/
def Resumption.kind {σ : Type} : Resumption σ → String
  | .value _ => "value"
  | .arguments _ => "arguments"
  | .type _ => "type"
  | .authorization _ => "authorization"
  | .directive _ => "directive"

/-- What a transition of a step comes to. -/
inductive Progress (σ : Type) where
  /-- The step goes on. -/
  | again (step : Step σ)
  /-- The step is done. -/
  | finished
  /-- The step waits, among those of a depth. -/
  | parked (step : Step σ) (depth : Nat) (wait : Wait σ)

/-- The state of the run of one request. -/
structure Run (σ : Type) where
  /-- The response as far as it is known. -/
  draft : Draft
  /-- The errors so far. -/
  errors : List ExecutionError
  /-- The bags of arguments. -/
  arguments : ArgumentStore σ
  /-- The steps that are ready, first come first served. -/
  ready : List (Step σ)
  /-- The root fields of a mutation that have not been released. -/
  held : List (Step σ)
  /-- The number of steps that wait. -/
  parked : Nat
  /-- The number of plain data values that objects were made from. -/
  data : Nat

/-- What a transition acts on: a run, and what surrounds all runs. -/
structure Stage (σ : Type) where
  /-- The run. -/
  run : Run σ
  /-- What surrounds it. -/
  world : World σ

/-- Transitions; a fatal error ends them and keeps what was done until then. -/
abbrev Engine (σ : Type) := ExceptT FatalError (StateM (Stage σ))

namespace Engine

variable {σ α : Type}

/-- Runs application code. -/
def call (action : Action σ α) : Engine σ α := fun stage =>
  let (answer, world) := action.run stage.world
  (.ok answer, { stage with world })

/-- Tells the observer of an event. -/
def tell (event : Event) : Engine σ Unit :=
  modify fun stage => { stage with world := stage.world.tell event }

/-- The response as far as it is known. -/
def draft : Engine σ Draft := do
  return (← get).run.draft

/-- Changes the run. -/
def modifyRun (f : Run σ → Run σ) : Engine σ Unit :=
  modify fun stage => { stage with run := f stage.run }

/-- Changes the response. -/
def modifyDraft (f : Draft → Draft) : Engine σ Unit :=
  modifyRun fun run => { run with draft := f run.draft }

/-- Allocates a node of the response. -/
def allocate (f : Draft → NodeId × Draft) : Engine σ NodeId := do
  let (id, draft) := f (← draft)
  modifyDraft fun _ => draft
  return id

/-- Reports an error. -/
def report (error : ExecutionError) : Engine σ Unit :=
  modifyRun fun run => { run with errors := run.errors ++ [error] }

/-- Makes a step ready, behind those that are. -/
def enqueue (step : Step σ) : Engine σ Unit :=
  modifyRun fun run => { run with ready := run.ready ++ [step] }

/-- Holds a step back, behind those that are. -/
def hold (step : Step σ) : Engine σ Unit :=
  modifyRun fun run => { run with held := run.held ++ [step] }

/-- What an object is made from: an object of the application keeps its identity, plain data is
given one of its own. -/
def identify (value : AppValue) : Engine σ Subject :=
  match value with
  | .object o => pure ⟨value, .object o.identity⟩
  | .data _ => do
    let n := (← get).run.data
    modifyRun fun run => { run with data := n + 1 }
    return ⟨value, .data n⟩

/-- The bag of arguments under a key, started unless it has been. Nothing is answered while it is
waited for. -/
def lookUp (key : ArgumentKey) (coerce : Action σ (Coercion σ)) :
    Engine σ (Option ArgumentsResult) := do
  match (← get).run.arguments.get? key with
  | some bag => return bag.result?
  | none =>
    let bag := SharedArguments.ofCoercion (← call coerce)
    modifyRun fun run => { run with arguments := run.arguments.insert key bag }
    return bag.result?

/-- A failure that nobody expected is turned into an error by the schema, or ends the run. -/
def rescue (job : Job σ) (message : String) (path : Path) : Engine σ ExecutionError := do
  match ← call (job.schema.rescue message path job.query) with
  | some error => return error
  | none => throw (.unhandled path message)

/-- The value that a result stands for at a path. -/
def settle (job : Job σ) (path : Path) (result : FieldResult σ) : Engine σ (ResolvedValue σ) :=
  match result with
  | .ok value => pure value
  | .error (.execution error) => pure (.error error)
  | .error (.unexpected message) => return .error (← rescue job message path)

end Engine

namespace Position

variable {σ : Type}

/-- The path of a position. -/
def path (position : Position σ) (draft : Draft) : Path :=
  draft.pathTo position.parent position.key

/-- Whether null is ruled out at a position. -/
def nonNull (position : Position σ) : Bool :=
  position.type.isNonNull

end Position

end GraphExec
