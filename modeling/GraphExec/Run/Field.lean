import GraphExec.Run.Completion
import GraphExec.Selection.Lookahead

/-!
# Resolving fields

A field is resolved in order: its directives are run, its arguments are looked up, its resolver is
called, and its position is completed. Nothing of it is done any more once the object that it
belongs to is dead.
-/

namespace GraphExec

namespace FieldSite

variable {σ : Type}

/-- The key of the field's bag of arguments. -/
def argumentKey (site : FieldSite σ) : ArgumentKey :=
  ArgumentKey.new site.group.first.offset (.field site.typeName site.field.name)
    site.field.arguments site.owner.identity

/-- The bag of arguments of the field; a field that takes none has an empty one. -/
def lookUpArguments (site : FieldSite σ) (job : Job σ) : Engine σ (Option ArgumentsResult) :=
  if site.field.arguments.isEmpty then return some (.ok .empty)
  else
    let raw := Literal.argumentValues job.query.bindings site.group.first.arguments
    Engine.lookUp site.argumentKey
      (job.schema.coerceArguments (.field site.typeName site.field.name) site.field.arguments raw
        job.query)

/-- Whether the field asks for something. -/
def wants (site : FieldSite σ) (extra : Extra) : Bool :=
  site.field.extras.contains extra

/-- The values of the field's own provider, asked for one after another. -/
def provide (site : FieldSite σ) (job : Job σ) (values : Fields Value) :
    List Extra → Engine σ (Fields Value)
  | [] => return values
  | .custom name :: rest => do
    let value ← match site.field.provide? with
      | some provide => Engine.call (provide name job.query)
      | none => pure .null
    site.provide job (Fields.insert values name value) rest
  | _ :: rest => site.provide job values rest

/-- What the field asks for, below a node of the response. -/
def extras (site : FieldSite σ) (job : Job σ) (parent : NodeId) (path : Path) :
    Engine σ (Extras σ) := do
  let draft ← Engine.draft
  let custom ← site.provide job [] site.field.extras
  return {
    node? := if site.wants .node then some site.group.first else none
    path? := if site.wants .path then some path else none
    lookahead? :=
      if site.wants .lookahead then
        some (Lookahead.of job.schema job.fragments job.query site.group.nodes)
      else none
    reporting := site.wants .errors
    parent? := if site.wants .parent then draft.parentValue? parent else none
    custom }

/-- The answer of a field without a resolver: its key of plain data, else null. -/
def defaultResult (site : FieldSite σ) : FieldResult σ :=
  match site.owner.value with
  | .data (.object fields) => .ok (.value ((Fields.get? fields site.field.name).getD .null))
  | _ => .ok .null

/-- Reports what a resolver reports beside its result. -/
def reportAll (site : FieldSite σ) (path : Path) : List ExecutionError → Engine σ Unit
  | [] => pure ()
  | error :: rest => do
    Engine.report (error.attach path site.location)
    site.reportAll path rest

/-- Calls the resolver of the field, between two events. -/
def callResolver (site : FieldSite σ) (path : Path) (context : ResolverContext σ) :
    Engine σ (Resolution σ) := do
  Engine.tell (.beginField site.typeName site.field.name path)
  let resolution ← match site.field.resolve? with
    | some resolve => Engine.call (resolve context)
    | none => pure { result := site.defaultResult }
  Engine.tell (.endField site.typeName site.field.name path)
  return resolution

/-- The result of the field, unless its resolver may not be called. -/
def resolve (site : FieldSite σ) (job : Job σ) (parent : NodeId) (path : Path)
    (arguments : Arguments) : Engine σ (FieldResult σ) := do
  let context : ResolverContext σ :=
    { object := site.owner.value
      arguments
      query := job.query
      typeName := site.typeName
      fieldName := site.field.name
      extras := ← site.extras job parent path }
  let allowed ← match site.field.authorize? with
    | some authorize => Engine.call (authorize context)
    | none => pure true
  if allowed then
    let resolution ← site.callResolver path context
    if context.extras.reporting then site.reportAll path resolution.reported
    return resolution.result
  else return .ok (.unauthorized (.field site.typeName site.field.name))

end FieldSite

namespace FieldStep

variable {σ : Type}

/-- A field that has not been begun. -/
def new (schema : Schema σ) (parent : NodeId) (key : String) (site : FieldSite σ) : FieldStep σ :=
  { parent, key, site
    state := .runDirectives (DirectiveCursor.new schema (·.resolve?) site.directives) }

/-- The position of the field. -/
def position (step : FieldStep σ) : Position σ :=
  { parent := step.parent, key := .field step.key, type := step.site.field.type, site := step.site }

/-- The step in another state. -/
def goTo (step : FieldStep σ) (state : FieldState σ) : Progress σ :=
  .again (.field { step with state })

/-- Parks the step in a state. -/
def park (step : FieldStep σ) (state : FieldState σ) (wait : Wait σ) : Engine σ (Progress σ) := do
  let draft ← Engine.draft
  return .parked (.field { step with state }) (draft.depth step.parent + 1) wait

/-- One transition of a field whose object is alive. -/
def advanceAlive (step : FieldStep σ) (job : Job σ) : Engine σ (Progress σ) := do
  let path := step.position.path (← Engine.draft)
  match step.state with
  | .runDirectives cursor =>
    match ← cursor.advance job step.site.owner path with
    | .again cursor => return step.goTo (.runDirectives cursor)
    | .passed => return step.goTo .loadArguments
    | .skipped =>
      step.position.skip
      return .finished
    | .stopped result => return step.goTo (.resolved result)
    | .waiting cursor wait => step.park (.runDirectives cursor) wait
  | .loadArguments =>
    match ← step.site.lookUpArguments job with
    | some result => return step.goTo (.argumentsLoaded result)
    | none => step.park .awaitingArguments (.arguments step.site.argumentKey)
  | .argumentsLoaded (.ok arguments) => return step.goTo (.callResolver arguments)
  | .argumentsLoaded (.error error) => return step.goTo (.resolved error.outcome)
  | .callResolver arguments =>
    return step.goTo (.resolved (← step.site.resolve job step.parent path arguments))
  | .resolved result =>
    match ← step.position.complete job (← Engine.settle job path result) with
    | .done => return .finished
    | .waiting lazy => step.park .awaitingValue (.value (.start lazy))
    | .replaced value => return step.goTo (.resolved (.ok value))
  | .awaitingArguments => throw (.invariant (.ranWhileParked .field))
  | .awaitingValue => throw (.invariant (.ranWhileParked .field))

/-- One transition of a field. -/
def advance (step : FieldStep σ) (job : Job σ) : Engine σ (Progress σ) := do
  if (← Engine.draft).isDead step.parent then return .finished else step.advanceAlive job

/-- Hands a field what it waits for. -/
def resume (step : FieldStep σ) (resumption : Resumption σ) : Except FatalError (FieldStep σ) :=
  match step.state, resumption with
  | .runDirectives cursor, answer => do
    return { step with state := .runDirectives (← cursor.resume answer) }
  | .awaitingArguments, .arguments result => .ok { step with state := .argumentsLoaded result }
  | .awaitingValue, .value result => .ok { step with state := .resolved result }
  | _, other => .error (.invariant (.strayAnswer .field other.kind))

end FieldStep

end GraphExec
