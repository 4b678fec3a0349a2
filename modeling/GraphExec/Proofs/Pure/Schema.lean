import GraphExec.Proofs.Pure.Answers
import GraphExec.Schema.Basic

/-!
# Pure schemas

A schema is pure if all application code that hangs on it answers as a function of what it is called
with. The values that its resolvers hand back are pure too: what they leave for later is as settled
as what they answer at once.
-/

namespace GraphExec

variable {σ ε α : Type}

/-- An answer is of a kind, or will be. -/
def Answer.Settled (loads : Loads) (holds : α → Prop) : Answer σ ε α → Prop
  | .ready a => holds a
  | .later lazy => lazy.Settled loads fun result => ∀ a, result = .ok a → holds a

/-- What an answer comes to in the end, at a state. -/
def Answer.result (loads : Loads) (state : σ) : Answer σ ε α → Except ε α
  | .ready a => .ok a
  | .later lazy => lazy.answer loads state

/-- A value that answers one thing, however much of it comes later. -/
inductive ResolvedValue.Pure (loads : Loads) : ResolvedValue σ → Prop
  | value (v : Value) : Pure loads (.value v)
  | object (o : AppObject) : Pure loads (.object o)
  | list {items : List (ResolvedValue σ)} (each : ∀ item ∈ items, Pure loads item) :
      Pure loads (.list items)
  | lazy {later : Lazy σ (FieldResult σ)} {result : FieldResult σ}
      (answers : later.Answers loads result) (pure : ∀ v, result = .ok v → Pure loads v) :
      Pure loads (.lazy later)
  | error (error : ExecutionError) : Pure loads (.error error)
  | unauthorized (refusal : UnauthorizedError) : Pure loads (.unauthorized refusal)
  | skip : Pure loads .skip
  | raw (v : Value) : Pure loads (.raw v)

/-- A result that is a pure value, or a failure. -/
def FieldResult.Pure (loads : Loads) (result : FieldResult σ) : Prop :=
  ∀ v, result = .ok v → v.Pure loads

/-- What a resolver can look at is settled. -/
def ResolverContext.Pure (loads : Loads) (context : ResolverContext σ) : Prop :=
  ∀ view, context.extras.lookahead? = some view →
    ∀ directives, (view.included directives).Settled loads fun _ => True

structure InputDefinition.Pure (loads : Loads) (definition : InputDefinition σ) : Prop where
  prepares : ∀ prepare, definition.prepare? = some prepare → ∀ value query,
    (prepare value query).Settled loads fun _ => True
  loading : ∀ type load, definition.loads? = some (type, load) → ∀ value query,
    (load value query).Settled loads fun result =>
      ∀ answer, result = .ok answer → answer.Settled loads fun _ => True

structure FieldDefinition.Pure (loads : Loads) (field : FieldDefinition σ) : Prop where
  arguments : ∀ definition ∈ field.arguments.values, definition.Pure loads
  resolves : ∀ resolve, field.resolve? = some resolve → ∀ context, context.Pure loads →
    (resolve context).Settled loads fun resolution => resolution.result.Pure loads
  authorizes : ∀ authorize, field.authorize? = some authorize → ∀ context, context.Pure loads →
    (authorize context).Settled loads fun _ => True
  provides : ∀ provide, field.provide? = some provide → ∀ name query,
    (provide name query).Settled loads fun _ => True

/-- A hook for concrete types that is settled. -/
def TypeResolver.Pure (loads : Loads) (resolve : TypeResolver σ) : Prop :=
  ∀ value query, (resolve value query).Settled loads fun answer => answer.Settled loads fun _ => True

structure ObjectType.Pure (loads : Loads) (type : ObjectType σ) : Prop where
  fields : ∀ field ∈ type.fields.values, field.Pure loads
  authorizes : ∀ authorize, type.authorize? = some authorize → ∀ value query,
    (authorize value query).Settled loads fun answer => answer.Settled loads fun _ => True

structure ScalarType.Pure (loads : Loads) (type : ScalarType σ) : Prop where
  input : ∀ value, (type.coerceInput value).Settled loads fun _ => True
  result : ∀ value, (type.coerceResult value).Settled loads fun _ => True

def TypeDefinition.Pure (loads : Loads) : TypeDefinition σ → Prop
  | .scalar t => t.Pure loads
  | .enum _ => True
  | .object t => t.Pure loads
  | .interface t => ∀ resolve, t.resolveType? = some resolve → TypeResolver.Pure loads resolve
  | .union t => ∀ resolve, t.resolveType? = some resolve → TypeResolver.Pure loads resolve
  | .inputObject _ => True

/-- A hook of a directive that is settled. -/
def DirectiveHook.Pure (loads : Loads) (hook : DirectiveHook σ) : Prop :=
  ∀ context, (hook context).Settled loads fun result =>
    ∀ answer, result = .ok answer → answer.Settled loads fun _ => True

structure DirectiveDefinition.Pure (loads : Loads) (definition : DirectiveDefinition σ) : Prop where
  arguments : ∀ input ∈ definition.arguments.values, input.Pure loads
  includes : ∀ keeps, definition.include? = some keeps → ∀ arguments query,
    (keeps arguments query).Settled loads fun _ => True
  resolves : ∀ hook, definition.resolve? = some hook → DirectiveHook.Pure loads hook
  resolvesEach : ∀ hook, definition.resolveEach? = some hook → DirectiveHook.Pure loads hook

/-- A hook for refusals that is settled. -/
def UnauthorizedHook.Pure (loads : Loads) (hook : UnauthorizedHook σ) : Prop :=
  ∀ refusal query, (hook refusal query).Settled loads fun result =>
    ∀ v, result = .ok v → v.Pure loads

structure SchemaHooks.Pure (loads : Loads) (hooks : SchemaHooks σ) : Prop where
  resolvesType : ∀ hook, hooks.resolveType? = some hook → ∀ name value query,
    (hook name value query).Settled loads fun told =>
      ∀ answer, told = some answer → answer.Settled loads fun _ => True
  objects : ∀ hook, hooks.unauthorizedObject? = some hook → UnauthorizedHook.Pure loads hook
  fields : ∀ hook, hooks.unauthorizedField? = some hook → UnauthorizedHook.Pure loads hook
  rescues : ∀ hook, hooks.rescue? = some hook → ∀ message path query,
    (hook message path query).Settled loads fun _ => True

/-- All application code of a schema answers as a function of what it is called with. -/
structure Schema.Pure (loads : Loads) (schema : Schema σ) : Prop where
  types : ∀ name type, schema.type? name = some type → type.Pure loads
  directives : ∀ name definition, schema.directive? name = some definition → definition.Pure loads
  hooks : schema.hooks.Pure loads

/-! ### The code of a schema -/

namespace Schema

variable {loads : Loads} {schema : Schema σ}

theorem Pure.resolveType (pure : schema.Pure loads) {name : String}
    {type : TypeDefinition σ} (known : schema.type? name = some type) (value : AppValue)
    (query : QueryContext) :
    (schema.resolveType type value query).Settled loads fun told =>
      ∀ answer, told = some answer → answer.Settled loads fun _ => True := by
  have own : ∀ resolve, type.resolveType? = some resolve → TypeResolver.Pure loads resolve := by
    intro resolve found
    have fine := pure.types name type known
    cases type with
    | interface t => exact fine resolve found
    | union t => exact fine resolve found
    | scalar t => cases found
    | enum t => cases found
    | object t => cases found
    | inputObject t => cases found
  unfold Schema.resolveType
  cases hook : type.resolveType? with
  | some resolve =>
      refine (own resolve hook value query).bind (f := fun a => .done (some a)) fun answer fine => ?_
      refine Action.settled_done fun other same => ?_
      injection same with same
      exact same ▸ fine
  | none =>
      have told : ∀ answer, (typenameOf? value).map Answer.ready = some answer →
          (answer : Answer σ ResolverError String).Settled loads fun _ => True := by
        intro answer found
        obtain ⟨name, -, rfl⟩ := Option.map_eq_some_iff.mp found
        trivial
      cases general : schema.hooks.resolveType? with
      | none => exact Action.settled_done told
      | some resolve =>
          simp only
          refine Action.Settled.bind (pure.hooks.resolvesType resolve general type.name value query)
            fun result fine => ?_
          refine Action.settled_done fun answer found => ?_
          cases result with
          | some first =>
              injection found with found
              exact fine answer (found ▸ rfl)
          | none => exact told answer found

theorem Pure.unauthorized (pure : schema.Pure loads) (refusal : UnauthorizedError)
    (query : QueryContext) :
    (schema.unauthorized refusal query).Settled loads fun result =>
      ∀ v, result = .ok v → v.Pure loads := by
  have null : (Action.done (.ok .null) :
      Action σ (Except ExecutionError (ResolvedValue σ))).Settled loads fun result =>
        ∀ v, result = .ok v → v.Pure loads := by
    refine Action.settled_done fun v same => ?_
    injection same with same
    exact same ▸ .value _
  unfold Schema.unauthorized
  cases refusal with
  | object name =>
      simp only
      split
      · rename_i hook found
        exact pure.hooks.objects hook found _ query
      · exact null
  | field type name =>
      simp only
      split
      · rename_i hook found
        rcases Option.or_eq_some_iff.mp found with found | ⟨-, found⟩
        · exact pure.hooks.fields hook found _ query
        · exact pure.hooks.objects hook found _ query
      · exact null

theorem Pure.rescue (pure : schema.Pure loads) (message : String) (path : Path)
    (query : QueryContext) : (schema.rescue message path query).Settled loads fun _ => True := by
  unfold Schema.rescue
  cases hook : schema.hooks.rescue? with
  | some rescue => exact pure.hooks.rescues rescue hook message path query
  | none => exact Action.settled_done trivial

end Schema

end GraphExec
