import GraphExec.Arguments.Bag
import GraphExec.Document.Syntax

/-!
# Schemas

The types that requests are run against, and the application code that hangs on them. Hooks are
called with a `QueryContext`; resolvers are called with a `ResolverContext`, which holds only what
the field asks for.
-/

namespace GraphExec

/-- What every hook of a request can see. -/
structure QueryContext where
  /-- The coerced variables, in the order of their definitions. -/
  bindings : Fields Value
  /-- The name of the operation. -/
  operationName? : Option String
  /-- Data that the application attached to the request. -/
  data? : Option Value
deriving Repr

/-- Whether resolution goes on behind a directive. -/
inductive DirectiveFlow where
  /-- It goes on. -/
  | proceed
  /-- The position is left out of the response. -/
  | skip
deriving DecidableEq, Repr

/-- An argument of a field or directive, or a field of an input object. -/
structure InputDefinition (σ : Type) where
  /-- The name. -/
  name : String
  /-- The type. -/
  type : TypeRef
  /-- The value that stands in if none is given. -/
  default? : Option Value := none
  /-- Changes the coerced value. -/
  prepare? : Option (Value → QueryContext → Action σ (Except ExecutionError Value)) := none
  /-- The object type that the value is loaded as, and how. -/
  loads? : Option (String ×
    (Value → QueryContext →
      Action σ (Except ResolverError (Answer σ ResolverError AppValue)))) := none

namespace InputDefinition

variable {σ : Type}

/-- Whether the argument loads an object. -/
def isLoading (definition : InputDefinition σ) : Bool :=
  definition.loads?.isSome

/-- Whether the argument is prepared or loads an object. -/
def isHooked (definition : InputDefinition σ) : Bool :=
  definition.prepare?.isSome || definition.loads?.isSome

end InputDefinition

/-- A view of what is selected below a field. -/
structure Lookahead (σ : Type) where
  /-- The viewed nodes. -/
  nodes : List FieldNode
  /-- The fragments of the document. -/
  fragments : Fields Fragment
  /-- The variables of the request. -/
  bindings : Fields Value
  /-- Whether directives leave a node in. -/
  included : List Directive → Action σ Bool

/-- What a field asks for beside its object and arguments. -/
inductive Extra where
  /-- The selected field itself. -/
  | node
  /-- The path of the position. -/
  | path
  /-- A view of what is selected below. -/
  | lookahead
  /-- A place to report errors without failing. -/
  | errors
  /-- The object one level above the owning one. -/
  | parent
  /-- A value that the field's own provider supplies. -/
  | custom (name : String)
deriving DecidableEq, Repr

/-- What a field asked for. -/
structure Extras (σ : Type) where
  /-- The selected field. -/
  node? : Option FieldNode := none
  /-- The path of the position. -/
  path? : Option Path := none
  /-- A view of what is selected below. -/
  lookahead? : Option (Lookahead σ) := none
  /-- Whether errors may be reported. -/
  reporting : Bool := false
  /-- The object one level above the owning one. -/
  parent? : Option AppValue := none
  /-- The values of the field's own provider. -/
  custom : Fields Value := []

/-- What a resolver is called with. -/
structure ResolverContext (σ : Type) where
  /-- The object that owns the field. -/
  object : AppValue
  /-- The arguments. -/
  arguments : Arguments
  /-- The request. -/
  query : QueryContext
  /-- The name of the owning type. -/
  typeName : String
  /-- The name of the field. -/
  fieldName : String
  /-- What the field asked for. -/
  extras : Extras σ

/-- What a resolver answers: its result, and the errors that it reports beside it. -/
structure Resolution (σ : Type) where
  /-- The result. -/
  result : FieldResult σ
  /-- The errors reported beside it. -/
  reported : List ExecutionError := []

/-- A field of an object type. -/
structure FieldDefinition (σ : Type) where
  /-- The name. -/
  name : String
  /-- The type. -/
  type : TypeRef
  /-- The arguments by name. -/
  arguments : Fields (InputDefinition σ) := []
  /-- The resolver; without one the field reads its key of plain data. -/
  resolve? : Option (ResolverContext σ → Action σ (Resolution σ)) := none
  /-- What the resolver asks for. -/
  extras : List Extra := []
  /-- Whether the resolver may be called. -/
  authorize? : Option (ResolverContext σ → Action σ Bool) := none
  /-- Supplies the custom extras. -/
  provide? : Option (String → QueryContext → Action σ Value) := none

/-- A scalar type. -/
structure ScalarType (σ : Type) where
  /-- The name. -/
  name : String
  /-- Coerces a value that comes in; a failure is told by its wording. -/
  coerceInput : Value → Action σ (Except String Value)
  /-- Coerces a value that goes out; a failure is told by its wording. -/
  coerceResult : Value → Action σ (Except String Value)

/-- An enum type. -/
structure EnumType where
  /-- The name. -/
  name : String
  /-- The names of its values. -/
  values : List String

/-- An object type. -/
structure ObjectType (σ : Type) where
  /-- The name. -/
  name : String
  /-- The fields by name. -/
  fields : Fields (FieldDefinition σ) := []
  /-- The names of the interfaces. -/
  interfaces : List String := []
  /-- Whether a value may be shown as an object of the type. -/
  authorize? : Option (AppValue → QueryContext → Action σ (Answer σ ResolverError Bool)) := none

/-- Finds the concrete type of a value. -/
abbrev TypeResolver (σ : Type) :=
  AppValue → QueryContext → Action σ (Answer σ ResolverError String)

/-- An interface type. -/
structure InterfaceType (σ : Type) where
  /-- The name. -/
  name : String
  /-- Finds the concrete type of a value. -/
  resolveType? : Option (TypeResolver σ) := none

/-- A union type. -/
structure UnionType (σ : Type) where
  /-- The name. -/
  name : String
  /-- The names of its members. -/
  members : List String
  /-- Finds the concrete type of a value. -/
  resolveType? : Option (TypeResolver σ) := none

/-- An input object type. -/
structure InputObjectType (σ : Type) where
  /-- The name. -/
  name : String
  /-- The fields by name. -/
  fields : Fields (InputDefinition σ) := []

/-- A named type. -/
inductive TypeDefinition (σ : Type) where
  /-- A scalar. -/
  | scalar (type : ScalarType σ)
  /-- An enum. -/
  | enum (type : EnumType)
  /-- An object. -/
  | object (type : ObjectType σ)
  /-- An interface. -/
  | interface (type : InterfaceType σ)
  /-- A union. -/
  | union (type : UnionType σ)
  /-- An input object. -/
  | inputObject (type : InputObjectType σ)

namespace TypeDefinition

variable {σ : Type}

/-- The name of a type. -/
def name : TypeDefinition σ → String
  | scalar t => t.name
  | enum t => t.name
  | object t => t.name
  | interface t => t.name
  | union t => t.name
  | inputObject t => t.name

/-- Whether a type stands for others: an interface or a union. -/
def isAbstract : TypeDefinition σ → Bool
  | interface _ => true
  | union _ => true
  | _ => false

/-- The type's own hook for concrete types. -/
def resolveType? : TypeDefinition σ → Option (TypeResolver σ)
  | interface t => t.resolveType?
  | union t => t.resolveType?
  | _ => none

end TypeDefinition

/-- What the hook of a directive is called with. -/
structure DirectiveContext where
  /-- The arguments of the directive. -/
  arguments : Arguments
  /-- The object that owns the field. -/
  object : AppValue
  /-- The path of the position. -/
  path : Path
  /-- The request. -/
  query : QueryContext

/-- The hook of a directive at a position. -/
abbrev DirectiveHook (σ : Type) :=
  DirectiveContext → Action σ (Except ExecutionError (Answer σ ResolverError DirectiveFlow))

/-- A directive. -/
structure DirectiveDefinition (σ : Type) where
  /-- The name. -/
  name : String
  /-- The arguments by name. -/
  arguments : Fields (InputDefinition σ) := []
  /-- Whether a node with the directive is selected at all. -/
  include? : Option (Arguments → QueryContext → Action σ Bool) := none
  /-- Runs before the field is resolved. -/
  resolve? : Option (DirectiveHook σ) := none
  /-- Runs before each item of a list is resolved. -/
  resolveEach? : Option (DirectiveHook σ) := none

/-- Answers a refusal with something to show instead. -/
abbrev UnauthorizedHook (σ : Type) :=
  UnauthorizedError → QueryContext → Action σ (Except ExecutionError (ResolvedValue σ))

/-- The hooks of a schema as a whole. -/
structure SchemaHooks (σ : Type) where
  /-- Finds the concrete type of a value of an abstract type, if it can. -/
  resolveType? : Option (String → AppValue → QueryContext →
    Action σ (Option (Answer σ ResolverError String))) := none
  /-- Answers the refusal of an object. -/
  unauthorizedObject? : Option (UnauthorizedHook σ) := none
  /-- Answers the refusal of a field. -/
  unauthorizedField? : Option (UnauthorizedHook σ) := none
  /-- Turns an unexpected failure into an error of the response, if it wants to. -/
  rescue? : Option (String → Path → QueryContext → Action σ (Option ExecutionError)) := none

/-- A checked schema. -/
structure Schema (σ : Type) where
  /-- The types by name, in the order of their registration. -/
  types : Fields (TypeDefinition σ)
  /-- The root type of queries. -/
  queryType : String
  /-- The root type of mutations. -/
  mutationType? : Option String
  /-- The root type of subscriptions. -/
  subscriptionType? : Option String
  /-- The directives by name. -/
  directives : Fields (DirectiveDefinition σ)
  /-- The object types that each object, interface and union type stands for. -/
  possible : Fields (List String)
  /-- The hooks. -/
  hooks : SchemaHooks σ

namespace Schema

variable {σ : Type}

/-- The type of a name. -/
def type? (schema : Schema σ) (name : String) : Option (TypeDefinition σ) :=
  Fields.get? schema.types name

/-- The object type of a name. -/
def objectType? (schema : Schema σ) (name : String) : Option (ObjectType σ) :=
  match schema.type? name with
  | some (.object t) => some t
  | _ => none

/-- The directive of a name. -/
def directive? (schema : Schema σ) (name : String) : Option (DirectiveDefinition σ) :=
  Fields.get? schema.directives name

/-- The object types that a value of a type may have, in order. -/
def possibleTypes? (schema : Schema σ) (name : String) : Option (List String) :=
  Fields.get? schema.possible name

/-- Whether an object of a type satisfies a type condition. -/
def isPossibleType (schema : Schema σ) (condition objectType : String) : Bool :=
  ((schema.possibleTypes? condition).getD []).contains objectType

/-- The root type of a kind of operation. -/
def rootType? (schema : Schema σ) : OperationKind → Option (ObjectType σ)
  | .query => schema.objectType? schema.queryType
  | .mutation => schema.mutationType?.bind schema.objectType?
  | .subscription => schema.subscriptionType?.bind schema.objectType?

/-- The type name that plain data tells of itself. -/
def typenameOf? : AppValue → Option String
  | .data (.object fields) =>
    match Fields.get? fields "__typename" with
    | some (.string name) => some name
    | some (.enum name) => some name
    | _ => none
  | _ => none

/-- Finds the concrete type of a value of an abstract type: by the type's own hook, else by the
hook of the schema, else by what plain data tells of itself. -/
def resolveType (schema : Schema σ) (abstractType : TypeDefinition σ) (value : AppValue)
    (query : QueryContext) : Action σ (Option (Answer σ ResolverError String)) :=
  match abstractType.resolveType? with
  | some hook => some <$> hook value query
  | none => do
    let told := (typenameOf? value).map Answer.ready
    match schema.hooks.resolveType? with
    | none => return told
    | some hook => return (← hook abstractType.name value query).or told

/-- What to show instead of a refused value: null, unless a hook says otherwise. The hook for
objects stands in for a missing hook for fields. -/
def unauthorized (schema : Schema σ) (error : UnauthorizedError) (query : QueryContext) :
    Action σ (Except ExecutionError (ResolvedValue σ)) :=
  let hook := match error with
    | .object _ => schema.hooks.unauthorizedObject?
    | .field _ _ => schema.hooks.unauthorizedField?.or schema.hooks.unauthorizedObject?
  match hook with
  | some hook => hook error query
  | none => pure (.ok .null)

/-- The error of the response that an unexpected failure is turned into, if it is. -/
def rescue (schema : Schema σ) (message : String) (path : Path) (query : QueryContext) :
    Action σ (Option ExecutionError) :=
  match schema.hooks.rescue? with
  | some hook => hook message path query
  | none => pure none

end Schema

/-- The value of an enum type that a value names, or the wording of the failure. -/
def EnumType.coerce (type : EnumType) (value : Value) : Except String Value :=
  let candidate? := match value with
    | .enum name => some name
    | .string s => some s
    | _ => none
  match candidate? with
  | none => .error (value.display ++ " is not a valid " ++ type.name ++ " value")
  | some candidate =>
    if type.values.contains candidate then .ok (.enum candidate)
    else .error ("\"" ++ candidate ++ "\" is not a valid " ++ type.name ++ " value")

end GraphExec
