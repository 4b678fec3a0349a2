import GraphExec.Schema.Scalar

/-!
# Building schemas

A `SchemaBuilder` collects types and directives; `finish` checks that what they refer to exists
and finds out which object types each type stands for.
-/

namespace GraphExec

/-- Why a schema cannot be built. -/
inductive SchemaError where
  /-- Two types share a name. -/
  | duplicateType (name : String)
  /-- A root type is not defined. -/
  | unknownRootType (name : String)
  /-- A root type is no object type. -/
  | rootTypeNotObject (name : String)
  /-- A type that is referred to is not defined. -/
  | unknownType (referencedBy name : String)
  /-- An object type implements something that is no interface. -/
  | invalidInterface (object interface : String)
  /-- A member of a union is no object type. -/
  | invalidUnionMember (union member : String)
deriving DecidableEq, Repr

/-- The wording of an error. -/
def SchemaError.message : SchemaError → String
  | .duplicateType name => "Type " ++ name ++ " is defined more than once"
  | .unknownRootType name => "Root type " ++ name ++ " is not defined"
  | .rootTypeNotObject name => "Root type " ++ name ++ " must be an object type"
  | .unknownType referencedBy name => "Unknown type " ++ name ++ " referenced by " ++ referencedBy
  | .invalidInterface object interface =>
    object ++ " implements " ++ interface ++ ", which is not an interface"
  | .invalidUnionMember union member =>
    "Union " ++ union ++ " member " ++ member ++ " is not an object type"

/-- A schema under construction. -/
structure SchemaBuilder (σ : Type) where
  /-- The types by name, in the order of their registration. -/
  types : Fields (TypeDefinition σ)
  /-- The names that were registered again. -/
  duplicates : List String
  /-- The root type of queries. -/
  queryType : String
  /-- The root type of mutations. -/
  mutationType? : Option String
  /-- The root type of subscriptions. -/
  subscriptionType? : Option String
  /-- The directives by name. -/
  directives : Fields (DirectiveDefinition σ)
  /-- The hooks. -/
  hooks : SchemaHooks σ

namespace SchemaBuilder

variable {σ : Type}

/-- Registers a type. -/
def register (builder : SchemaBuilder σ) (type : TypeDefinition σ) : SchemaBuilder σ :=
  { builder with
    types := Fields.insert builder.types type.name type
    duplicates :=
      if Fields.has builder.types type.name then builder.duplicates ++ [type.name]
      else builder.duplicates }

/-- Registers a directive; it replaces one of the same name. -/
def directive (builder : SchemaBuilder σ) (definition : DirectiveDefinition σ) :
    SchemaBuilder σ :=
  { builder with directives := Fields.insert builder.directives definition.name definition }

/-- A schema that knows the built-in scalars and directives. -/
def new (queryType : String) : SchemaBuilder σ :=
  let blank : SchemaBuilder σ :=
    { types := [], duplicates := [], queryType, mutationType? := none, subscriptionType? := none
      directives := [], hooks := {} }
  let scalars := Scalar.builtIn.foldl (fun builder t => builder.register (.scalar t)) blank
  DirectiveDefinition.builtIn.foldl directive scalars

/-- The kinds of operation that have a root type, with its name. -/
def roots (builder : SchemaBuilder σ) : List String :=
  builder.queryType :: (builder.mutationType?.toList ++ builder.subscriptionType?.toList)

/-- A root type must be an object type. -/
def checkRoot (builder : SchemaBuilder σ) (name : String) : Except SchemaError Unit :=
  match Fields.get? builder.types name with
  | some (.object _) => .ok ()
  | some _ => .error (.rootTypeNotObject name)
  | none => .error (.unknownRootType name)

/-- A type that is referred to must be defined. -/
def checkReference (builder : SchemaBuilder σ) (referencedBy : String) (type : TypeRef) :
    Except SchemaError Unit :=
  if Fields.has builder.types type.namedType then .ok ()
  else .error (.unknownType referencedBy type.namedType)

/-- The types of arguments, or of the fields of an input object, must be defined. -/
def checkInputs (builder : SchemaBuilder σ) (owner : String) :
    List (InputDefinition σ) → Except SchemaError Unit
  | [] => .ok ()
  | definition :: rest => do
    builder.checkReference (owner ++ "(" ++ definition.name ++ ":)") definition.type
    checkInputs builder owner rest

/-- The types of fields and of their arguments must be defined. -/
def checkFields (builder : SchemaBuilder σ) (owner : String) :
    List (FieldDefinition σ) → Except SchemaError Unit
  | [] => .ok ()
  | field :: rest => do
    let name := owner ++ "." ++ field.name
    builder.checkReference name field.type
    builder.checkInputs name field.arguments.values
    checkFields builder owner rest

/-- The object types that each type stands for, by the name of the type. -/
abbrev Possible := Fields (List String)

/-- Opens the entry of a type. -/
def Possible.open (possible : Possible) (type : String) : Possible :=
  Fields.insert possible type ((Fields.get? possible type).getD [])

/-- Adds an object type to the entry of a type. -/
def Possible.add (possible : Possible) (type object : String) : Possible :=
  Fields.insert possible type (addName ((Fields.get? possible type).getD []) object)

/-- Adds an object type to the interfaces that it implements. -/
def addInterfaces (builder : SchemaBuilder σ) (object : String) (possible : Possible) :
    List String → Except SchemaError Possible
  | [] => .ok possible
  | name :: rest =>
    match Fields.get? builder.types name with
    | some (.interface _) => addInterfaces builder object (possible.add name object) rest
    | _ => .error (.invalidInterface object name)

/-- Adds the members of a union to it. -/
def addMembers (builder : SchemaBuilder σ) (union : String) (possible : Possible) :
    List String → Except SchemaError Possible
  | [] => .ok possible
  | name :: rest =>
    match Fields.get? builder.types name with
    | some (.object _) => addMembers builder union (possible.add union name) rest
    | _ => .error (.invalidUnionMember union name)

/-- Checks a type and records what it stands for. -/
def addType (builder : SchemaBuilder σ) (possible : Possible) :
    TypeDefinition σ → Except SchemaError Possible
  | .object t => do
    builder.checkFields t.name t.fields.values
    builder.addInterfaces t.name (possible.add t.name t.name) t.interfaces
  | .union t => builder.addMembers t.name (possible.open t.name) t.members
  | .interface t => .ok (possible.open t.name)
  | .inputObject t => do
    builder.checkInputs t.name t.fields.values
    return possible
  | .scalar _ => .ok possible
  | .enum _ => .ok possible

/-- Checks the types in the order of their registration and records what they stand for. -/
def addTypes (builder : SchemaBuilder σ) (possible : Possible) :
    List (TypeDefinition σ) → Except SchemaError Possible
  | [] => .ok possible
  | type :: rest => do
    let possible ← builder.addType possible type
    addTypes builder possible rest

/-- The types of the arguments of directives must be defined. -/
def checkDirectives (builder : SchemaBuilder σ) :
    List (DirectiveDefinition σ) → Except SchemaError Unit
  | [] => .ok ()
  | definition :: rest => do
    builder.checkInputs ("@" ++ definition.name) definition.arguments.values
    checkDirectives builder rest

/-- The schema, or the first thing that is wrong with it. -/
def finish (builder : SchemaBuilder σ) : Except SchemaError (Schema σ) := do
  match builder.duplicates with
  | name :: _ => throw (.duplicateType name)
  | [] => pure ()
  builder.roots.forM builder.checkRoot
  let possible ← builder.addTypes [] builder.types.values
  builder.checkDirectives builder.directives.values
  return {
    types := builder.types
    queryType := builder.queryType
    mutationType? := builder.mutationType?
    subscriptionType? := builder.subscriptionType?
    directives := builder.directives
    possible
    hooks := builder.hooks }

end SchemaBuilder

end GraphExec
