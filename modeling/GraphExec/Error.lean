import GraphExec.Json.Basic

/-!
# Errors

An `ExecutionError` belongs to the response: it nulls the position it was raised at and the
request goes on. A `ResolverError` is what application code fails with; its unexpected kind ends
the run unless the schema rescues it. A `FatalError` ends the run without a response.
-/

namespace GraphExec

/-- One step of a response path. -/
inductive PathSegment where
  /-- A response key of an object. -/
  | field (key : String)
  /-- A position of a list. -/
  | index (n : Nat)
deriving DecidableEq, Repr

/-- A path from the root of the response. -/
abbrev Path := List PathSegment

/-- A segment as text. -/
def PathSegment.text : PathSegment → String
  | .field key => key
  | .index n => toString n

/-- A segment as JSON. -/
def PathSegment.toJson : PathSegment → Json
  | .field key => .string key
  | .index n => .ofNat n

/-- A path as text, its segments joined by points. -/
def Path.text (path : Path) : String :=
  ".".intercalate (path.map PathSegment.text)

/-- A path as JSON. -/
def Path.toJson (path : Path) : Json :=
  .array (path.map PathSegment.toJson)

/-- A place in a document, both counted from one. -/
structure Location where
  /-- The line. -/
  line : Nat
  /-- The column, in characters. -/
  column : Nat
deriving DecidableEq, Repr, Inhabited

/-- A location as JSON. -/
def Location.toJson (l : Location) : Json :=
  .object [("line", .ofNat l.line), ("column", .ofNat l.column)]

/-- An error of the response. -/
structure ExecutionError where
  /-- What went wrong. -/
  message : String
  /-- The places in the document. -/
  locations : List Location := []
  /-- The position in the response. -/
  path : Option Path := none
  /-- Further information of the application, by name. -/
  extensions : Option (List (String × Json)) := none
deriving Repr, Inhabited

namespace ExecutionError

/-- Fills in the path and the location unless the raiser supplied them. -/
def attach (error : ExecutionError) (path : Path) (location : Location) : ExecutionError :=
  { error with
    path := some (error.path.getD path)
    locations := if error.locations.isEmpty then [location] else error.locations }

/-- Whether the error has nothing but a message. -/
def isBare (error : ExecutionError) : Bool :=
  error.locations.isEmpty && error.path.isNone && error.extensions.isNone

/-- An error as JSON; empty parts are left out. -/
def toJson (error : ExecutionError) : Json :=
  .object <|
    [("message", .string error.message)]
    ++ (if error.locations.isEmpty then []
        else [("locations", .array (error.locations.map Location.toJson))])
    ++ (match error.path with
        | some path => [("path", path.toJson)]
        | none => [])
    ++ (match error.extensions with
        | some extensions => [("extensions", .object extensions)]
        | none => [])

end ExecutionError

/-- A refusal. -/
inductive UnauthorizedError where
  /-- An object failed the authorization of its type. -/
  | object (typeName : String)
  /-- An object failed the authorization of one of its fields. -/
  | field (typeName fieldName : String)
deriving DecidableEq, Repr

/-- The type whose object was refused. -/
def UnauthorizedError.typeName : UnauthorizedError → String
  | .object t => t
  | .field t _ => t

/-- The field that was refused. -/
def UnauthorizedError.fieldName? : UnauthorizedError → Option String
  | .object _ => none
  | .field _ f => some f

/-- The wording of a refusal. -/
def UnauthorizedError.message : UnauthorizedError → String
  | .object t => "An instance of " ++ t ++ " failed " ++ t ++ "'s authorization check"
  | .field t f => "An instance of " ++ t ++ " failed " ++ t ++ "." ++ f ++ "'s authorization check"

/-- What application code fails with. -/
inductive ResolverError where
  /-- An error for the response. -/
  | execution (error : ExecutionError)
  /-- A failure nobody expected, by its wording. -/
  | unexpected (message : String)
deriving Repr

/-- The wording of a failure. -/
def ResolverError.message : ResolverError → String
  | .execution error => error.message
  | .unexpected message => message

/-- The kinds of step that a run consists of. -/
inductive StepKind where
  /-- An object is built. -/
  | object
  /-- A field is resolved. -/
  | field
  /-- A list item is resolved. -/
  | listItem
  /-- A directive is run inside a step. -/
  | directive
deriving DecidableEq, Repr

/-- The name of a kind of step. -/
def StepKind.text : StepKind → String
  | .object => "object step"
  | .field => "field step"
  | .listItem => "list item step"
  | .directive => "directive"

/-- Breaches of what the engine relies on. -/
inductive Breach where
  /-- A prepared operation has no root type. -/
  | noRootType (operation : String)
  /-- A composite type cannot be built from a value. -/
  | unbuildable (typeName found : String)
  /-- An input type stands at an output position. -/
  | inputTypeAsOutput (typeName : String)
  /-- A position is declared non-null twice. -/
  | doublyNonNull (type : String)
  /-- A refused root object was replaced by a lazy. -/
  | lazyRoot
  /-- A step was run while it was waiting. -/
  | ranWhileParked (step : StepKind)
  /-- A step was given an answer it was not waiting for. -/
  | strayAnswer (step : StepKind) (answer : String)
  /-- A prepared request has no run of its own. -/
  | noRuntime
  /-- A request has no response. -/
  | noResponse
deriving DecidableEq, Repr

/-- The wording of a breach. -/
def Breach.message : Breach → String
  | .noRootType operation => "no root type for " ++ operation ++ " operations"
  | .unbuildable typeName found => "cannot build " ++ typeName ++ " from " ++ found
  | .inputTypeAsOutput typeName => "input type " ++ typeName ++ " used as an output type"
  | .doublyNonNull type => "doubly non-null type " ++ type
  | .lazyRoot => "root value replaced by a lazy value"
  | .ranWhileParked step => step.text ++ " ran while parked"
  | .strayAnswer step answer =>
    step.text ++ " resumed with a " ++ answer ++ " result it was not waiting for"
  | .noRuntime => "no runtime for a prepared request"
  | .noResponse => "no response for the request"

/-- Errors that end a run without a response. -/
inductive FatalError where
  /-- An unexpected failure that the schema did not rescue. -/
  | unhandled (path : Path) (message : String)
  /-- An abstract type resolved to nothing, or to no possible type of it. -/
  | unresolvedType (abstractType resolved : String)
  /-- A list position was given something else. -/
  | listExpected (path : Path) (found : String)
  /-- A selected field is not defined. -/
  | unknownField (typeName fieldName : String)
  /-- A type is not in the schema. -/
  | unknownType (name : String)
  /-- The engine relied on something that does not hold. -/
  | invariant (breach : Breach)
deriving DecidableEq, Repr

/-- The wording of a fatal error. -/
def FatalError.message : FatalError → String
  | .unhandled path message => "Unhandled error at " ++ path.text ++ ": " ++ message
  | .unresolvedType abstractType resolved =>
    abstractType ++ " resolved to " ++ resolved ++ ", which is not one of its possible types"
  | .listExpected path found =>
    "Expected a list at " ++ path.text ++ " but the resolver produced " ++ found
  | .unknownField typeName fieldName =>
    "Field " ++ fieldName ++ " is not defined on " ++ typeName
  | .unknownType name => "Type " ++ name ++ " is not defined in the schema"
  | .invariant breach => breach.message

end GraphExec
