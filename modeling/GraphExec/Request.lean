import GraphExec.Arguments.Coercion
import GraphExec.Document.Reader

/-!
# Requests

A request asks for one operation of a document. Before it is run its operation is chosen and its
variables are coerced; what comes out is a `Job`.
-/

namespace GraphExec

/-- Why a request cannot be run. -/
inductive RequestError where
  /-- The text is no document. -/
  | document (error : DocumentError)
  /-- The document has no operation of the name. -/
  | unknownOperation (name : String)
  /-- There are several operations, and none was named. -/
  | operationNameRequired
  /-- The schema has no root type for the operation. -/
  | unsupportedOperation (kind : OperationKind)
  /-- A variable that must have a value has none. -/
  | missingVariable (name : String) (type : TypeRef)
  /-- The value of a variable does not fit its type. -/
  | invalidVariable (name : String) (error : InputError)

/-- The wording of an error. -/
def RequestError.message : RequestError → String
  | .document error => error.message
  | .unknownOperation name => "Unknown operation named \"" ++ name ++ "\""
  | .operationNameRequired =>
    "Operation name required when the document contains more than one operation"
  | .unsupportedOperation kind =>
    "Schema is not configured for " ++ kind.keyword ++ " operations"
  | .missingVariable name type =>
    "Variable \"$" ++ name ++ "\" of required type \"" ++ type.text ++ "\" was not provided"
  | .invalidVariable name error =>
    "Variable \"$" ++ name ++ "\" got invalid value: " ++ error.message

/-- The places in the document that an error names. -/
def RequestError.locations : RequestError → List Location
  | .document error => error.locations
  | _ => []

/-- A request. -/
structure Request where
  /-- The document. -/
  document : Document
  /-- The name of the operation to run. -/
  operationName? : Option String := none
  /-- The values of variables. -/
  variableValues : Fields Json := []
  /-- What the fields of the root type are resolved for. -/
  root : AppValue := .null
  /-- Data of the application, for its hooks. -/
  data? : Option Value := none

namespace Request

/-- The request for a document that is given as text. -/
def parse (text : String) : Except RequestError Request :=
  (Document.parse text).mapError .document |>.map fun document => { document }

end Request

/-- A request that is ready to be run against a schema. -/
structure Job (σ : Type) where
  /-- The schema. -/
  schema : Schema σ
  /-- The operation. -/
  operation : Operation
  /-- The fragments of the document. -/
  fragments : Fields Fragment
  /-- What hooks see of the request. -/
  query : QueryContext
  /-- What the fields of the root type are resolved for. -/
  root : AppValue

namespace Operations

/-- The operation to run, with its name. -/
def select : Operations → Option String → Except RequestError (Option String × Operation)
  | .single operation, none => .ok (none, operation)
  | .single _, some name => .error (.unknownOperation name)
  | .multiple operations, some name =>
    match Fields.get? operations name with
    | some operation => .ok (some name, operation)
    | none => .error (.unknownOperation name)
  | .multiple [(name, operation)], none => .ok (some name, operation)
  | .multiple _, none => .error .operationNameRequired

end Operations

namespace Schema

variable {σ : Type}

/-- Coerces the value of a variable: the one that is provided, else its default, else nothing. -/
def coerceVariable (schema : Schema σ) (provided : Fields Json)
    (definition : VariableDefinition) : Attempt σ RequestError (Option Value) :=
  let value? := ((Fields.get? provided definition.name).map Value.ofJson).or definition.default?
  ExceptT.adapt
    (fun error =>
      if value?.isNone then .missingVariable definition.name definition.type
      else .invalidVariable definition.name error)
    (schema.coerceInput definition.type value?)

/-- Coerces the values of variables in the order of their definitions; each takes its value. -/
def coerceVariables (schema : Schema σ) (provided : Fields Json) (bindings : Fields Value) :
    List VariableDefinition → Attempt σ RequestError (Fields Value)
  | [] => pure bindings
  | definition :: rest => do
    let provided' := Fields.erase provided definition.name
    match ← schema.coerceVariable provided definition with
    | some value =>
      schema.coerceVariables provided' (Fields.insert bindings definition.name value) rest
    | none => schema.coerceVariables provided' bindings rest

/-- Makes a request ready to be run. -/
def prepare (schema : Schema σ) (request : Request) : Attempt σ RequestError (Job σ) := do
  let (operationName?, operation) ←
    ExceptT.mk (pure (request.document.operations.select request.operationName?))
  if (schema.rootType? operation.kind).isNone then throw (.unsupportedOperation operation.kind)
  let bindings ← schema.coerceVariables request.variableValues [] operation.definitions
  return {
    schema
    operation
    fragments := request.document.fragments
    query := { bindings, operationName?, data? := request.data? }
    root := request.root }

end Schema

namespace Job

variable {σ : Type}

/-- Whether the operation writes. -/
def isMutation (job : Job σ) : Bool :=
  job.operation.kind = .mutation

end Job

end GraphExec
