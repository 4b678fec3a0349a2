import GraphExec.Error
import GraphExec.TypeRef
import GraphExec.Value

/-!
# Documents

The syntax tree of an executable document: operations, fragments and what they select. Fields and
directives carry their offset in the text, which tells any two of them apart.
-/

namespace GraphExec

/-- A value as it is written in a document; it may mention variables. -/
inductive Literal where
  /-- A variable. -/
  | variable (name : String)
  /-- The null. -/
  | null
  /-- A number. -/
  | number (n : Number)
  /-- A text. -/
  | string (s : String)
  /-- A truth value. -/
  | bool (b : Bool)
  /-- An enum value. -/
  | enum (name : String)
  /-- A string of bytes; no text is read as one. -/
  | binary (bytes : List Nat)
  /-- A list. -/
  | list (items : List Literal)
  /-- An object. -/
  | object (fields : List (String × Literal))
deriving Repr, Inhabited

/-- A directive at a field, a fragment or a variable. -/
structure Directive where
  /-- The name, without the at sign. -/
  name : String
  /-- The arguments as written. -/
  arguments : List (String × Literal)
  /-- The place of the at sign. -/
  location : Location
  /-- The number of characters before it. -/
  offset : Nat
deriving Repr, Inhabited

/-- A selected field, its own selections being of type `S`. -/
structure FieldNodeOf (S : Type) where
  /-- The response key, if it differs from the name. -/
  alias? : Option String
  /-- The name of the field. -/
  name : String
  /-- The arguments as written. -/
  arguments : List (String × Literal)
  /-- The directives. -/
  directives : List Directive
  /-- What is selected below the field. -/
  selections : List S
  /-- The place of the first token. -/
  location : Location
  /-- The number of characters before it. -/
  offset : Nat

/-- One selection. -/
inductive Selection where
  /-- A field. -/
  | field (node : FieldNodeOf Selection)
  /-- The selections of a fragment. -/
  | spread (fragment : String) (directives : List Directive)
  /-- Selections in place, perhaps for objects of one type only. -/
  | inline (condition : Option String) (directives : List Directive) (selections : List Selection)

/-- A selected field. -/
abbrev FieldNode := FieldNodeOf Selection

/-- The key under which a field answers. -/
def FieldNodeOf.responseKey {S : Type} (node : FieldNodeOf S) : String :=
  node.alias?.getD node.name

/-- The directives of a selection. -/
def Selection.directives : Selection → List Directive
  | .field node => node.directives
  | .spread _ directives => directives
  | .inline _ directives _ => directives

/-- The kinds of operation. -/
inductive OperationKind where
  /-- A read. -/
  | query
  /-- A write. -/
  | mutation
  /-- A subscription. -/
  | subscription
deriving DecidableEq, Repr

/-- The keyword of a kind of operation. -/
def OperationKind.keyword : OperationKind → String
  | .query => "query"
  | .mutation => "mutation"
  | .subscription => "subscription"

/-- A variable that an operation declares. -/
structure VariableDefinition where
  /-- The name, without the dollar sign. -/
  name : String
  /-- The type. -/
  type : TypeRef
  /-- The value of the variable if none is provided. -/
  default? : Option Value
deriving Repr

/-- An operation. -/
structure Operation where
  /-- The name. -/
  name? : Option String
  /-- The kind. -/
  kind : OperationKind
  /-- The declared variables. -/
  definitions : List VariableDefinition
  /-- What is selected from the root type. -/
  selections : List Selection
  /-- The place of the first token. -/
  location : Location

/-- A named set of selections. -/
structure Fragment where
  /-- The name. -/
  name : String
  /-- The type whose objects it is for. -/
  condition : String
  /-- What it selects. -/
  selections : List Selection
  /-- The place of the first token. -/
  location : Location

/-- The operations of a document: a single one without a name, or named ones. -/
inductive Operations where
  /-- One operation without a name. -/
  | single (operation : Operation)
  /-- Operations by name. -/
  | multiple (operations : Fields Operation)

/-- A document with its operations and its fragments by name. -/
structure Document where
  /-- The operations. -/
  operations : Operations
  /-- The fragments. -/
  fragments : Fields Fragment

/-- Why a text is no document. -/
inductive DocumentError where
  /-- The text does not follow the grammar. -/
  | malformed
  /-- Selections nest too deep. -/
  | tooDeep
  /-- An operation without a name stands beside another one. -/
  | multipleOperations (anonymous other : Location)
  /-- Two operations share a name. -/
  | operationTwice (name : String) (second first : Location)
  /-- Two fragments share a name. -/
  | fragmentTwice (name : String) (second first : Location)
  /-- There is no operation. -/
  | noOperation
deriving DecidableEq, Repr

/-- The wording of an error. -/
def DocumentError.message : DocumentError → String
  | .malformed => "syntax error"
  | .tooDeep => "recursion limit exceeded."
  | .multipleOperations _ _ => "document contains multiple operations"
  | .operationTwice name _ _ => "operation " ++ name ++ " is defined twice"
  | .fragmentTwice name _ _ => "fragment " ++ name ++ " is defined twice"
  | .noOperation => "document does not contain an operation"

/-- The places that an error names. -/
def DocumentError.locations : DocumentError → List Location
  | .multipleOperations anonymous other => [anonymous, other]
  | .operationTwice _ second first => [second, first]
  | .fragmentTwice _ second first => [second, first]
  | _ => []

/-- A definition of a document. -/
inductive Definition where
  /-- An operation. -/
  | operation (operation : Operation)
  /-- A fragment. -/
  | fragment (fragment : Fragment)

namespace Document

/-- Adds an operation to those of a document. -/
def addOperation (known : Option Operations) (operation : Operation) :
    Except DocumentError Operations :=
  match operation.name?, known with
  | some name, none => .ok (.multiple [(name, operation)])
  | some _, some (.single anonymous) =>
    .error (.multipleOperations anonymous.location operation.location)
  | some name, some (.multiple others) =>
    match Fields.get? others name with
    | some first => .error (.operationTwice name operation.location first.location)
    | none => .ok (.multiple (Fields.insert others name operation))
  | none, none => .ok (.single operation)
  | none, some (.single other) =>
    .error (.multipleOperations operation.location other.location)
  | none, some (.multiple others) =>
    match others with
    | [] => .ok (.single operation)
    | (_, other) :: _ => .error (.multipleOperations operation.location other.location)

/-- Collects definitions in document order; the first clash of names is the error. -/
def collect (known : Option Operations) (fragments : Fields Fragment) :
    List Definition → Except DocumentError Document
  | [] =>
    match known with
    | some operations => .ok ⟨operations, fragments⟩
    | none => .error .noOperation
  | .operation operation :: rest => do
    let operations ← addOperation known operation
    collect (some operations) fragments rest
  | .fragment fragment :: rest =>
    match Fields.get? fragments fragment.name with
    | some first => .error (.fragmentTwice fragment.name fragment.location first.location)
    | none => collect known (Fields.insert fragments fragment.name fragment) rest

/-- The document that consists of the given definitions. -/
def ofDefinitions (definitions : List Definition) : Except DocumentError Document :=
  collect none [] definitions

end Document

end GraphExec
