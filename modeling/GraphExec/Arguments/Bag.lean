import GraphExec.Resolved
import GraphExec.TypeRef

/-!
# Bags of arguments

The arguments that a resolver or a directive is called with: their values, the objects that they
loaded, and how each value came to be.
-/

namespace GraphExec

/-- How far an argument got. -/
inductive ArgumentState where
  /-- Nothing was done yet. -/
  | initialized
  /-- The value was coerced to the declared type. -/
  | coerced
  /-- The value was prepared by the application. -/
  | prepared
  /-- The argument is complete. -/
  | finished
  /-- Something failed. -/
  | errored
deriving DecidableEq, Repr

/-- How an argument came to be. -/
structure ArgumentDetail where
  /-- The name. -/
  name : String
  /-- The declared type. -/
  type : TypeRef
  /-- The final value. -/
  value : Value
  /-- The value before coercion, if the argument was given. -/
  given? : Option Value
  /-- Whether the declared default stood in. -/
  defaultUsed : Bool
  /-- How far it got. -/
  state : ArgumentState
deriving Repr

/-- A bag of arguments. -/
structure Arguments where
  /-- The values by name, in the order of their definitions. -/
  values : Fields Value := []
  /-- The loaded objects by name. -/
  loaded : Fields AppValue := []
  /-- How each value came to be. -/
  details : Fields ArgumentDetail := []
deriving Repr

namespace Arguments

/-- The bag without arguments. -/
def empty : Arguments := {}

/-- The value of an argument. -/
def get? (arguments : Arguments) (name : String) : Option Value :=
  Fields.get? arguments.values name

/-- The object that an argument loaded. -/
def loaded? (arguments : Arguments) (name : String) : Option AppValue :=
  Fields.get? arguments.loaded name

/-- Whether no argument has a value. -/
def isEmpty (arguments : Arguments) : Bool :=
  arguments.values.isEmpty

end Arguments

/-- Why a bag of arguments could not be made. -/
inductive ArgumentError where
  /-- An error for the response. -/
  | execution (error : ExecutionError)
  /-- A loaded object was refused. -/
  | unauthorized (error : UnauthorizedError)
  /-- A failure nobody expected. -/
  | unexpected (message : String)
deriving Repr

/-- A failure of application code as a failure of arguments. -/
def ArgumentError.ofResolverError : ResolverError → ArgumentError
  | .execution error => .execution error
  | .unexpected message => .unexpected message

/-- A bag of arguments, or why there is none. -/
abbrev ArgumentsResult := Except ArgumentError Arguments

/-- What a position comes to whose arguments failed. -/
def ArgumentError.outcome {σ : Type} : ArgumentError → FieldResult σ
  | .execution error => .ok (.error error)
  | .unauthorized error => .ok (.unauthorized error)
  | .unexpected message => .error (.unexpected message)

end GraphExec
