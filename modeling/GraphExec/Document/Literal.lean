import GraphExec.Document.Syntax

/-!
# Values of literals

A literal turns into a value once the variables are known. A variable without a value is no value
at all: it leaves out the object field that holds it, stands for null in a list, and makes a whole
literal absent.
-/

namespace GraphExec

namespace Literal

mutual

/-- The value of a literal, or nothing if it is a variable without a value. -/
def value? (bindings : Fields Value) : Literal → Option Value
  | .variable name => Fields.get? bindings name
  | .null => some .null
  | .number n => some (.number n)
  | .string s => some (.string s)
  | .bool b => some (.bool b)
  | .enum name => some (.enum name)
  | .binary bytes => some (.binary bytes)
  | .list items => some (.list (itemValues bindings items))
  | .object fields => some (.object (fieldValues bindings fields))

/-- The values of the items of a list. -/
def itemValues (bindings : Fields Value) : List Literal → List Value
  | [] => []
  | item :: rest => (value? bindings item).getD .null :: itemValues bindings rest

/-- The values of the fields of an object that have one. -/
def fieldValues (bindings : Fields Value) : List (String × Literal) → List (String × Value)
  | [] => []
  | (name, field) :: rest =>
    match value? bindings field with
    | some value => (name, value) :: fieldValues bindings rest
    | none => fieldValues bindings rest

end

/-- The values of written arguments; an argument that is a variable without a value is absent. -/
def argumentValues (bindings : Fields Value) (arguments : List (String × Literal)) :
    Fields Value :=
  Fields.ofList (fieldValues bindings arguments)

end Literal

end GraphExec
