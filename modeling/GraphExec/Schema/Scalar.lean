import GraphExec.Schema.Basic
import GraphExec.Text.Blank

/-!
# Built-in scalars and directives

The five scalars that every schema knows, and the two directives that select by a condition.
-/

namespace GraphExec

namespace Scalar

/-- Whether an integer has 32 bits, signed. -/
def isInt32 (n : Int) : Bool :=
  -2147483648 ≤ n && n ≤ 2147483647

/-- The 32-bit integer that a value is: a number, perhaps a double that is whole. -/
def int32? : Value → Option Int
  | .number (.int n) => if isInt32 n then some n else none
  | .number (.float x) => (Number.wholeOfFloat? x).filter isInt32
  | _ => none

/-- A coerced value, or a refusal that shows the value. -/
def orRefuse (refusal : String) (value : Value) (coerced : Option Value) : Except String Value :=
  match coerced with
  | some v => .ok v
  | none => .error (refusal ++ ": " ++ value.display)

/-- The wording of a refusal by `Int`. -/
def intRefusal : String := "Int cannot represent non 32-bit signed integer value"

/-- What comes in at an `Int`. -/
def intInput (value : Value) : Except String Value :=
  orRefuse intRefusal value ((int32? value).map .int)

/-- What goes out at an `Int`; a text may spell the integer. -/
def intResult (value : Value) : Except String Value :=
  let read := match value with
    | .string s => (Text.readInt? (Text.trimChars s.toList)).filter isInt32
    | other => int32? other
  orRefuse intRefusal value (read.map .int)

/-- What comes in or goes out at a `Float`. -/
def float (value : Value) : Except String Value :=
  orRefuse "Float cannot represent non numeric value" value <|
    match value with
    | .number n => some (.number (.float n.toFloat))
    | _ => none

/-- What comes in at a `String`. -/
def stringInput (value : Value) : Except String Value :=
  orRefuse "String cannot represent a non string value" value <|
    match value with
    | .string s => some (.string s)
    | _ => none

/-- What goes out at a `String`: numbers, truth values and enum values as their texts. -/
def stringResult (value : Value) : Except String Value :=
  orRefuse "String cannot represent value" value <|
    match value with
    | .string s => some (.string s)
    | .number n => some (.string n.text)
    | .bool b => some (.string (if b then "true" else "false"))
    | .enum name => some (.string name)
    | _ => none

/-- What comes in or goes out at a `Boolean`. -/
def boolean (value : Value) : Except String Value :=
  orRefuse "Boolean cannot represent a non boolean value" value <|
    match value with
    | .bool b => some (.bool b)
    | _ => none

/-- What comes in or goes out at an `ID`: texts, and integers as their texts. -/
def id (value : Value) : Except String Value :=
  orRefuse "ID cannot represent value" value <|
    match value with
    | .string s => some (.string s)
    | .number (.int n) => some (.string (toString n))
    | _ => none

/-- A scalar type whose coercions depend on the value alone. -/
def ofFunctions {σ : Type} (name : String) (input result : Value → Except String Value) :
    ScalarType σ :=
  ⟨name, fun value => pure (input value), fun value => pure (result value)⟩

/-- The scalars that every schema knows. -/
def builtIn {σ : Type} : List (ScalarType σ) :=
  [ofFunctions "Int" intInput intResult,
   ofFunctions "Float" float float,
   ofFunctions "String" stringInput stringResult,
   ofFunctions "Boolean" boolean boolean,
   ofFunctions "ID" id id]

end Scalar

namespace DirectiveDefinition

variable {σ : Type}

/-- Whether the condition of `skip` and `include` is true. -/
def condition (arguments : Arguments) : Bool :=
  match arguments.get? "if" with
  | some (.bool b) => b
  | _ => false

/-- A directive that selects by a condition. -/
def conditional (name : String) (select : Bool → Bool) : DirectiveDefinition σ :=
  { name
    arguments := [("if", { name := "if", type := .nonNull (.named "Boolean") })]
    include? := some fun arguments _ => pure (select (condition arguments)) }

/-- The directives that every schema knows. -/
def builtIn : List (DirectiveDefinition σ) :=
  [conditional "skip" not, conditional "include" fun b => b]

end DirectiveDefinition

end GraphExec
