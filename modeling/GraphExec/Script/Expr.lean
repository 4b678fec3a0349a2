import GraphExec.Selection.Lookahead

/-!
# Scripted expressions

An application can be scripted: its hooks and resolvers are then written as JSON. This module
holds the expressions of such scripts. A form is an object whose only key starts with a dollar
sign; everything else stands for itself, member by member.
-/

namespace GraphExec

namespace Script

/-- What is known of the fetches of a source: their keys, and marks of an observer. -/
inductive FetchRecord where
  /-- A fetch of keys. -/
  | keys (keys : List String)
  /-- A mark. -/
  | mark (text : String)

/-- The state of a scripted application. -/
structure State where
  /-- What was logged, in order. -/
  log : Array String
  /-- The fetches by the name of their source. -/
  fetches : Fields (List FetchRecord)
  /-- The identity of the next object. -/
  objects : Nat

namespace State

/-- Appends a line to the log. -/
def append (state : State) (line : String) : State :=
  { state with log := state.log.push line }

/-- Appends a record to those of a source. -/
def record (state : State) (source : String) (entry : FetchRecord) : State :=
  { state with
    fetches := Fields.insert state.fetches source
      ((Fields.get? state.fetches source).getD [] ++ [entry]) }

end State

/-- Appends a line to the log. -/
def logLine (line : String) : Action State Unit :=
  Action.modifyState fun state => state.append line

end Script

namespace Value

mutual

/-- A value in the JSON of scripts: enum values and bytes are forms of their own. -/
def encode : Value → Json
  | .null => .null
  | .bool b => .bool b
  | .number n => .number n
  | .string s => .string s
  | .enum name => .object [("$enum", .string name)]
  | .binary bytes => .object [("$binary", .array (bytes.map Json.ofNat))]
  | .list items => .array (encodeItems items)
  | .object fields => .object (encodeFields fields)

/-- The items of a list in the JSON of scripts. -/
def encodeItems : List Value → List Json
  | [] => []
  | item :: rest => encode item :: encodeItems rest

/-- The fields of an object in the JSON of scripts. -/
def encodeFields : List (String × Value) → List (String × Json)
  | [] => []
  | (name, value) :: rest => (name, encode value) :: encodeFields rest

end

/-- The text of a value: a text is itself, anything else is its JSON. -/
def text : Value → String
  | .string s => s
  | value => value.encode.compact

/-- The value at a key of an object or at an index of a list, else null. -/
def part (value : Value) (step : Value) : Value :=
  match value, step with
  | .object fields, .string key => (Fields.get? fields key).getD .null
  | .list items, .number (.int n) => if n < 0 then .null else items[n.toNat]?.getD .null
  | _, _ => .null

/-- Whether the value is the truth value true. -/
def isTrue : Value → Bool
  | .bool b => b
  | _ => false

end Value

namespace Script

/-- What an expression asks of a view of the selections. -/
inductive Look where
  /-- The names of what is selected. -/
  | names
  /-- Whether there is anything to see. -/
  | present
  /-- The arguments. -/
  | arguments
  /-- Whether a name is selected. -/
  | selects (name : String)

/-- An expression. -/
inductive Expr where
  /-- A value. -/
  | constant (value : Value)
  /-- A list. -/
  | list (items : List Expr)
  /-- An object. -/
  | object (fields : List (String × Expr))
  /-- A part of a root of the scope. -/
  | get (root : String) (steps : List Value)
  /-- An argument. -/
  | argument (name : String)
  /-- A choice. -/
  | choose (condition yes no : Expr)
  /-- Whether two values are written alike. -/
  | equal (left right : Expr)
  /-- Whether a value is not true. -/
  | not (operand : Expr)
  /-- Texts put together. -/
  | join (parts : List Expr)
  /-- Logs a text, then is the other operand. -/
  | log (line result : Expr)
  /-- A question about what is selected below names. -/
  | look (names : List String) (question : Look)

/-- The texts among JSON values. -/
def texts (items : List Json) : List String :=
  items.filterMap fun item => match item with
    | .string s => some s
    | _ => none

/-- The elements of a JSON array. -/
def elements : Json → List Json
  | .array items => items
  | _ => []

/-- The natural number that a JSON value is, else zero. -/
def natural : Json → Nat
  | .number (.int n) => n.toNat
  | _ => 0

/-- The text that a JSON value is, else the empty one. -/
def string : Json → String
  | .string s => s
  | _ => ""

/-- The question that JSON values ask of a view. -/
def Look.read? : List Json → Option Look
  | [.string "names"] => some .names
  | [.string "exists"] => some .present
  | [.string "args"] => some .arguments
  | [.string "selects", .string name] => some (.selects name)
  | _ => none

namespace Expr

/-- The form of a name, given its body and what the body stands for by itself. -/
def form (name : String) (body : Json) (operand : Expr) : Expr :=
  let plain := Expr.object [(name, operand)]
  match name, body, operand with
  | "$enum", .string s, _ => .constant (.enum s)
  | "$binary", .array bytes, _ => .constant (.binary (bytes.map natural))
  | "$get", .array (.string root :: steps), _ => .get root (steps.map Value.ofJson)
  | "$arg", .string s, _ => .argument s
  | "$if", _, .list [condition, yes, no] => .choose condition yes no
  | "$eq", _, .list [left, right] => .equal left right
  | "$not", _, operand => .not operand
  | "$str", _, .list parts => .join parts
  | "$log", _, .list [line, result] => .log line result
  | "$look", .array (.array names :: question), _ =>
    match Look.read? question with
    | some question => .look (texts names) question
    | none => plain
  | _, _, _ => plain

mutual

/-- The expression that a JSON value writes. -/
def ofJson : Json → Expr
  | .null => .constant .null
  | .bool b => .constant (.bool b)
  | .number n => .constant (.number n)
  | .string s => .constant (.string s)
  | .array items => .list (ofItems items)
  | .object [(name, body)] => form name body (ofJson body)
  | .object members => .object (ofMembers members)

/-- The expressions that JSON values write. -/
def ofItems : List Json → List Expr
  | [] => []
  | item :: rest => ofJson item :: ofItems rest

/-- The expressions that the members of a JSON object write. -/
def ofMembers : List (String × Json) → List (String × Expr)
  | [] => []
  | (name, value) :: rest => (name, ofJson value) :: ofMembers rest

end

end Expr

/-- What an expression can refer to. -/
structure Scope where
  /-- The roots by name. -/
  roots : Fields Value := []
  /-- The arguments, where they can be asked for by name. -/
  arguments : Fields Value := []
  /-- Whether arguments can be asked for. -/
  inResolver : Bool := false
  /-- The view of the selections. -/
  lookahead? : Option (Lookahead State) := none
  /-- The object that owns the field. -/
  owner : AppValue := .null
  /-- The loaded objects by argument. -/
  loaded : Fields AppValue := []

namespace Scope

/-- The value of a root, else null. -/
def root (scope : Scope) (name : String) : Value :=
  (Fields.get? scope.roots name).getD .null

/-- A scope with one more root. -/
def bind (scope : Scope) (name : String) (value : Value) : Scope :=
  { scope with roots := Fields.insert scope.roots name value }

/-- What is left of a scope for code that runs later. -/
def later (scope : Scope) : Scope :=
  { scope with arguments := [], inResolver := false, lookahead? := none }

end Scope

/-- Follows names down a view, then asks a question. -/
def Look.ask (view : Lookahead State) : List String → Look → Action State Value
  | name :: rest, question => do
    let below ← view.selection name
    Look.ask below rest question
  | [], .names => do return .list ((← view.selectionNames).map .string)
  | [], .present => return .bool view.isPresent
  | [], .arguments => return .object view.arguments
  | [], .selects name => do return .bool (← view.selects name)

namespace Expr

mutual

/-- The value of an expression in a scope. -/
def eval (scope : Scope) : Expr → Action State Value
  | .constant value => return value
  | .list items => do return .list (← evalItems scope items)
  | .object fields => do return .object (← evalFields scope fields)
  | .get root steps => return steps.foldl Value.part (scope.root root)
  | .argument name => return (Fields.get? scope.arguments name).getD .null
  | .choose condition yes no => do
    if (← eval scope condition).isTrue then eval scope yes else eval scope no
  | .equal left right => do
    let left ← eval scope left
    let right ← eval scope right
    return .bool (left.encode.compact = right.encode.compact)
  | .not operand => do return .bool !(← eval scope operand).isTrue
  | .join parts => do return .string (String.join ((← evalItems scope parts).map Value.text))
  | .log line result => do
    let line ← eval scope line
    logLine line.text
    eval scope result
  | .look names question =>
    match scope.lookahead? with
    | some view => question.ask view names
    | none => return .null

/-- The values of expressions, one after another. -/
def evalItems (scope : Scope) : List Expr → Action State (List Value)
  | [] => return []
  | item :: rest => do
    let value ← eval scope item
    return value :: (← evalItems scope rest)

/-- The values of the fields of an object, one after another. -/
def evalFields (scope : Scope) : List (String × Expr) → Action State (List (String × Value))
  | [] => return []
  | (name, field) :: rest => do
    let value ← eval scope field
    return (name, value) :: (← evalFields scope rest)

end

/-- The text of an expression in a scope. -/
def evalText (scope : Scope) (e : Expr) : Action State String := do
  return (← eval scope e).text

end Expr

end Script

end GraphExec
