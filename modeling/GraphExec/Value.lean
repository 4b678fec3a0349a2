import GraphExec.Json.Basic

/-!
# Values

The values that arguments, variables, application data and results are made of.
-/

namespace GraphExec

/-- A value. -/
inductive Value where
  /-- The null. -/
  | null
  /-- A truth value. -/
  | bool (b : Bool)
  /-- A number. -/
  | number (n : Number)
  /-- A text. -/
  | string (s : String)
  /-- An enum value by its name. -/
  | enum (name : String)
  /-- A string of bytes. -/
  | binary (bytes : List Nat)
  /-- A list. -/
  | list (items : List Value)
  /-- An object, its fields in order of first arrival. -/
  | object (fields : List (String × Value))
deriving Repr, Inhabited

namespace Value

/-- An integer as a value. -/
def int (n : Int) : Value :=
  .number (.int n)

/-- Whether the value is the null. -/
def isNull : Value → Bool
  | .null => true
  | _ => false

/-- A natural number in decimal, padded with zeros to four digits. -/
def padded (n : Nat) : String :=
  let digits := toString n
  Number.zeros (4 - digits.length) ++ digits

/-- Whether a character is a control character. -/
def isControl (c : Char) : Bool :=
  c.toNat < 32 || (127 ≤ c.toNat && c.toNat ≤ 159)

/-- A character inside a displayed text: control characters without a letter of their own are
shown by their decimal code. -/
def displayChar (c : Char) : String :=
  if c = '\r' then "\\r"
  else if c = '\n' then "\\n"
  else if c = '\t' then "\\t"
  else if c = '"' then "\\\""
  else if c = '\\' then "\\\\"
  else if isControl c then "\\u" ++ padded c.toNat
  else String.singleton c

/-- A text as it is shown in messages. -/
def displayText (s : String) : String :=
  "\"" ++ String.join (s.toList.map displayChar) ++ "\""

mutual

/-- A value as it is shown in messages. -/
def display : Value → String
  | .null => "null"
  | .bool b => if b then "true" else "false"
  | .number n => n.text
  | .string s => displayText s
  | .enum name => name
  | .binary bytes => "[" ++ ", ".intercalate (bytes.map toString) ++ "]"
  | .list items => "[" ++ ", ".intercalate (displayItems items) ++ "]"
  | .object fields => "\x7b" ++ ", ".intercalate (displayFields fields) ++ "\x7d"

/-- The items of a list as they are shown. -/
def displayItems : List Value → List String
  | [] => []
  | item :: rest => display item :: displayItems rest

/-- The fields of an object as they are shown. -/
def displayFields : List (String × Value) → List String
  | [] => []
  | (name, value) :: rest => (name ++ ": " ++ display value) :: displayFields rest

end

mutual

/-- A value in a response: enum values are texts and bytes are numbers. -/
def toJson : Value → Json
  | .null => .null
  | .bool b => .bool b
  | .number n => .number n
  | .string s => .string s
  | .enum name => .string name
  | .binary bytes => .array (bytes.map Json.ofNat)
  | .list items => .array (itemsToJson items)
  | .object fields => .object (fieldsToJson fields)

/-- The items of a list in a response. -/
def itemsToJson : List Value → List Json
  | [] => []
  | item :: rest => toJson item :: itemsToJson rest

/-- The fields of an object in a response. -/
def fieldsToJson : List (String × Value) → List (String × Json)
  | [] => []
  | (name, value) :: rest => (name, toJson value) :: fieldsToJson rest

end

mutual

/-- The value that a JSON value stands for; enum values and bytes have no JSON of their own. -/
def ofJson : Json → Value
  | .null => .null
  | .bool b => .bool b
  | .number n => .number n
  | .string s => .string s
  | .array items => .list (itemsOfJson items)
  | .object members => .object (fieldsOfJson members)

/-- The values that the items of an array stand for. -/
def itemsOfJson : List Json → List Value
  | [] => []
  | item :: rest => ofJson item :: itemsOfJson rest

/-- The values that the members of an object stand for. -/
def fieldsOfJson : List (String × Json) → List (String × Value)
  | [] => []
  | (name, value) :: rest => (name, ofJson value) :: fieldsOfJson rest

end

end Value

end GraphExec
