import GraphExec.Lazy

/-!
# Resolved values

What resolvers hand back: plain data, objects of the application, lists of such, lazies, errors,
refusals, marks for positions to leave out, and output that is written as it is.
-/

namespace GraphExec

/-- An object of the application. Two objects are the same only if their identities are. -/
structure AppObject where
  /-- Which object it is. -/
  identity : Nat
  /-- Its content. -/
  data : Value
deriving Repr

/-- What a composite position of the response is made from. -/
inductive AppValue where
  /-- Plain data; a field without a resolver reads its key. -/
  | data (value : Value)
  /-- An object of the application. -/
  | object (object : AppObject)
deriving Repr

namespace AppValue

/-- The null. -/
def null : AppValue := .data .null

/-- Whether it is the null. -/
def isNull : AppValue → Bool
  | .data .null => true
  | _ => false

/-- The plain data, if it is no object of the application. -/
def data? : AppValue → Option Value
  | .data v => some v
  | .object _ => none

/-- The content, of plain data or of an object. -/
def content : AppValue → Value
  | .data v => v
  | .object o => o.data

end AppValue

/-- What tells apart the values that objects of the response are made from. -/
inductive Identity where
  /-- An object of the application. -/
  | object (n : Nat)
  /-- Plain data at a position of the response. -/
  | data (n : Nat)
deriving DecidableEq, Repr

/-- What an object of the response is made from. -/
structure Subject where
  /-- The value. -/
  value : AppValue
  /-- Its identity. -/
  identity : Identity
deriving Repr

/-- What a resolver hands back. -/
inductive ResolvedValue (σ : Type) where
  /-- Plain data. -/
  | value (value : Value)
  /-- An object of the application. -/
  | object (object : AppObject)
  /-- A list. -/
  | list (items : List (ResolvedValue σ))
  /-- A value that takes time. -/
  | lazy (lazy : Lazy σ (Except ResolverError (ResolvedValue σ)))
  /-- An error that nulls the position. -/
  | error (error : ExecutionError)
  /-- A refusal. -/
  | unauthorized (error : UnauthorizedError)
  /-- A position to leave out. -/
  | skip
  /-- Output that is written as it is. -/
  | raw (value : Value)

/-- What resolving a field or an item comes to. -/
abbrev FieldResult (σ : Type) := Except ResolverError (ResolvedValue σ)

namespace ResolvedValue

variable {σ : Type}

/-- The null. -/
def null : ResolvedValue σ := .value .null

/-- Whether it is the null. -/
def isNull : ResolvedValue σ → Bool
  | .value .null => true
  | _ => false

/-- Whether it is an error. -/
def isError : ResolvedValue σ → Bool
  | .error _ => true
  | _ => false

/-- The errors among some values. -/
def errors (items : List (ResolvedValue σ)) : List ExecutionError :=
  items.filterMap fun item => match item with
    | .error e => some e
    | _ => none

/-- The kind of a value, for messages. -/
def describe : ResolvedValue σ → String
  | .value (.list _) => "a list"
  | .value (.object _) => "an object"
  | .value .null => "null"
  | .value _ => "a scalar"
  | .list _ => "a list"
  | .object _ => "an application object"
  | .lazy _ => "a lazy value"
  | .error _ => "an error"
  | .unauthorized _ => "an authorization failure"
  | .skip => "a skip marker"
  | .raw _ => "a raw value"

/-- An integer. -/
def ofInt (n : Int) : ResolvedValue σ :=
  .value (.int n)

/-- A double; null if it is not finite. -/
def ofFloat (x : Float) : ResolvedValue σ :=
  if x.isFinite then .value (.number (.float x)) else null

/-- Null for nothing. -/
def ofOption : Option (ResolvedValue σ) → ResolvedValue σ
  | some v => v
  | none => null

/-- Plain data or an object of the application. -/
def ofAppValue : AppValue → ResolvedValue σ
  | .data v => .value v
  | .object o => .object o

/-- JSON that is written as it is. -/
def rawJson (json : Json) : ResolvedValue σ :=
  .raw (Value.ofJson json)

end ResolvedValue

end GraphExec
