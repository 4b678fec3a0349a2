import GraphExec.Fields
import GraphExec.Text.Blank

/-!
# Configuration from an environment

Settings are texts under names. A truth value may be spelled in several ways; anything else under
the name of a setting is an error.
-/

namespace GraphExec

/-- Why a setting cannot be read. -/
inductive EnvError where
  /-- The value is no truth value. -/
  | invalidBoolean (name value : String)
  /-- The value is no natural number of 64 bits. -/
  | invalidNumber (name value : String)
deriving DecidableEq, Repr

/-- The wording of an error. -/
def EnvError.message : EnvError → String
  | .invalidBoolean name value =>
    "Invalid value for " ++ name ++ ": " ++ value ++
      ". Expected one of true, 1, yes, on OR false, 0, no, off"
  | .invalidNumber name value =>
    "Invalid value for " ++ name ++ ": " ++ value ++ ". Expected a non-negative integer"

/-- Settings by name. -/
structure Environment where
  /-- The settings. -/
  settings : Fields String

namespace Environment

/-- The environment without settings. -/
def empty : Environment := ⟨[]⟩

/-- The value of a setting. -/
def get? (env : Environment) (name : String) : Option String :=
  Fields.get? env.settings name

/-- Gives a setting a value. -/
def set (env : Environment) (name value : String) : Environment :=
  ⟨Fields.insert env.settings name value⟩

/-- The value of a setting, or another text if it is not set. -/
def getD (env : Environment) (name fallback : String) : String :=
  (env.get? name).getD fallback

/-- The truth value that a text spells, white space and the case of ASCII letters aside. -/
def truth? (value : String) : Option Bool :=
  let word := String.ofList ((Text.trimChars value.toList).map Char.toLower)
  if word ∈ ["true", "1", "yes", "on"] then some true
  else if word ∈ ["false", "0", "no", "off"] then some false
  else none

/-- Whether a setting is switched on. -/
def enabled (env : Environment) (name : String) (fallback : Bool) : Except EnvError Bool :=
  match env.get? name with
  | none => .ok fallback
  | some value =>
    match truth? value with
    | some b => .ok b
    | none => .error (.invalidBoolean name value)

/-- The greatest natural number that a setting may hold. -/
def greatestNat : Nat := 18446744073709551615

/-- A setting as a natural number. -/
def getNat (env : Environment) (name : String) (fallback : Nat) : Except EnvError Nat :=
  match env.get? name with
  | none => .ok fallback
  | some value =>
    match Text.readNat? (Text.trimChars value.toList) with
    | some n => if n ≤ greatestNat then .ok n else .error (.invalidNumber name value)
    | none => .error (.invalidNumber name value)

/-- Whether lazies parked at one depth are awaited together; on unless switched off. -/
def nonblocking (env : Environment) : Except EnvError Bool :=
  env.enabled "GQL_NONBLOCKING" true

/-- Whether resolver calls are traced; off unless switched on. -/
def fieldTracing (env : Environment) : Except EnvError Bool :=
  env.enabled "GQL_TRACE_FIELDS" false

end Environment

end GraphExec
