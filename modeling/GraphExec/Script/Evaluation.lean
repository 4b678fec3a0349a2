import GraphExec.Script.Outcome
import GraphExec.Text.Shown

/-!
# Evaluation of scripted outcomes

An outcome is evaluated in a scope, and may report errors on the way. What takes time keeps the
roots of its scope, but can neither ask for arguments nor look at the selections nor report.
-/

namespace GraphExec

namespace Script

namespace ArgumentType

/-- What a value is, for messages. -/
def found : Value → String
  | .null => "unit value"
  | .bool b => "boolean `" ++ (if b then "true" else "false") ++ "`"
  | .number (.int n) => "integer `" ++ toString n ++ "`"
  | .number (.float x) => "floating point `" ++ Number.floatText x ++ "`"
  | .string s => "string " ++ Text.shown s
  | .enum name => "string " ++ Text.shown name
  | .binary _ => "byte array"
  | .list _ => "sequence"
  | .object _ => "map"

/-- The wording for a value of the wrong type. -/
def wrongType (value : Value) (wanted : String) : String :=
  "invalid type: " ++ found value ++ ", expected " ++ wanted

/-- The wording for a value of the right type whose content does not fit. -/
def wrongContent (value : Value) (wanted : String) : String :=
  "invalid value: " ++ found value ++ ", expected " ++ wanted

/-- Takes a value as an integer between bounds. -/
def takeInt (wanted : String) (least greatest : Int) (value : Value) : Except String Value :=
  match value with
  | .number (.int n) =>
    if least ≤ n ∧ n ≤ greatest then .ok value
    else .error (wrongContent value wanted)
  | _ => .error (wrongType value wanted)

/-- Takes a value as an integer of 64 bits. -/
def takeInt64 (value : Value) : Except String Value :=
  takeInt "i64" (-9223372036854775808) 9223372036854775807 value

/-- The text whose bytes in UTF-8 are given. -/
def textOfBytes? (bytes : List Nat) : Option String :=
  String.fromUTF8? ⟨(bytes.map UInt8.ofNat).toArray⟩

/-- Takes a value as a text; bytes are taken where they are a text in UTF-8. -/
def takeText (value : Value) : Except String Value :=
  match value with
  | .string s => .ok (.string s)
  | .enum name => .ok (.string name)
  | .binary bytes =>
    match textOfBytes? bytes with
    | some s => .ok (.string s)
    | none => .error (wrongContent value "a string")
  | _ => .error (wrongType value "a string")

/-- Takes a value as a truth value. -/
def takeBool (value : Value) : Except String Value :=
  match value with
  | .bool b => .ok (.bool b)
  | _ => .error (wrongType value "a boolean")

/-- Takes a value as a text or null. -/
def takeOptionalText (value : Value) : Except String Value :=
  match value with
  | .null => .ok .null
  | _ => takeText value

/-- Takes a value as a list of integers of 64 bits. -/
def takeInt64List (value : Value) : Except String (List Value) :=
  match value with
  | .list items => items.mapM takeInt64
  | _ => .error (wrongType value "a sequence")

/-- Takes a value as a type, or tells why it cannot be. Of a list every item is resolved on its
own. -/
def take (type : ArgumentType) (value : Value) : Except String (ResolvedValue State) :=
  match type with
  | .int64 => .value <$> takeInt64 value
  | .int32 => .value <$> takeInt "i32" (-2147483648) 2147483647 value
  | .bool => .value <$> takeBool value
  | .text => .value <$> takeText value
  | .optionalText => .value <$> takeOptionalText value
  | .int64List => (fun items => .list (items.map .value)) <$> takeInt64List value

end ArgumentType

/-- Scripted code that may report errors. -/
abbrev Telling := StateT (List ExecutionError) (Action State)

/-- Pauses, and logs a line with a number after each pause. -/
def pausing (line? : Option String) : Nat → Nat → Lazy State Unit
  | 0, _ => .done ()
  | n + 1, count =>
    .pause <| do
      if let some line := line? then
        Lazy.ofAction (logLine (line ++ "#" ++ toString count))
      pausing line? n (count + 1)

/-- Waits for a load, which becomes the root `it`. -/
def awaitLoad (library : Library) (scope : Scope) :
    Option LoadExpr → Lazy State (Except ResolverError Scope)
  | none => .done (.ok scope)
  | some load => do
    let key := load.loadKey library (← Lazy.ofAction (load.key.evalText scope))
    .request key ((Lazy.load key).mapOk (scope.bind "it"))

/-- The lazy that logs a line, pauses, waits for a load, and then goes on. -/
def lazily {α : Type} (library : Library) (scope : Scope) (line? : Option String) (pauses : Nat)
    (load? : Option LoadExpr) (next : Scope → Action State (Except ResolverError α)) :
    Lazy State (Except ResolverError α) := do
  if let some line := line? then Lazy.ofAction (logLine line)
  pausing line? pauses 1
  match ← awaitLoad library scope load? with
  | .error error => return .error error
  | .ok scope => Lazy.ofAction (next scope)

/-- The keys that a value names: the texts of its items, or its own. -/
def keysOf : Value → List String
  | .list items => items.map Value.text
  | value => [value.text]

/-- A new object with a content. -/
def createObject (content : Value) : Action State AppObject := do
  let state ← Action.getState
  Action.modifyState fun state => { state with objects := state.objects + 1 }
  return ⟨state.objects, content⟩

namespace Outcome

mutual

/-- What an outcome comes to in a scope. -/
def eval (library : Library) (scope : Scope) : Outcome → Telling (FieldResult State)
  | .value e => do return .ok (.value (← e.eval scope))
  | .newObject content => do
    let content ← content.eval scope
    return .ok (.object (← createObject content))
  | .shared name =>
    return .ok (ResolvedValue.ofOption ((Fields.get? library.shared name).map .object))
  | .owner => return .ok (ResolvedValue.ofAppValue scope.owner)
  | .loaded argument =>
    return .ok (ResolvedValue.ofOption
      ((Fields.get? scope.loaded argument).map ResolvedValue.ofAppValue))
  | .list items => do return (← evalItems library scope items).map .list
  | .lazy line? pauses load? outcome => do
    let line? ← match line? with
      | some line => some <$> line.evalText scope
      | none => pure none
    let next := fun scope => do
      let (result, _) ← (eval library scope outcome).run []
      return result
    return .ok (.lazy (lazily library scope.later line? pauses load? next))
  | .ready outcome => do return .ok (.lazy (.done (← eval library scope outcome)))
  | .error e => do return .ok (.error (← e.eval scope))
  | .fail e => do return .error (.execution (← e.eval scope))
  | .unexpected message => do return .error (.unexpected (← message.evalText scope))
  | .unauthorized refusal => return .ok (.unauthorized refusal)
  | .skip => return .ok .skip
  | .raw e => do return .ok (.raw (← e.eval scope))
  | .rawJson json => return .ok (ResolvedValue.rawJson json)
  | .load l => do
    let key := l.loadKey library (← l.key.evalText scope)
    Action.requestKey key
    return .ok (.lazy ((Lazy.load key).mapOk .value))
  | .loadMany l => do
    let keys := keysOf (← l.key.eval scope)
    Action.requestKeys l.id (l.batchSource library) keys
    return .ok (.lazy ((Lazy.loadMany (keys.map (l.loadKey library))).mapOk fun values =>
      .list (values.map .value)))
  | .log line outcome => do
    let line ← line.evalText scope
    logLine line
    eval library scope outcome
  | .choose condition yes no => do
    if (← condition.eval scope).isTrue then eval library scope yes else eval library scope no
  | .report e outcome => do
    let told ← e.eval scope
    modify (· ++ [told])
    eval library scope outcome
  | .argumentAs name type =>
    if scope.inResolver then
      match type.take ((Fields.get? scope.arguments name).getD .null) with
      | .ok v => return .ok v
      | .error message =>
        return .error (.execution { message := "Invalid argument " ++ name ++ ": " ++ message })
    else return .ok .null

/-- What outcomes come to, one after another; the first failure is that of the whole. -/
def evalItems (library : Library) (scope : Scope) :
    List Outcome → Telling (Except ResolverError (List (ResolvedValue State)))
  | [] => return .ok []
  | item :: rest => do
    match ← eval library scope item with
    | .error failure => return .error failure
    | .ok v => return (← evalItems library scope rest).map (v :: ·)

end

/-- What an outcome comes to, whatever it reports. -/
def result (library : Library) (scope : Scope) (outcome : Outcome) :
    Action State (FieldResult State) := do
  let (result, _) ← (outcome.eval library scope).run []
  return result

end Outcome

/-- The answer of a hook that may take time, given how its result is read. A failure is an answer
that comes later. -/
def answer {α : Type} (read : ResolvedValue State → Except ResolverError α) :
    FieldResult State → Answer State ResolverError α
  | .ok (.lazy lazy) => .later (lazy.andThen read)
  | .ok value =>
    match read value with
    | .ok a => .ready a
    | .error error => .later (.done (.error error))
  | .error error => .later (.done (.error error))

/-- Whether a result is the truth value true. -/
def readTruth (value : ResolvedValue State) : Except ResolverError Bool :=
  match value with
  | .value v => .ok v.isTrue
  | _ => .ok false

/-- The type name that a result is. -/
def readTypeName (value : ResolvedValue State) : Except ResolverError String :=
  match value with
  | .value (.enum name) => .ok name
  | .value v => .ok v.text
  | _ => .ok "?"

/-- Whether resolution goes on, as a result tells it. -/
def readFlow (value : ResolvedValue State) : Except ResolverError DirectiveFlow :=
  match value with
  | .skip => .ok .skip
  | _ => .ok .proceed

/-- The wording for a result that a hook cannot have. -/
def unsupported : ExecutionError :=
  { message := "driver: unsupported result" }

/-- The value or object that a result is. -/
def readAppValue (value : ResolvedValue State) : Except ResolverError AppValue :=
  match value with
  | .value v => .ok (.data v)
  | .object o => .ok (.object o)
  | _ => .error (.execution unsupported)

/-- The value that a result is. -/
def readValue (result : FieldResult State) : Except ExecutionError Value :=
  match result with
  | .ok (.value v) => .ok v
  | .ok _ => .error unsupported
  | .error (.execution error) => .error error
  | .error (.unexpected message) => .error { message }

end Script

end GraphExec
