import GraphExec.Script.Expr

/-!
# Scripted outcomes

What scripted resolvers and hooks come to: values, objects, lists, lazies, loads and failures. The
identity of an object is a number that no other object has.
-/

namespace GraphExec

namespace Script

/-- An error of the response, as a script writes it. -/
structure ErrorExpr where
  /-- The message. -/
  message : Expr
  /-- The path, if the script gives one. -/
  path? : Option Expr
  /-- The places in the document. -/
  locations : List Location
  /-- The extensions, if the script gives any. -/
  extensions? : Option (List (String × Expr))

namespace ErrorExpr

/-- The location that a pair of numbers writes. -/
def location? : Json → Option Location
  | .array [line, column] => some ⟨natural line, natural column⟩
  | _ => none

/-- The error that a JSON value writes: an object with a message, else an expression for the
message alone. -/
def ofJson (json : Json) : ErrorExpr :=
  match json.member? "message" with
  | none => ⟨Expr.ofJson json, none, [], none⟩
  | some message =>
    { message := Expr.ofJson message
      path? := (json.member? "path").map Expr.ofJson
      locations := (elements ((json.member? "locations").getD .null)).filterMap location?
      extensions? := match json.member? "extensions" with
        | some (.object (first :: rest)) => some (Expr.ofMembers (first :: rest))
        | _ => none }

/-- The path that a value gives: a list of numbers and texts, else the empty path. -/
def pathOf : Value → Path
  | .list items => items.map fun item =>
    match item with
    | .number (.int n) => if n < 0 then .field item.text else .index n.toNat
    | other => .field other.text
  | _ => []

/-- The error in a scope. -/
def eval (scope : Scope) (error : ErrorExpr) : Action State ExecutionError := do
  let message ← error.message.evalText scope
  let path ← match error.path? with
    | some path => some <$> pathOf <$> path.eval scope
    | none => pure none
  let extensions ← match error.extensions? with
    | some fields => some <$> Value.encodeFields <$> Expr.evalFields scope fields
    | none => pure none
  return { message, locations := error.locations, path, extensions }

end ErrorExpr

/-- What a script says of a batch source. -/
structure SourceScript where
  /-- How often a fetch pauses. -/
  pauses : Nat := 0
  /-- How a fetch fails. -/
  failure : ErrorExpr := ErrorExpr.ofJson (.string "")
  /-- The keys that make a fetch fail. -/
  failingKeys : List String := []
  /-- The values by key. -/
  values : List (String × Expr) := []
  /-- The value of any other key. -/
  fallback : Expr := .constant .null
  /-- How many values are missing at the end. -/
  missing : Nat := 0

namespace SourceScript

/-- The source that a JSON value describes. -/
def ofJson (json : Json) : SourceScript :=
  { pauses := natural ((json.member? "yields").getD .null)
    failure := ErrorExpr.ofJson ((json.member? "fail").getD (.string ""))
    failingKeys := texts (elements ((json.member? "fail_keys").getD .null))
    values := match json.member? "values" with
      | some (.object members) => Expr.ofMembers members
      | _ => []
    fallback := Expr.ofJson ((json.member? "default").getD .null)
    missing := natural ((json.member? "drop").getD .null) }

/-- The value of a key. Only the value of keys without one of their own may refer to the key. -/
def valueOf (script : SourceScript) (key : String) : Action State Value :=
  match Fields.get? script.values key with
  | some value => value.eval {}
  | none => script.fallback.eval { roots := [("key", .string key)] }

/-- The values of keys, one after another. -/
def valuesOf (script : SourceScript) : List String → Action State (List Value)
  | [] => return []
  | key :: rest => do
    let value ← script.valueOf key
    return value :: (← script.valuesOf rest)

/-- What a fetch comes to. -/
def outcome (script : SourceScript) (keys : List String) :
    Action State (Except ExecutionError (List Value)) := do
  if keys.any script.failingKeys.contains then return .error (← script.failure.eval {})
  else
    let values ← script.valuesOf keys
    return .ok (values.take (values.length - script.missing))

/-- A fetch that pauses, then comes to what some code says. -/
def fetchAfter (action : Action State (Except ExecutionError (List Value))) :
    Nat → Fetch State
  | 0 => Fetch.ofAction action
  | n + 1 => .pause (fetchAfter action n)

/-- The batch source of a name. -/
def source (script : SourceScript) (name : String) : BatchSource State :=
  { name
    fetch := fun keys => .read fun state =>
      .write (state.record name (.keys keys)) (fetchAfter (script.outcome keys) script.pauses) }

end SourceScript

/-- What scripts refer to beside their scope. -/
structure Library where
  /-- The batch sources by name. -/
  sources : Fields SourceScript
  /-- The shared objects by name. -/
  shared : Fields AppObject

/-- A load, as a script writes it. -/
structure LoadExpr where
  /-- The source. -/
  source : String
  /-- The batch. -/
  batch : String
  /-- The kind of source. -/
  kind : Nat
  /-- The key, or the list of keys. -/
  key : Expr

namespace LoadExpr

/-- The load that a JSON value writes, its key under a member name. -/
def ofJson (keyName : String) (json : Json) : LoadExpr :=
  let source := string ((json.member? "source").getD .null)
  { source
    batch := match json.member? "batch" with
      | some (.string batch) => batch
      | _ => source
    kind := natural ((json.member? "kind").getD .null)
    key := Expr.ofJson ((json.member? keyName).getD .null) }

/-- The name of the source that the load asks. -/
def sourceName (load : LoadExpr) : String :=
  if load.kind = 0 then load.batch else load.batch ++ "|" ++ toString load.kind

/-- What tells the source apart from others. -/
def id (load : LoadExpr) : SourceId :=
  ⟨load.kind, load.batch⟩

/-- The source, should it be used for the first time. -/
def batchSource (load : LoadExpr) (library : Library) : BatchSource State :=
  ((Fields.get? library.sources load.source).getD {}).source load.sourceName

/-- The key to load. -/
def loadKey (load : LoadExpr) (library : Library) (key : String) : LoadKey State :=
  ⟨load.id, load.batchSource library, key⟩

end LoadExpr

/-- The types that an argument can be taken as. -/
inductive ArgumentType where
  /-- An integer of 64 bits. -/
  | int64
  /-- An integer of 32 bits. -/
  | int32
  /-- A truth value. -/
  | bool
  /-- A text. -/
  | text
  /-- A text or null. -/
  | optionalText
  /-- A list of integers of 64 bits. -/
  | int64List

/-- The type of a name. -/
def ArgumentType.read : String → ArgumentType
  | "i32" => .int32
  | "bool" => .bool
  | "string" => .text
  | "opt_string" => .optionalText
  | "list_i64" => .int64List
  | _ => .int64

/-- An outcome, as a script writes it. -/
inductive Outcome where
  /-- A value. -/
  | value (e : Expr)
  /-- A new object. -/
  | newObject (content : Expr)
  /-- A shared object. -/
  | shared (name : String)
  /-- The object that owns the field. -/
  | owner
  /-- The object that an argument loaded. -/
  | loaded (argument : String)
  /-- A list. -/
  | list (items : List Outcome)
  /-- An outcome that takes time. -/
  | lazy (line? : Option Expr) (pauses : Nat) (load? : Option LoadExpr) (outcome : Outcome)
  /-- An outcome that could take time but is there. -/
  | ready (outcome : Outcome)
  /-- An error as a value. -/
  | error (error : ErrorExpr)
  /-- A failure. -/
  | fail (error : ErrorExpr)
  /-- A failure nobody expected. -/
  | unexpected (message : Expr)
  /-- A refusal. -/
  | unauthorized (refusal : UnauthorizedError)
  /-- A position to leave out. -/
  | skip
  /-- Output that is written as it is. -/
  | raw (e : Expr)
  /-- JSON that is written as it is. -/
  | rawJson (json : Json)
  /-- The value of a key. -/
  | load (load : LoadExpr)
  /-- The values of keys. -/
  | loadMany (load : LoadExpr)
  /-- Logs a text, then comes to something. -/
  | log (line : Expr) (outcome : Outcome)
  /-- A choice. -/
  | choose (condition : Expr) (yes no : Outcome)
  /-- Reports an error, then comes to something. -/
  | report (error : ErrorExpr) (outcome : Outcome)
  /-- An argument taken as a type. -/
  | argumentAs (name : String) (type : ArgumentType)

/-- The refusal that a JSON value writes. -/
def refusal (json : Json) : UnauthorizedError :=
  let typeName := string ((json.member? "type").getD .null)
  match json.member? "field" with
  | some (.string fieldName) => .field typeName fieldName
  | _ => .object typeName

namespace Outcome

mutual

/-- The outcome that a JSON value writes. -/
def ofJson : Json → Outcome
  | .object [(name, body)] =>
    let first := (elements body).headD .null
    if name = "$obj" then .newObject (Expr.ofJson body)
    else if name = "$shared" then .shared (string body)
    else if name = "$self" then .owner
    else if name = "$loaded" then .loaded (string body)
    else if name = "$list" then .list (ofElements body)
    else if name = "$lazy" then
      .lazy ((body.member? "log").map Expr.ofJson)
        (natural ((body.member? "yields").getD .null))
        ((body.member? "load").map (LoadExpr.ofJson "key"))
        (ofMember "then" body)
    else if name = "$ready" then .ready (ofJson body)
    else if name = "$error" then .error (ErrorExpr.ofJson body)
    else if name = "$fail" then .fail (ErrorExpr.ofJson body)
    else if name = "$unexpected" then .unexpected (Expr.ofJson body)
    else if name = "$unauthorized" then .unauthorized (refusal body)
    else if name = "$skip" then .skip
    else if name = "$raw" then .raw (Expr.ofJson body)
    else if name = "$raw_json" then .rawJson body
    else if name = "$load" then .load (LoadExpr.ofJson "key" body)
    else if name = "$load_many" then .loadMany (LoadExpr.ofJson "keys" body)
    else if name = "$log" then .log (Expr.ofJson first) (ofElement 1 body)
    else if name = "$if" then .choose (Expr.ofJson first) (ofElement 1 body) (ofElement 2 body)
    else if name = "$add_error" then .report (ErrorExpr.ofJson first) (ofElement 1 body)
    else if name = "$arg_as" then
      match texts (elements body) with
      | [argument, type] => .argumentAs argument (ArgumentType.read type)
      | _ => .value (.constant .null)
    else .value (Expr.ofJson (.object [(name, body)]))
  | json => .value (Expr.ofJson json)

/-- The outcomes that the elements of an array write. -/
def ofElements : Json → List Outcome
  | .array items => ofItems items
  | _ => []

/-- The outcomes that JSON values write. -/
def ofItems : List Json → List Outcome
  | [] => []
  | item :: rest => ofJson item :: ofItems rest

/-- The outcome that an element of an array writes. -/
def ofElement (n : Nat) : Json → Outcome
  | .array items => ofItem n items
  | _ => .value (.constant .null)

/-- The outcome that one of several JSON values writes. -/
def ofItem (n : Nat) : List Json → Outcome
  | [] => .value (.constant .null)
  | item :: rest =>
    match n with
    | 0 => ofJson item
    | n + 1 => ofItem n rest

/-- The outcome that a member of an object writes. -/
def ofMember (name : String) : Json → Outcome
  | .object members => ofMembers name members
  | _ => .value (.constant .null)

/-- The outcome that the member of a name writes. -/
def ofMembers (name : String) : List (String × Json) → Outcome
  | [] => .value (.constant .null)
  | (k, member) :: rest => if k = name then ofJson member else ofMembers name rest

end

end Outcome

end Script

end GraphExec
