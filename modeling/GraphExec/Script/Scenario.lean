import GraphExec.Execution
import GraphExec.Script.Declaration

/-!
# Scenarios

A scenario is a scripted application with the requests that it is asked. Playing it tells the
responses, and what the application saw meanwhile.
-/

namespace GraphExec

namespace Script

/-- The answer to a request: a response, or that its text is no document. -/
inductive Reply where
  /-- The text does not follow the grammar. -/
  | malformed
  /-- A response. -/
  | response (response : Response)

/-- What playing a scenario comes to. -/
inductive Ending where
  /-- The settings cannot be read. -/
  | badSettings (error : EnvError)
  /-- The schema cannot be built. -/
  | badSchema (error : SchemaError)
  /-- The requests were executed, or a fatal error ended that. -/
  | played (config : Config) (queryType : String) (result : Except FatalError (List Reply))
      (state : State)
  /-- The requests take longer than is waited for. -/
  | unfinished

/-- The members of a JSON object. -/
def members : Json → List (String × Json)
  | .object fields => fields
  | _ => []

/-- The shared objects: numbered in order, their contents evaluated one after another. -/
def sharedObjects (n : Nat) : List (String × Json) → Action State (Fields AppObject)
  | [] => return []
  | (name, json) :: rest => do
    let content ← (Expr.ofJson json).eval {}
    return (name, ⟨n, content⟩) :: (← sharedObjects (n + 1) rest)

/-- What the fields of the root type are resolved for, as a result tells it. -/
def rootValue (result : FieldResult State) : AppValue :=
  match result with
  | .ok (.value v) => .data v
  | .ok (.object o) => .object o
  | _ => .null

/-- A request of a scenario, or why it is none. -/
def request (library : Library) (json : Json) : Action State (Except RequestError Request) := do
  match Request.parse (textMember json "query") with
  | .error error => return .error error
  | .ok parsed =>
    let root ← match outcomeMember? json "root" with
      | some outcome => rootValue <$> outcome.result library {}
      | none => pure .null
    let data? ← match exprMember? json "data" with
      | some e => some <$> e.eval {}
      | none => pure none
    return .ok { parsed with
      operationName? := textMember? json "operation"
      variableValues := members (member json "variables")
      root
      data? }

/-- The requests of a scenario. -/
def requests (library : Library) : List Json → Action State (List (Except RequestError Request))
  | [] => return []
  | json :: rest => do
    let first ← request library json
    return first :: (← requests library rest)

/-- The log line for an event, if there is one. -/
def eventLine? : Event → Option String
  | .beginField typeName fieldName path =>
    some ("+field " ++ typeName ++ "." ++ fieldName ++ " " ++ path.text)
  | .endField typeName fieldName path =>
    some ("-field " ++ typeName ++ "." ++ fieldName ++ " " ++ path.text)
  | .beginType abstractType => some ("+type " ++ abstractType)
  | .endType abstractType resolved => some ("-type " ++ abstractType ++ " " ++ resolved.getD "-")
  | .beginAuthorized typeName => some ("+authorized " ++ typeName)
  | .endAuthorized typeName allowed =>
    let decision := match allowed with
      | some b => if b then "true" else "false"
      | none => "-"
    some ("-authorized " ++ typeName ++ " " ++ decision)
  | .beginFetch _ _ => none
  | .endFetch _ _ => none

/-- An observer that puts events into the log and marks into the fetches. -/
def trace (event : Event) (state : State) : State :=
  match event with
  | .beginFetch source keys => state.record source (.mark ("+" ++ toString keys))
  | .endFetch source keys => state.record source (.mark ("-" ++ toString keys))
  | event =>
    match eventLine? event with
    | some line => state.append line
    | none => state

/-- The settings of a scenario. -/
def config (json : Json) : Except EnvError Config :=
  match json.member? "env" with
  | none => .ok {}
  | some env =>
    Config.ofEnvironment ⟨(members env).map fun (name, value) => (name, string value)⟩

/-- Puts responses in the places of the requests that were documents. -/
def replies : List (Except RequestError Request) → List Response → List Reply
  | [], _ => []
  | .error (.document .malformed) :: rest, responses => .malformed :: replies rest responses
  | .error error :: rest, responses =>
    .response (Response.ofRequestError error) :: replies rest responses
  | .ok _ :: rest, response :: responses => .response response :: replies rest responses
  | .ok _ :: _, [] => []

/-- The number of transitions that is waited for. -/
def patience : Nat := 1000000000000

/-- Executes requests. -/
def execute (schema : Schema State) (config : Config) (asked : List (Except RequestError Request))
    (world : World State) : Ending :=
  let documents := asked.filterMap (·.toOption)
  match schema.executeAll? config patience documents world with
  | none => .unfinished
  | some (result, world) =>
    .played config schema.queryType (result.map (replies asked)) world.app

/-- Plays a scenario. -/
def play (json : Json) : Ending :=
  let observe := if (member json "trace").truth then trace else fun _ state => state
  let shared := members (member json "shared")
  let world : World State := { app := ⟨#[], [], shared.length⟩, observe, sources := [] }
  let (prepared, world) := (do
    let objects ← sharedObjects 0 shared
    let sources := (members (member json "sources")).map fun (name, source) =>
      (name, SourceScript.ofJson source)
    let library : Library := { sources, shared := objects }
    let built ← schema library (member json "schema")
    let asked ← requests library (elements (member json "requests"))
    return (built, asked) : Action State _).run.run world
  match prepared, config json with
  | (.error error, _), _ => .badSchema error
  | (.ok _, _), .error error => .badSettings error
  | (.ok built, asked), .ok config => execute built config asked world

end Script

end GraphExec
