import GraphExec.Schema.Builder
import GraphExec.Script.Evaluation

/-!
# Scripted schemas

A schema whose types, directives and hooks are declared as JSON. Each hook evaluates a scripted
expression or outcome; what it can refer to depends on the hook.
-/

namespace GraphExec

namespace Script

/-- Members of a JSON object, by type. -/
def member (json : Json) (name : String) : Json :=
  (json.member? name).getD .null

/-- The text under a member. -/
def textMember (json : Json) (name : String) : String :=
  string (member json name)

/-- The outcome under a member. -/
def outcomeMember? (json : Json) (name : String) : Option Outcome :=
  (json.member? name).map Outcome.ofJson

/-- The expression under a member. -/
def exprMember? (json : Json) (name : String) : Option Expr :=
  (json.member? name).map Expr.ofJson

/-- The text, or null. -/
def textOrNull : Option String → Value
  | some s => .string s
  | none => .null

/-- The roots that every hook of a request has. -/
def queryRoots (query : QueryContext) : Fields Value :=
  [("vars", .object query.bindings), ("op", textOrNull query.operationName?),
   ("data", query.data?.getD .null)]

/-- The scope of a hook with roots of its own. -/
def hookScope (query : QueryContext) (roots : List (String × Value)) : Scope :=
  { roots := roots ++ queryRoots query }

/-- A path as a value. -/
def pathValue (path : Path) : Value :=
  .list (path.map fun segment =>
    match segment with
    | .field key => .string key
    | .index n => .int n)

/-- The contents of loaded objects, by argument. -/
def loadedValue (loaded : Fields AppValue) : Value :=
  .object (loaded.map fun (name, object) => (name, object.content))

/-- The name of a state. -/
def stateName : ArgumentState → String
  | .initialized => "Initialized"
  | .coerced => "Coerced"
  | .prepared => "Prepared"
  | .finished => "Finished"
  | .errored => "Errored"

/-- How an argument came to be, as a value. -/
def detailValue (detail : ArgumentDetail) : Value :=
  .object [("name", .string detail.name), ("type", .string detail.type.text),
    ("value", detail.value), ("original", .list detail.given?.toList),
    ("default_used", .bool detail.defaultUsed), ("state", .string (stateName detail.state))]

/-- The roots that show a bag of arguments. -/
def argumentRoots (arguments : Arguments) : Fields Value :=
  [("args", .object arguments.values), ("loaded", loadedValue arguments.loaded),
   ("no_args", .bool arguments.isEmpty)]

/-- A field node, as a value. -/
def nodeValue (node : FieldNode) : Value :=
  .object [("name", .string node.name), ("alias", textOrNull node.alias?),
    ("line", .int node.location.line), ("column", .int node.location.column),
    ("arguments", .int node.arguments.length), ("directives", .int node.directives.length),
    ("selections", .int node.selections.length)]

/-- The scope of a resolver. -/
def resolverScope (context : ResolverContext State) : Scope :=
  let extras := context.extras
  { roots := argumentRoots context.arguments ++
      [("details", .object (context.arguments.details.map fun (name, d) => (name, detailValue d))),
       ("object", context.object.content), ("type", .string context.typeName),
       ("field", .string context.fieldName),
       ("path", (extras.path?.map pathValue).getD .null),
       ("ast", (extras.node?.map nodeValue).getD .null),
       ("parent", (extras.parent?.map AppValue.content).getD .null),
       ("has_parent", .bool extras.parent?.isSome), ("extra", .object extras.custom)] ++
      queryRoots context.query
    arguments := context.arguments.values
    inResolver := true
    lookahead? := extras.lookahead?
    owner := context.object
    loaded := context.arguments.loaded }

/-- The answer of a hook that loads an object. What fails at once is a failure of the hook. -/
def loadAnswer : FieldResult State → Except ResolverError (Answer State ResolverError AppValue)
  | .ok (.lazy lazy) => .ok (.later (lazy.andThen readAppValue))
  | .ok value => .ready <$> readAppValue value
  | .error error => .error error

/-- The declared argument of a field or directive, or field of an input object. -/
def inputDefinition (library : Library) (json : Json) : Action State (InputDefinition State) := do
  let default? ← match exprMember? json "default" with
    | some e => some <$> e.eval {}
    | none => pure none
  return {
    name := textMember json "name"
    type := TypeRef.parse (textMember json "type")
    default?
    prepare? := (outcomeMember? json "prepare").map fun outcome value query => do
      return readValue (← outcome.result library (hookScope query [("value", value)]))
    loads? := (json.member? "loads").map fun loads =>
      (textMember loads "type", fun value query => do
        let outcome := Outcome.ofJson (member loads "load")
        return loadAnswer (← outcome.result library (hookScope query [("value", value)]))) }

/-- Declared arguments by name. -/
def inputDefinitions (library : Library) :
    List Json → Action State (List (String × InputDefinition State))
  | [] => return []
  | json :: rest => do
    let definition ← inputDefinition library json
    return (definition.name, definition) :: (← inputDefinitions library rest)

/-- What a field is declared to ask for. -/
def extra? : Json → Option Extra
  | .string "ast" => some .node
  | .string "path" => some .path
  | .string "lookahead" => some .lookahead
  | .string "errors" => some .errors
  | .string "parent" => some .parent
  | json =>
    match json.member? "custom" with
    | some (.string name) => some (.custom name)
    | _ => none

/-- The declared field of an object type. -/
def fieldDefinition (library : Library) (json : Json) : Action State (FieldDefinition State) := do
  let arguments ← inputDefinitions library (elements (member json "args"))
  return {
    name := textMember json "name"
    type := TypeRef.parse (textMember json "type")
    arguments := Fields.ofList arguments
    resolve? := (outcomeMember? json "resolve").map fun outcome context => do
      let (result, reported) ← (outcome.eval library (resolverScope context)).run []
      return { result, reported }
    extras := (elements (member json "extras")).filterMap extra?
    authorize? := (exprMember? json "authorize").map fun e context => do
      return (← e.eval (resolverScope context)).isTrue
    provide? := (exprMember? json "extra_provider").map fun e name query =>
      e.eval (hookScope query [("name", .string name)]) }

/-- Declared fields by name. -/
def fieldDefinitions (library : Library) :
    List Json → Action State (List (String × FieldDefinition State))
  | [] => return []
  | json :: rest => do
    let definition ← fieldDefinition library json
    return (definition.name, definition) :: (← fieldDefinitions library rest)

/-- The coercion of a declared scalar. -/
def coercion (library : Library) (outcome? : Option Outcome) (value : Value) :
    Action State (Except String Value) := do
  match outcome? with
  | none => return .ok value
  | some outcome =>
    let result ← outcome.result library { roots := [("value", value)] }
    return (readValue result).mapError (·.message)

/-- The declared hook that names a concrete type. -/
def typeResolver (library : Library) (typeName : String) (outcome : Outcome) :
    TypeResolver State := fun value query => do
  let roots := [("value", value.content), ("abstract", .string typeName)]
  return answer readTypeName (← outcome.result library (hookScope query roots))

/-- The declared type. -/
def typeDefinition (library : Library) (json : Json) : Action State (TypeDefinition State) := do
  let name := textMember json "name"
  let resolveType? := (outcomeMember? json "resolve_type").map (typeResolver library name)
  match textMember json "kind" with
  | "interface" => return .interface { name, resolveType? }
  | "union" =>
    return .union { name, members := texts (elements (member json "members")), resolveType? }
  | "enum" => return .enum { name, values := texts (elements (member json "values")) }
  | "input" =>
    let fields ← inputDefinitions library (elements (member json "fields"))
    return .inputObject { name, fields := Fields.ofList fields }
  | "scalar" =>
    return .scalar {
      name
      coerceInput := coercion library (outcomeMember? json "input")
      coerceResult := coercion library (outcomeMember? json "result") }
  | _ =>
    let fields ← fieldDefinitions library (elements (member json "fields"))
    return .object {
      name
      fields := Fields.ofList fields
      interfaces := texts (elements (member json "implements"))
      authorize? := (outcomeMember? json "authorize").map fun outcome value query => do
        let scope := { hookScope query [("value", value.content)] with owner := value }
        return answer readTruth (← outcome.result library scope) }

/-- The declared hook of a directive at a position. -/
def directiveHook (library : Library) (outcome : Outcome) : DirectiveHook State :=
  fun context => do
    let roots := argumentRoots context.arguments ++
      [("object", context.object.content), ("path", pathValue context.path)]
    let scope :=
      { hookScope context.query roots with
        owner := context.object
        loaded := context.arguments.loaded }
    match ← outcome.result library scope with
    | .error (.execution error) => return .error error
    | result => return .ok (answer readFlow result)

/-- The declared directive. -/
def directiveDefinition (library : Library) (json : Json) :
    Action State (DirectiveDefinition State) := do
  let arguments ← inputDefinitions library (elements (member json "args"))
  return {
    name := textMember json "name"
    arguments := Fields.ofList arguments
    include? := (exprMember? json "include").map fun e arguments query => do
      return (← e.eval (hookScope query (argumentRoots arguments))).isTrue
    resolve? := (outcomeMember? json "resolve").map (directiveHook library)
    resolveEach? := (outcomeMember? json "resolve_each").map (directiveHook library) }

/-- The declared answer to refusals. -/
def unauthorizedHook (library : Library) (outcome : Outcome) : UnauthorizedHook State :=
  fun error query => do
    let roots :=
      [("error", .string error.message), ("type", .string error.typeName),
       ("field", textOrNull error.fieldName?)]
    match ← outcome.result library (hookScope query roots) with
    | .ok value => return .ok value
    | .error (.execution error) => return .error error
    | .error (.unexpected message) => return .error { message }

/-- The declared hooks of a schema as a whole. -/
def schemaHooks (library : Library) (json : Json) : SchemaHooks State :=
  { resolveType? := (outcomeMember? json "resolve_type").map fun outcome typeName value query => do
      let roots := [("value", value.content), ("abstract", .string typeName)]
      match ← outcome.result library (hookScope query roots) with
      | .ok (.value .null) => return none
      | result => return some (answer readTypeName result)
    unauthorizedObject? :=
      (outcomeMember? json "unauthorized_object").map (unauthorizedHook library)
    unauthorizedField? := (outcomeMember? json "unauthorized_field").map (unauthorizedHook library)
    rescue? := (json.member? "rescue").map fun rescue message path query => do
      let scope := hookScope query [("error", .string message), ("path", pathValue path)]
      let wanted ← match exprMember? rescue "when" with
        | some e => Value.isTrue <$> e.eval scope
        | none => pure true
      if wanted then
        return some (← (ErrorExpr.ofJson (member rescue "error")).eval scope)
      else return none }

/-- Registers declared types in order. -/
def registerTypes (library : Library) (builder : SchemaBuilder State) :
    List Json → Action State (SchemaBuilder State)
  | [] => return builder
  | json :: rest => do
    registerTypes library (builder.register (← typeDefinition library json)) rest

/-- Registers declared directives in order. -/
def registerDirectives (library : Library) (builder : SchemaBuilder State) :
    List Json → Action State (SchemaBuilder State)
  | [] => return builder
  | json :: rest => do
    registerDirectives library (builder.directive (← directiveDefinition library json)) rest

/-- The text under a member, if it is one. -/
def textMember? (json : Json) (name : String) : Option String :=
  match json.member? name with
  | some (.string s) => some s
  | _ => none

/-- The declared schema, or what is wrong with it. -/
def schema (library : Library) (json : Json) :
    Action State (Except SchemaError (Schema State)) := do
  let start := { SchemaBuilder.new ((textMember? json "query").getD "Query") with
    mutationType? := textMember? json "mutation"
    subscriptionType? := textMember? json "subscription"
    hooks := schemaHooks library json }
  let typed ← registerTypes library start (elements (member json "types"))
  let builder ← registerDirectives library typed (elements (member json "directives"))
  return builder.finish

end Script

end GraphExec
