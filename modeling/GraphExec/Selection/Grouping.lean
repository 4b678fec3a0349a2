import GraphExec.Run.State

/-!
# Grouping selections by response key

The selections of an object are gone through in document order. Directives may leave nodes out,
and fragments count if the object satisfies their type condition. The field nodes that are left
are grouped by response key.

A directive whose arguments are waited for suspends the grouping, which is then done anew.
-/

namespace GraphExec

/-- Fields grouped by response key, the keys in the order of their first node. -/
abbrev Groups := Fields FieldGroup

/-- Adds a node to the group of its key. -/
def Groups.add (groups : Groups) (node : FieldNode) : Groups :=
  match Fields.get? groups node.responseKey with
  | some group =>
    Fields.insert groups node.responseKey { group with others := group.others ++ [node] }
  | none => Fields.insert groups node.responseKey ⟨node, []⟩

/-- What a grouping has found so far. -/
structure Grouping where
  /-- The groups. -/
  groups : Groups
  /-- The errors of directives. -/
  errors : List ExecutionError

namespace Grouping

/-- Nothing was found. -/
def empty : Grouping := ⟨[], []⟩

/-- Adds a node. -/
def add (grouping : Grouping) (node : FieldNode) : Grouping :=
  { grouping with groups := grouping.groups.add node }

/-- Adds an error. -/
def report (grouping : Grouping) (error : ExecutionError) : Grouping :=
  { grouping with errors := grouping.errors ++ [error] }

end Grouping

/-- What directives say of a node. -/
inductive Inclusion where
  /-- It counts. -/
  | included
  /-- It is left out. -/
  | excluded
  /-- It is left out, for the arguments of a directive are wrong. -/
  | failed (error : ExecutionError)
  /-- The arguments of a directive are waited for. -/
  | waiting (key : ArgumentKey)

/-- What a grouping comes to. -/
inductive GroupingResult where
  /-- The whole was gone through. -/
  | complete (grouping : Grouping)
  /-- The arguments of a directive are waited for. -/
  | waiting (key : ArgumentKey)

/-- The bag of arguments of a directive, for an object. -/
def Directive.lookUp {σ : Type} (directive : Directive) (job : Job σ)
    (definition : DirectiveDefinition σ) (parent : Identity) :
    Engine σ (ArgumentKey × Option ArgumentsResult) := do
  let owner := ArgumentOwner.directive definition.name
  let key := ArgumentKey.new directive.offset owner definition.arguments parent
  let raw := Literal.argumentValues job.query.bindings directive.arguments
  let result? ← Engine.lookUp key
    (job.schema.coerceArguments owner definition.arguments raw job.query)
  return (key, result?)

/-- The object whose selections are grouped. -/
structure Grouper (σ : Type) where
  /-- What is run. -/
  job : Job σ
  /-- The concrete type of the object. -/
  typeName : String
  /-- What the object is made from. -/
  identity : Identity
  /-- The path of the object. -/
  path : Path

namespace Grouper

variable {σ : Type}

/-- The error of the response that wrong arguments stand for. -/
def argumentError (grouper : Grouper σ) : ArgumentError → Engine σ ExecutionError
  | .execution error => pure error
  | .unauthorized refusal => pure { message := refusal.message }
  | .unexpected message => Engine.rescue grouper.job message grouper.path

/-- Asks the directives of a node one after another whether it counts. -/
def inclusion (grouper : Grouper σ) : List Directive → Engine σ Inclusion
  | [] => return .included
  | directive :: rest => do
    match grouper.job.schema.directive? directive.name with
    | none => grouper.inclusion rest
    | some definition =>
      match definition.include? with
      | none => grouper.inclusion rest
      | some keeps =>
        match ← directive.lookUp grouper.job definition grouper.identity with
        | (key, none) => return .waiting key
        | (_, some (.ok arguments)) =>
          if ← Engine.call (keeps arguments grouper.job.query) then grouper.inclusion rest
          else return .excluded
        | (_, some (.error error)) =>
          let error ← grouper.argumentError error
          return .failed (error.attach grouper.path directive.location)

/-- Whether the object satisfies a type condition. -/
def satisfies (grouper : Grouper σ) : Option String → Bool
  | none => true
  | some condition => grouper.job.schema.isPossibleType condition grouper.typeName

/-- Groups selections behind those that have been found. A fragment is not available inside
itself. -/
def groupFrom (grouper : Grouper σ) (available : Fields Fragment) (selections : List Selection)
    (found : Grouping) : Engine σ GroupingResult :=
  match selections with
  | [] => return .complete found
  | selection :: rest => do
    match ← grouper.inclusion selection.directives with
    | .waiting key => return .waiting key
    | .failed error => grouper.groupFrom available rest (found.report error)
    | .excluded => grouper.groupFrom available rest found
    | .included =>
      match selection with
      | .field node => grouper.groupFrom available rest (found.add node)
      | .inline condition _ inner =>
        if grouper.satisfies condition then
          match ← grouper.groupFrom available inner found with
          | .waiting key => return .waiting key
          | .complete found => grouper.groupFrom available rest found
        else grouper.groupFrom available rest found
      | .spread name _ =>
        match _known : Fields.get? available name with
        | none => grouper.groupFrom available rest found
        | some fragment =>
          if grouper.satisfies (some fragment.condition) then
            match ← grouper.groupFrom (Fields.erase available name) fragment.selections found with
            | .waiting key => return .waiting key
            | .complete found => grouper.groupFrom available rest found
          else grouper.groupFrom available rest found
termination_by (available.length, sizeOf selections)
decreasing_by
  all_goals first
    | exact Prod.Lex.left _ _ (Fields.length_erase_lt _known)
    | (apply Prod.Lex.right; simp only [List.cons.sizeOf_spec, Selection.inline.sizeOf_spec]; omega)

/-- Groups the selections of the object. -/
def group (grouper : Grouper σ) (selections : List Selection) : Engine σ GroupingResult :=
  grouper.groupFrom grouper.job.fragments selections Grouping.empty

end Grouper

end GraphExec
