import GraphExec.Arguments.Coercion

/-!
# Looking ahead

A resolver can look at what is selected below its field. The view is by field names; it looks into
every fragment, whatever its type condition, and asks the directives that can be asked at once.
-/

namespace GraphExec

namespace Schema

variable {σ : Type}

/-- Whether a directive leaves a node in, as far as it can be told at once: a directive that is
not known, that does not select, or whose arguments are prepared or loaded leaves it in; one whose
arguments are wrong leaves it out. -/
def admits (schema : Schema σ) (query : QueryContext) (directive : Directive) : Action σ Bool :=
  match schema.directive? directive.name with
  | none => pure true
  | some definition =>
    match definition.include? with
    | none => pure true
    | some keeps =>
      if definition.arguments.values.any (·.isHooked) then pure true
      else do
        let raw := Literal.argumentValues query.bindings directive.arguments
        match ← schema.coerceArguments (.directive definition.name) definition.arguments raw
          query with
        | .ready (.ok arguments) => keeps arguments query
        | .ready (.error _) => return false
        | .pending _ => return true

/-- Whether all directives of a node leave it in, asked one after another. -/
def admitsAll (schema : Schema σ) (query : QueryContext) : List Directive → Action σ Bool
  | [] => pure true
  | directive :: rest => do
    if ← schema.admits query directive then schema.admitsAll query rest else return false

end Schema

namespace Lookahead

variable {σ : Type}

/-- A view of nodes of a request. -/
def of (schema : Schema σ) (fragments : Fields Fragment) (query : QueryContext)
    (nodes : List FieldNode) : Lookahead σ :=
  { nodes, fragments, bindings := query.bindings, included := schema.admitsAll query }

/-- Whether there is anything to see. -/
def isPresent (view : Lookahead σ) : Bool :=
  !view.nodes.isEmpty

/-- The field nodes among selections, fragments looked into. A fragment is not available inside
itself. -/
def fieldsWithin (view : Lookahead σ) (available : Fields Fragment)
    (selections : List Selection) : Action σ (List FieldNode) :=
  match selections with
  | [] => pure []
  | selection :: rest => do
    if ← view.included selection.directives then
      match selection with
      | .field node => return node :: (← view.fieldsWithin available rest)
      | .inline _ _ inner =>
        let found ← view.fieldsWithin available inner
        return found ++ (← view.fieldsWithin available rest)
      | .spread name _ =>
        match _known : Fields.get? available name with
        | none => view.fieldsWithin available rest
        | some fragment =>
          let found ← view.fieldsWithin (Fields.erase available name) fragment.selections
          return found ++ (← view.fieldsWithin available rest)
    else view.fieldsWithin available rest
termination_by (available.length, sizeOf selections)
decreasing_by
  all_goals first
    | exact Prod.Lex.left _ _ (Fields.length_erase_lt _known)
    | (apply Prod.Lex.right; simp only [List.cons.sizeOf_spec, Selection.inline.sizeOf_spec]; omega)

/-- The field nodes one level below. -/
def children (view : Lookahead σ) : Action σ (List FieldNode) :=
  view.fieldsWithin view.fragments (view.nodes.flatMap (·.selections))

/-- The view of the fields of a name one level below. -/
def selection (view : Lookahead σ) (name : String) : Action σ (Lookahead σ) := do
  let below ← view.children
  return { view with nodes := below.filter fun node => node.name = name }

/-- Whether a field of a name is selected one level below. -/
def selects (view : Lookahead σ) (name : String) : Action σ Bool := do
  return (← view.selection name).isPresent

/-- The names of the fields one level below, each once, in order. -/
def selectionNames (view : Lookahead σ) : Action σ (List String) := do
  let below ← view.children
  return below.foldl (fun names node => addName names node.name) []

/-- The arguments of the first node. -/
def arguments (view : Lookahead σ) : Fields Value :=
  match view.nodes with
  | node :: _ => Literal.argumentValues view.bindings node.arguments
  | [] => []

end Lookahead

end GraphExec
