import GraphExec.Selection.Grouping

/-!
# Running directives

The directives of a field that have a hook are run in document order, each after the one before
it has let resolution go on. A directive may wait twice: for its arguments and for its answer.
-/

namespace GraphExec

/-- What a transition of a cursor comes to. -/
inductive CursorProgress (σ : Type) where
  /-- The cursor goes on. -/
  | again (cursor : DirectiveCursor σ)
  /-- Every directive has let resolution go on. -/
  | passed
  /-- A directive leaves the position out. -/
  | skipped
  /-- The position comes to something else. -/
  | stopped (result : FieldResult σ)
  /-- The cursor waits. -/
  | waiting (cursor : DirectiveCursor σ) (wait : Wait σ)

namespace DirectiveCursor

variable {σ : Type}

/-- A cursor over the directives whose definitions have a hook. -/
def new (schema : Schema σ) (hook? : DirectiveDefinition σ → Option (DirectiveHook σ))
    (directives : List Directive) : DirectiveCursor σ :=
  { uses := directives.filterMap fun directive => do
      let definition ← schema.directive? directive.name
      let hook ← hook? definition
      return ⟨directive, definition, hook⟩
    stage := .unstarted }

/-- A cursor that is done with its first directive. -/
def next (rest : List (DirectiveUse σ)) : DirectiveCursor σ :=
  ⟨rest, .unstarted⟩

/-- One transition of a cursor, for the object that owns the field and the path of the
position. -/
def advance (cursor : DirectiveCursor σ) (job : Job σ) (owner : Subject) (path : Path) :
    Engine σ (CursorProgress σ) :=
  match cursor.uses with
  | [] => return .passed
  | use :: rest =>
    match cursor.stage with
    | .unstarted => do
      match ← use.directive.lookUp job use.definition owner.identity with
      | (_, some result) => return .again { cursor with stage := .called result }
      | (key, none) =>
        return .waiting { cursor with stage := .awaitingArguments } (.arguments key)
    | .called (.error error) => return .stopped error.outcome
    | .called (.ok arguments) => do
      match ← Engine.call (use.hook ⟨arguments, owner.value, path, job.query⟩) with
      | .ok (.ready flow) => return .again { cursor with stage := .answered (.ok flow) }
      | .ok (.later lazy) =>
        return .waiting { cursor with stage := .awaitingAnswer } (.directive (.start lazy))
      | .error error => return .again { cursor with stage := .answered (.error (.execution error)) }
    | .answered (.ok .proceed) => return .again (next rest)
    | .answered (.ok .skip) => return .skipped
    | .answered (.error error) => return .stopped (.error error)
    | .awaitingArguments => throw (.invariant (.ranWhileParked .directive))
    | .awaitingAnswer => throw (.invariant (.ranWhileParked .directive))

/-- Hands a cursor what it waits for. -/
def resume (cursor : DirectiveCursor σ) (resumption : Resumption σ) :
    Except FatalError (DirectiveCursor σ) :=
  match cursor.stage, resumption with
  | .awaitingArguments, .arguments result => .ok { cursor with stage := .called result }
  | .awaitingAnswer, .directive flow => .ok { cursor with stage := .answered flow }
  | _, other => .error (.invariant (.strayAnswer .directive other.kind))

end DirectiveCursor

end GraphExec
