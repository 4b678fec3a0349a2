import GraphExec.Run.Directive

/-!
# Completion of positions

The value that a position has come to is written into the response as its declared type demands:
leaves are coerced, the items of a list and the objects of the response are left to steps of their
own. Nulls, errors, marks for positions to leave out and raw output are written whatever the type.
-/

namespace GraphExec

/-- What completing a position comes to. -/
inductive Completion (σ : Type) where
  /-- The position is written, or left to other steps. -/
  | done
  /-- The value takes time. -/
  | waiting (lazy : Lazy σ (FieldResult σ))
  /-- A refused value is replaced by another one. -/
  | replaced (value : ResolvedValue σ)

namespace Position

variable {σ : Type}

/-- Writes a finished value, dead or alive. A null where it is ruled out replaces the parent. -/
def write (position : Position σ) (value : Value) : Engine σ Unit :=
  Engine.modifyDraft fun draft =>
    draft.setLeaf position.parent position.key value position.nonNull

/-- Writes output as it is, even a null where it is ruled out. -/
def writeRaw (position : Position σ) (value : Value) : Engine σ Unit :=
  Engine.modifyDraft fun draft => draft.setLeaf position.parent position.key value false

/-- Leaves the position out. -/
def skip (position : Position σ) : Engine σ Unit :=
  Engine.modifyDraft fun draft => draft.skip position.parent position.key

/-- Reports an error of the position. -/
def report (position : Position σ) (error : ExecutionError) : Engine σ Unit := do
  Engine.report (error.attach (position.path (← Engine.draft)) position.site.location)

/-- The wording for a null where it is ruled out. -/
def nullMessage (position : Position σ) : String :=
  let field := position.site.typeName ++ "." ++ position.site.field.name
  match position.key with
  | .field _ => "Cannot return null for non-nullable field " ++ field
  | .index _ =>
    "Cannot return null for non-nullable element of type '" ++ position.type.text ++ "' for " ++
      field

/-- Writes a null, which is an error where it is ruled out. -/
def writeNull (position : Position σ) : Engine σ Unit := do
  if position.nonNull then position.report { message := position.nullMessage }
  position.write .null

/-- Reports an error and writes a null. -/
def writeError (position : Position σ) (error : ExecutionError) : Engine σ Unit := do
  position.report error
  position.write .null

/-- Writes what a leaf was coerced to. -/
def writeLeaf (position : Position σ) (coerced : Except String Value) : Engine σ Unit := do
  match coerced with
  | .error message => position.writeError { message }
  | .ok value => if value.isNull then position.writeNull else position.write value

/-- Allocates a list at the position. -/
def openList (position : Position σ) (size : Nat) : Engine σ NodeId :=
  Engine.allocate fun draft =>
    draft.newList position.parent position.key size position.nonNull

/-- The position of an item of a list at the position. -/
def item (position : Position σ) (list : NodeId) (itemType : TypeRef) (n : Nat) : Position σ :=
  { position with parent := list, key := .index n, type := itemType }

/-- Writes errors as the items of a list, from an item on. -/
def writeErrorItems (position : Position σ) (list : NodeId) (itemType : TypeRef) (n : Nat) :
    List ExecutionError → Engine σ Unit
  | [] => pure ()
  | error :: rest => do
    (position.item list itemType n).writeError error
    position.writeErrorItems list itemType (n + 1) rest

/-- Reports errors of the position one after another. -/
def reportAll (position : Position σ) : List ExecutionError → Engine σ Unit
  | [] => pure ()
  | error :: rest => do
    position.report error
    position.reportAll rest

/-- Completes a position with a list of nothing but errors: at a list each item is an error of its
own, elsewhere they are all errors of the position. -/
def completeErrors (position : Position σ) (errors : List ExecutionError) : Engine σ Unit := do
  match position.type.nullable with
  | .list itemType =>
    let list ← position.openList errors.length
    position.writeErrorItems list itemType 0 errors
  | _ =>
    position.reportAll errors
    position.write .null

/-- Makes the items of a list ready, from an item on. -/
def enqueueItems (position : Position σ) (list : NodeId) (itemType : TypeRef)
    (cursor : DirectiveCursor σ) (n : Nat) : List (ResolvedValue σ) → Engine σ Unit
  | [] => pure ()
  | item :: rest => do
    Engine.enqueue (.item ⟨position.item list itemType n, .runDirectives cursor item⟩)
    position.enqueueItems list itemType cursor (n + 1) rest

/-- Completes a position with a list. -/
def completeList (position : Position σ) (job : Job σ) (itemType : TypeRef)
    (items : List (ResolvedValue σ)) : Engine σ Unit := do
  let list ← position.openList items.length
  let cursor := DirectiveCursor.new job.schema (·.resolveEach?) position.site.directives
  position.enqueueItems list itemType cursor 0 items

/-- Completes a position of a scalar or enum type: only plain data can be coerced. -/
def completeLeaf (position : Position σ) (typeName : String)
    (coerce : Value → Action σ (Except String Value)) (value : ResolvedValue σ) :
    Engine σ Unit := do
  match value with
  | .value v => position.writeLeaf (← Engine.call (coerce v))
  | other => position.writeLeaf (.error (typeName ++ " cannot represent " ++ other.describe))

/-- What an object of the response can be made from. -/
def objectValue? : ResolvedValue σ → Option AppValue
  | .object o => some (.object o)
  | .value v => some (.data v)
  | _ => none

/-- Completes a position of a composite type: the object is built by a step of its own. -/
def completeObject (position : Position σ) (type : TypeDefinition σ)
    (value : ResolvedValue σ) : Engine σ Unit := do
  match objectValue? value with
  | none => throw (.invariant (.unbuildable type.name value.describe))
  | some v =>
    let subject ← Engine.identify v
    let state : ObjectState σ := match type with
      | .object t => .authorize t
      | abstractType => .resolveType abstractType
    Engine.enqueue (.object
      { target := .child position
        subject
        selections := position.site.selections
        serial := false
        state })

/-- Completes a position with a value that is none of those that can stand anywhere. -/
def completeByType (position : Position σ) (job : Job σ) (value : ResolvedValue σ) :
    Engine σ Unit := do
  match position.type.nullable with
  | .list itemType =>
    match value with
    | .list items => position.completeList job itemType items
    | .value (.list items) => position.completeList job itemType (items.map .value)
    | other => throw (.listExpected (position.path (← Engine.draft)) other.describe)
  | .named name =>
    match job.schema.type? name with
    | some (.scalar t) => position.completeLeaf name t.coerceResult value
    | some (.enum t) => position.completeLeaf name (fun v => pure (t.coerce v)) value
    | some (.inputObject _) => throw (.invariant (.inputTypeAsOutput name))
    | some type => position.completeObject type value
    | none => throw (.unknownType name)
  | .nonNull _ => throw (.invariant (.doublyNonNull position.type.text))

/-- Completes a position with the value that it has come to. -/
def complete (position : Position σ) (job : Job σ) (value : ResolvedValue σ) :
    Engine σ (Completion σ) := do
  match value with
  | .lazy later => return .waiting later
  | .unauthorized refusal =>
    match ← Engine.call (job.schema.unauthorized refusal job.query) with
    | .ok replacement => return .replaced replacement
    | .error error => return .replaced (.error error)
  | .value .null => position.writeNull
  | .error error => position.writeError error
  | .skip => position.skip
  | .raw v => position.writeRaw v
  | .list (first :: rest) =>
    if (first :: rest).all (·.isError) then
      position.completeErrors (ResolvedValue.errors (first :: rest))
    else position.completeByType job value
  | other => position.completeByType job other
  return .done

end Position

end GraphExec
