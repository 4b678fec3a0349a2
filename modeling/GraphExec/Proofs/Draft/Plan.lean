import GraphExec.Proofs.Draft.Null

/-!
# Plans

A plan is a draft together with the tasks that are still to fill it. Each task is at one spot: a
slot that is vacant, or a node that is still empty. What a task comes to is a verdict on its spot;
a task is done by passing the spot on, by writing it, or by opening a node with tasks of its own.

The moves of a plan say in which ways tasks may be done. Under all of them the spots of tasks at
live nodes stay apart, and vacant.
-/

namespace GraphExec

/-- What a position of the response comes to. -/
inductive Verdict where
  /-- It is shown. -/
  | shown (json : Json)
  /-- It is left out. -/
  | omitted
  /-- A null stands where null is ruled out. -/
  | invalid

namespace Verdict

def json? : Verdict → Option Json
  | shown json => some json
  | _ => none

/-- The `data` that a verdict on the root stands for. -/
def data (verdict : Verdict) : Json :=
  verdict.json?.getD .null

/-- The verdict on a position, given that on the node that it holds. -/
def raise (nonNull : Bool) : Verdict → Verdict
  | invalid => if nonNull then invalid else shown .null
  | verdict => verdict

/-- The verdict on a position that a finished value is written to. -/
def ofLeaf (value : Value) (nonNull : Bool) : Verdict :=
  if value.isNull && nonNull then invalid else shown value.toJson

theorem ofLeaf_eq_shown {value : Value} {nonNull : Bool}
    (allowed : ¬ (value = .null ∧ nonNull = true)) : ofLeaf value nonNull = shown value.toJson := by
  refine if_neg fun ruled_out => allowed ?_
  obtain ⟨null, rules⟩ := Bool.and_eq_true_iff.mp ruled_out
  cases value with
  | null => exact ⟨rfl, rules⟩
  | _ => cases null

end Verdict

/-- The JSON of a node, given the verdicts on its slots. -/
def Shape.json (shape : Shape) (verdicts : PathSegment → Verdict) : Json :=
  match shape with
  | object keys => .object (keys.filterMap fun key =>
      (verdicts (.field key)).json?.map fun json => (key, json))
  | list size => .array ((List.range size).filterMap fun n => (verdicts (.index n)).json?)

/-- Where a task is. -/
inductive Spot where
  | slot (node : NodeId) (key : PathSegment)
  | node (node : NodeId)
deriving DecidableEq

def Spot.id : Spot → NodeId
  | slot id _ => id
  | node id => id

structure Plan (T : Type) where
  draft : Draft
  tasks : List T

namespace Plan

variable {T : Type} {spot : T → Spot} {comes : T → Verdict → Prop}

/-- What a task comes to is put together from what the tasks at the slots of a new node come to. -/
structure Assembles (spot : T → Spot) (comes : T → Verdict → Prop) (task : T) (below : List T)
    (shape : Shape) (raise : Verdict → Verdict) : Prop where
  invalid : ∀ t ∈ below, comes t .invalid → comes task (raise .invalid)
  shown : ∀ verdicts : PathSegment → Verdict,
    (∀ t ∈ below, ∀ id key, spot t = .slot id key →
      comes t (verdicts key) ∧ verdicts key ≠ .invalid) →
    comes task (raise (.shown (shape.json verdicts)))

/-- In which ways tasks may be done. -/
inductive Move (spot : T → Spot) (comes : T → Verdict → Prop) : Plan T → Plan T → Prop
  | sort {draft : Draft} {tasks others : List T} (same : tasks.Perm others) :
    Move spot comes ⟨draft, tasks⟩ ⟨draft, others⟩
  | pass {draft : Draft} {task other : T} {rest : List T} (same : spot other = spot task)
      (backward : ∀ v, comes other v → comes task v) :
    Move spot comes ⟨draft, task :: rest⟩ ⟨draft, other :: rest⟩
  | lose {draft : Draft} {task : T} {rest : List T} (dead : ¬ draft.Alive (spot task).id) :
    Move spot comes ⟨draft, task :: rest⟩ ⟨draft, rest⟩
  | write {draft : Draft} {task : T} {rest : List T} {id : NodeId} {key : PathSegment}
      {value : Value} {nonNull : Bool} (here : spot task = .slot id key)
      (verdict : comes task (.ofLeaf value nonNull)) :
    Move spot comes ⟨draft, task :: rest⟩ ⟨draft.setLeaf id key value nonNull, rest⟩
  | leaveOut {draft : Draft} {task : T} {rest : List T} {id : NodeId} {key : PathSegment}
      (here : spot task = .slot id key) (verdict : comes task .omitted) :
    Move spot comes ⟨draft, task :: rest⟩ ⟨draft.skip id key, rest⟩
  | openList {draft : Draft} {task : T} {below rest : List T} {id : NodeId} {key : PathSegment}
      {size : Nat} {nonNull : Bool} (here : spot task = .slot id key) (alive : draft.Alive id)
      (slots : below.map spot = (Shape.list size).slots.map (.slot draft.nodes.size))
      (assembles : Assembles spot comes task below (.list size) (.raise nonNull)) :
    Move spot comes ⟨draft, task :: rest⟩ ⟨(draft.newList id key size nonNull).2, below ++ rest⟩
  | openObject {draft : Draft} {task other : T} {rest : List T} {id : NodeId} {key : PathSegment}
      {value : AppValue} {nonNull : Bool} (here : spot task = .slot id key)
      (alive : draft.Alive id) (there : spot other = .node draft.nodes.size)
      (backward : ∀ v, comes other v → comes task (v.raise nonNull)) :
    Move spot comes ⟨draft, task :: rest⟩ ⟨(draft.newObject id key value nonNull).2, other :: rest⟩
  | fill {draft : Draft} {task : T} {below rest : List T} {id : NodeId} {keys : List String}
      (here : spot task = .node id) (alive : draft.Alive id) (distinct : keys.Nodup)
      (slots : below.map spot = (Shape.object keys).slots.map (.slot id))
      (assembles : Assembles spot comes task below (.object keys) fun verdict => verdict) :
    Move spot comes ⟨draft, task :: rest⟩ ⟨draft.setKeys id keys, below ++ rest⟩
  | nullRoot {draft : Draft} {task : T} {rest : List T} (here : spot task = .node Draft.root)
      (verdict : comes task .invalid) :
    Move spot comes ⟨draft, task :: rest⟩ ⟨draft.nullData, rest⟩

/-- A spot that a task may be at. -/
def Free (draft : Draft) : Spot → Prop
  | .slot id key => ∃ content, draft.content? id = some content ∧ content.Vacant key
  | .node id => draft.content? id = some .emptyObject

/-- The tasks at live nodes are at different spots, which are free. -/
structure Tidy (spot : T → Spot) (plan : Plan T) : Prop where
  wf : plan.draft.Wf
  apart : plan.tasks.Pairwise fun a b => plan.draft.Alive (spot a).id → spot a ≠ spot b
  free : ∀ task ∈ plan.tasks, plan.draft.Alive (spot task).id → Free plan.draft (spot task)
  known : ∀ task ∈ plan.tasks, (spot task).id < plan.draft.nodes.size

end Plan

end GraphExec
