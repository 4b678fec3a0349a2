import GraphExec.Draft.Basic

/-!
# Reading off a draft

The `data` of a response: the keys of an object in the order in which they were selected, as far
as they have an entry, and the places of a list that are not left out. A place that was never
written is null.
-/

namespace GraphExec

namespace Draft

/-- The JSON of an entry, given that of nodes. -/
def entryJson (nodeJson : NodeId → Json) : Entry → Json
  | .leaf value => value.toJson
  | .node id => nodeJson id

/-- The JSON of what is in a node, given that of nodes. -/
def contentJson (nodeJson : NodeId → Json) : Content → Json
  | .object entries keys =>
    let order := if keys.isEmpty then entries.keys else keys
    .object (Fields.ofList (order.filterMap fun key =>
      (Fields.get? entries key).map fun entry => (key, entryJson nodeJson entry)))
  | .list items skipped =>
    let kept := items.zipIdx.filter fun (_, n) => !skipped.contains n
    .array (kept.map fun (item, _) => (item.map (entryJson nodeJson)).getD .null)

/-- The JSON of a node; nodes nest at most `fuel` deep. -/
def nodeJson (draft : Draft) : Nat → NodeId → Json
  | 0, _ => .null
  | fuel + 1, id =>
    match draft.node? id with
    | none => .null
    | some node => contentJson (draft.nodeJson fuel) node.content

/-- The JSON of the whole. A node is allocated after its parent, so nodes nest no deeper than
their number. -/
def toJson (draft : Draft) : Json :=
  if draft.dataIsNull then .null else draft.nodeJson draft.nodes.size root

end Draft

end GraphExec
