import GraphExec.Resolved

/-!
# Drafts of the response

The `data` of a response is drafted while it is being found out. Objects and lists are nodes, in
the order of their allocation; a node knows its parent and its key there. All else is written into
an entry of a node.

A null that may not stand where it is written replaces the node instead, and so on upwards; the
nodes that it replaces die, with all nodes below them. What is written to a dead node is lost.
-/

namespace GraphExec

/-- A node, by the number of nodes allocated before it. -/
abbrev NodeId := Nat

/-- What stands at a key of an object or at a place of a list. -/
inductive Entry where
  /-- A finished value. -/
  | leaf (value : Value)
  /-- An object or a list. -/
  | node (id : NodeId)
deriving Repr

/-- Whether an entry is the null. -/
def Entry.isNull : Entry → Bool
  | .leaf .null => true
  | _ => false

/-- What is in a node. -/
inductive Content where
  /-- An object: its entries, and its keys in the order of the response once they are known. -/
  | object (entries : Fields Entry) (keys : List String)
  /-- A list: its places, and those of them that are left out. -/
  | list (items : List (Option Entry)) (skipped : List Nat)
deriving Repr

namespace Content

/-- An object without entries. -/
def emptyObject : Content := .object [] []

/-- A list with a number of places, none of them written. -/
def emptyList (size : Nat) : Content := .list (List.replicate size none) []

/-- Writes an entry; a key that does not fit is ignored. -/
def put : Content → PathSegment → Entry → Content
  | .object entries keys, .field name, entry => .object (Fields.insert entries name entry) keys
  | .list items skipped, .index n, entry => .list (items.set n (some entry)) skipped
  | content, _, _ => content

/-- Leaves a key out; a key that does not fit is ignored. -/
def skip : Content → PathSegment → Content
  | .object entries keys, .field name => .object (Fields.erase entries name) keys
  | .list items skipped, .index n => .list items (n :: skipped)
  | content, _ => content

/-- Fixes the keys of an object, in the order of the response. -/
def setKeys : Content → List String → Content
  | .object entries _, keys => .object entries keys
  | content, _ => content

end Content

/-- An object or a list of the response. -/
structure Node where
  /-- What is in it. -/
  content : Content
  /-- What an object is made from. -/
  value? : Option AppValue
  /-- The parent and the key there; the root has none. -/
  parent? : Option (NodeId × PathSegment)
  /-- Whether null is ruled out at the position. -/
  nonNull : Bool
  /-- Whether the node has been replaced by a null, itself or with a node above. -/
  dead : Bool
  /-- The number of keys from the root. -/
  depth : Nat

/-- The `data` of a response as far as it is known. -/
structure Draft where
  /-- The nodes in the order of their allocation; the first is the root. -/
  nodes : Array Node
  /-- Whether the whole of it is null. -/
  dataIsNull : Bool

namespace Draft

/-- The node of the root object. -/
def root : NodeId := 0

/-- The draft that has but a root object, made from a value. -/
def new (value : AppValue) : Draft :=
  ⟨#[⟨.emptyObject, some value, none, true, false, 0⟩], false⟩

/-- A node by its number. -/
def node? (draft : Draft) (id : NodeId) : Option Node :=
  draft.nodes[id]?

/-- Whether a node is dead. -/
def isDead (draft : Draft) (id : NodeId) : Bool :=
  match draft.node? id with
  | some node => node.dead
  | none => true

/-- The number of keys from the root to a node. -/
def depth (draft : Draft) (id : NodeId) : Nat :=
  match draft.node? id with
  | some node => node.depth
  | none => 0

/-- The parents from a node up to the root, each with the key that leads down. At most `fuel + 1`
of them are followed. -/
def ascend (draft : Draft) : Nat → NodeId → List (NodeId × PathSegment)
  | fuel, id =>
    match (draft.node? id).bind (·.parent?) with
    | none => []
    | some (parent, key) =>
      match fuel with
      | 0 => [(parent, key)]
      | fuel + 1 => (parent, key) :: draft.ascend fuel parent

/-- The parents from a node up to the root, each with the key that leads down. A parent is
allocated before its children, so no more parents than the node's number are above it. -/
def ancestors (draft : Draft) (id : NodeId) : List (NodeId × PathSegment) :=
  draft.ascend id id

/-- The path from the root to a node. -/
def path (draft : Draft) (id : NodeId) : Path :=
  ((draft.ancestors id).map (·.2)).reverse

/-- The path from the root to a key of a node. -/
def pathTo (draft : Draft) (id : NodeId) (key : PathSegment) : Path :=
  draft.path id ++ [key]

/-- The value of the nearest object above a node. -/
def parentValue? (draft : Draft) (id : NodeId) : Option AppValue :=
  (draft.ancestors id).findSome? fun (parent, _) => (draft.node? parent).bind (·.value?)

/-- Whether a node is another one or stands below it. -/
def isWithin (draft : Draft) (top id : NodeId) : Bool :=
  id == top || (draft.ancestors id).any fun (parent, _) => parent == top

/-- Changes a node. -/
def modify (draft : Draft) (id : NodeId) (f : Node → Node) : Draft :=
  { draft with nodes := draft.nodes.modify id f }

/-- Writes an entry, dead or alive. -/
def put (draft : Draft) (id : NodeId) (key : PathSegment) (entry : Entry) : Draft :=
  draft.modify id fun node => { node with content := node.content.put key entry }

/-- Marks a node and all nodes below it as dead. -/
def kill (draft : Draft) (top : NodeId) : Draft :=
  { draft with
    nodes := draft.nodes.mapIdx fun id node =>
      if draft.isWithin top id then { node with dead := true } else node }

/-- Replaces a node by a null, given the parents above it: at the nearest position, from the node
upwards, that allows null; the root gives way to a null for the whole. The nodes that are replaced
die. -/
def replaceByNull (draft : Draft) (id : NodeId) : List (NodeId × PathSegment) → Draft
  | [] => { draft with dataIsNull := true }.kill id
  | (parent, key) :: above =>
    let nonNull := (draft.node? id).any (·.nonNull)
    let replaced :=
      if draft.isDead parent then draft
      else if nonNull then draft.replaceByNull parent above
      else draft.put parent key (.leaf .null)
    replaced.kill id

/-- Writes an entry at a key of a node. A null where null is ruled out replaces the node. -/
def setEntry (draft : Draft) (id : NodeId) (key : PathSegment) (entry : Entry)
    (nonNull : Bool) : Draft :=
  if draft.isDead id then draft
  else if entry.isNull && nonNull then draft.replaceByNull id (draft.ancestors id)
  else draft.put id key entry

/-- Writes a finished value at a key of a node. -/
def setLeaf (draft : Draft) (id : NodeId) (key : PathSegment) (value : Value)
    (nonNull : Bool) : Draft :=
  draft.setEntry id key (.leaf value) nonNull

/-- Makes the whole of the data null. -/
def nullData (draft : Draft) : Draft :=
  { draft with dataIsNull := true }.kill root

/-- Leaves out a key of a node. -/
def skip (draft : Draft) (id : NodeId) (key : PathSegment) : Draft :=
  if draft.isDead id then draft
  else draft.modify id fun node => { node with content := node.content.skip key }

/-- Fixes the keys of an object, in the order of the response. -/
def setKeys (draft : Draft) (id : NodeId) (keys : List String) : Draft :=
  draft.modify id fun node => { node with content := node.content.setKeys keys }

/-- Allocates a node and writes it at a key of its parent. Below a dead parent it is dead. -/
def allocate (draft : Draft) (parent : NodeId) (key : PathSegment) (content : Content)
    (value? : Option AppValue) (nonNull : Bool) : NodeId × Draft :=
  let id := draft.nodes.size
  let node : Node :=
    { content, value?, parent? := some (parent, key), nonNull
      dead := draft.isDead parent, depth := draft.depth parent + 1 }
  (id, { draft with nodes := draft.nodes.push node }.put parent key (.node id))

/-- Allocates an object. -/
def newObject (draft : Draft) (parent : NodeId) (key : PathSegment) (value : AppValue)
    (nonNull : Bool) : NodeId × Draft :=
  draft.allocate parent key .emptyObject (some value) nonNull

/-- Allocates a list with a number of places. -/
def newList (draft : Draft) (parent : NodeId) (key : PathSegment) (size : Nat)
    (nonNull : Bool) : NodeId × Draft :=
  draft.allocate parent key (.emptyList size) none nonNull

end Draft

end GraphExec
