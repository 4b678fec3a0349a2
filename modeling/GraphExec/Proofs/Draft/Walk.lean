import GraphExec.Proofs.Draft.Lawful
import GraphExec.Proofs.Draft.Fallen

/-!
# Killing node by node

The nodes that die with a node can be found by a walk: a stack of nodes is worked off, a node that is
taken from it is marked and the nodes registered below it are put on it. Nodes that are dead are
passed by, with all that is below them. As nothing lives below a dead node, the walk misses none.
-/

namespace GraphExec

namespace Draft

variable {draft : Draft}

/-- The nodes that are registered below a node: those that were allocated there, in order. -/
def children (draft : Draft) (id : NodeId) : List NodeId :=
  (List.range draft.nodes.size).filter fun child => (draft.parent? child).any (·.1 == id)

/-- Marks one node as dead. -/
def mark (draft : Draft) (id : NodeId) : Draft :=
  draft.modify id fun node => { node with dead := true }

/-- The walk that a node is killed by, from a stack of nodes to the draft that it leaves. -/
inductive Walks (top : NodeId) : Draft → List NodeId → Draft → Prop
  | done (draft : Draft) : Walks top draft [] draft
  | past {draft after : Draft} {id : NodeId} {stack : List NodeId} (dead : draft.isDead id = true)
      (other : id ≠ top) (rest : Walks top draft stack after) : Walks top draft (id :: stack) after
  | visit {draft after : Draft} {id : NodeId} {stack : List NodeId}
      (taken : draft.Alive id ∨ id = top)
      (rest : Walks top (draft.mark id) ((draft.children id).reverse ++ stack) after) :
      Walks top draft (id :: stack) after

/-- There is one walk. -/
theorem Walks.unique {top : NodeId} {stack : List NodeId} {one other : Draft}
    (walk : Walks top draft stack one) (walk' : Walks top draft stack other) : one = other := by
  induction walk generalizing other with
  | done draft =>
      cases walk'
      rfl
  | past dead aside _ ih =>
      cases walk' with
      | past _ _ rest => exact ih rest
      | visit taken _ =>
          rcases taken with alive | same
          · rw [Alive, dead] at alive
            cases alive
          · exact absurd same aside
  | visit taken _ ih =>
      cases walk' with
      | past dead aside _ =>
          rcases taken with alive | same
          · rw [Alive, dead] at alive
            cases alive
          · exact absurd same aside
      | visit _ rest => exact ih rest

theorem mem_children {id child : NodeId} :
    child ∈ draft.children id ↔ ∃ key, draft.parent? child = some (id, key) := by
  unfold children
  rw [List.mem_filter, List.mem_range]
  constructor
  · rintro ⟨-, registered⟩
    cases up : draft.parent? child with
    | none => simp [up] at registered
    | some above =>
        obtain ⟨parent, key⟩ := above
        rw [up, Option.any_some, beq_iff_eq] at registered
        exact ⟨key, by rw [← registered]⟩
  · rintro ⟨key, up⟩
    exact ⟨lt_size_of_parent? up, by simp [up]⟩

/-- What is below a node is the node, or below one that is registered there. -/
theorem below_iff {top id : NodeId} :
    draft.Below top id ↔ id = top ∨ ∃ child ∈ draft.children top, draft.Below child id := by
  constructor
  · intro below
    induction below with
    | refl => exact .inl rfl
    | @up id parent key step _ ih =>
        right
        rcases ih with rfl | ⟨child, mem, below⟩
        · exact ⟨id, mem_children.mpr ⟨key, step⟩, .refl⟩
        · exact ⟨child, mem, .up step below⟩
  · rintro (rfl | ⟨child, mem, below⟩)
    · exact .refl
    · obtain ⟨key, up⟩ := mem_children.mp mem
      exact Below.trans (.up up .refl) below

theorem Below.le (rooted : draft.Rooted) {top id : Nat} (below : draft.Below top id) :
    top ≤ id := by
  induction below with
  | refl => exact Nat.le_refl _
  | @up id parent key step _ ih =>
      have less := rooted.above id parent key step
      exact Nat.le_trans ih (Nat.le_of_lt less)

/-! ### Marks -/

theorem node?_mark (draft : Draft) (id other : NodeId) :
    (draft.mark id).node? other =
      if other = id then (draft.node? other).map fun node => { node with dead := true }
      else draft.node? other :=
  node?_modify draft id other _

theorem parent?_mark (draft : Draft) (id other : NodeId) :
    (draft.mark id).parent? other = draft.parent? other := by
  unfold parent?
  rw [node?_mark]
  split
  · cases draft.node? other <;> rfl
  · rfl

theorem isDead_mark_of_ne {id other : NodeId} (differs : other ≠ id) :
    (draft.mark id).isDead other = draft.isDead other := by
  unfold isDead
  rw [node?_mark, if_neg differs]

theorem size_mark (draft : Draft) (id : NodeId) :
    (draft.mark id).nodes.size = draft.nodes.size := by
  simp [mark, modify]

/-- Two drafts are the same if they have the same nodes and agree on whether all is null. -/
theorem ext_node? {one other : Draft} (nodes : ∀ id, one.node? id = other.node? id)
    (null : one.dataIsNull = other.dataIsNull) : one = other := by
  obtain ⟨oneNodes, oneNull⟩ := one
  obtain ⟨otherNodes, otherNull⟩ := other
  obtain rfl : oneNodes = otherNodes := Array.ext_getElem? nodes
  obtain rfl : oneNull = otherNull := null
  rfl

/-! ### The walk kills -/

/-- Below a node, what is below a dead node is dead. -/
def ClosedBelow (draft : Draft) (top : NodeId) : Prop :=
  ∀ id other, draft.Below top id → draft.isDead id = true → draft.Below id other →
    draft.isDead other = true

theorem Closed.closedBelow (closed : draft.Closed) (top : NodeId) : draft.ClosedBelow top := by
  intro id other _ dead below
  cases lives : draft.isDead other with
  | true => rfl
  | false =>
      have alive := closed.above below lives
      rw [Alive, dead] at alive
      cases alive

theorem ClosedBelow.kill (rooted : draft.Rooted) {top : NodeId} (closed : draft.ClosedBelow top)
    (other : NodeId) : (draft.kill other).ClosedBelow top := by
  have same : ∀ x, (draft.kill other).parent? x = draft.parent? x := parent?_kill draft other
  intro id below_id at_id dead under
  rw [below_congr same] at at_id under
  rw [isDead_kill, Bool.or_eq_true, isWithin_iff rooted] at dead ⊢
  rcases dead with dead | within
  · exact .inl (closed id below_id at_id dead under)
  · exact .inr (within.trans under)

/-- To kill a dead node changes nothing. -/
theorem kill_of_dead (rooted : draft.Rooted) {top : NodeId} (closed : draft.ClosedBelow top)
    (dead : draft.isDead top = true) : draft.kill top = draft := by
  refine ext_node? (fun id => ?_) rfl
  rw [node?_kill]
  cases found : draft.node? id with
  | none => rfl
  | some node =>
      rw [Option.map_some]
      by_cases within : draft.isWithin top id = true
      · rw [if_pos within]
        have below := (isWithin_iff rooted top id).mp within
        have dead_there := closed top id .refl dead below
        simp only [isDead, found] at dead_there
        rw [← dead_there]
      · rw [if_neg within]

/-- What killing several nodes does to a node. -/
theorem node?_foldl_kill (killed : List NodeId) (id : NodeId) :
    ∀ {draft : Draft}, draft.Rooted →
      (killed.foldl kill draft).node? id = (draft.node? id).map fun node =>
        if killed.any fun top => draft.isWithin top id then { node with dead := true } else node := by
  induction killed with
  | nil => simp
  | cons first rest ih =>
      intro draft rooted
      have same : ∀ x, (draft.kill first).parent? x = draft.parent? x := parent?_kill draft first
      have size := size_kill draft first
      rw [List.foldl_cons, ih (rooted.of_parent? same size), node?_kill]
      simp only [isWithin_congr rooted same size, List.any_cons]
      cases draft.node? id with
      | none => rfl
      | some node =>
          by_cases here : draft.isWithin first id = true
          · by_cases later : (rest.any fun top => draft.isWithin top id) = true <;> simp [here, later]
          · by_cases later : (rest.any fun top => draft.isWithin top id) = true <;> simp [here, later]

theorem dataIsNull_foldl_kill (killed : List NodeId) :
    ∀ draft : Draft, (killed.foldl kill draft).dataIsNull = draft.dataIsNull := by
  induction killed with
  | nil => exact fun _ => rfl
  | cons first rest ih => exact fun draft => ih (draft.kill first)

/-- To mark a node and to kill those that are registered below it is to kill the node. -/
theorem foldl_kill_mark (rooted : draft.Rooted) (top : NodeId) {killed : List NodeId}
    (all : ∀ child, child ∈ killed ↔ child ∈ draft.children top) :
    killed.foldl kill (draft.mark top) = draft.kill top := by
  have same : ∀ x, (draft.mark top).parent? x = draft.parent? x := parent?_mark draft top
  have size := size_mark draft top
  refine ext_node? (fun id => ?_) (dataIsNull_foldl_kill killed _)
  rw [node?_foldl_kill killed id (rooted.of_parent? same size), node?_kill, node?_mark]
  simp only [isWithin_congr rooted same size]
  have within : draft.isWithin top id =
      (id == top || killed.any fun child => draft.isWithin child id) := by
    rw [Bool.eq_iff_iff, isWithin_iff rooted, below_iff, Bool.or_eq_true, List.any_eq_true,
      beq_iff_eq]
    simp only [isWithin_iff rooted, all]
  rw [within]
  by_cases here : id = top
  · cases draft.node? id <;> simp [here]
  · cases draft.node? id <;> simp [here]

/-- A node that is marked is not below those that are registered there. -/
theorem ClosedBelow.mark (rooted : draft.Rooted) {id child : Nat} (closed : draft.ClosedBelow id)
    (mem : child ∈ draft.children id) : (draft.mark id).ClosedBelow child := by
  have same : ∀ x, (draft.mark id).parent? x = draft.parent? x := parent?_mark draft id
  obtain ⟨key, up⟩ := mem_children.mp mem
  have less := rooted.above child id key up
  intro inner other at_inner dead under
  rw [below_congr same] at at_inner under
  have after_child := at_inner.le rooted
  have after_inner := under.le rooted
  have inner_later := Nat.lt_of_lt_of_le less after_child
  have other_later := Nat.lt_of_lt_of_le inner_later after_inner
  rw [isDead_mark_of_ne (Nat.ne_of_gt inner_later)] at dead
  rw [isDead_mark_of_ne (Nat.ne_of_gt other_later)]
  exact closed inner other (Below.trans (.up up .refl) at_inner) dead under

/-- A walk that takes up a node kills it and goes on with the rest of the stack. By induction on the
number of nodes that come after the node: those that are registered below it are among them. -/
theorem Walks.of_kill {top : NodeId} (fuel : Nat) :
    ∀ {draft after : Draft} {id : Nat} {stack : List NodeId}, draft.Rooted →
      id < draft.nodes.size → draft.nodes.size ≤ id + fuel → draft.ClosedBelow id →
      Walks top (draft.kill id) stack after → Walks top draft (id :: stack) after := by
  induction fuel with
  | zero =>
      intro draft after id stack _ known bound
      omega
  | succ fuel ih =>
      intro draft after id stack rooted known bound closed walk
      by_cases taken : draft.Alive id ∨ id = top
      · -- The nodes registered below are worked off before the rest of the stack is.
        have each : ∀ (killed : List Nat) (now : Draft), now.Rooted →
            now.nodes.size = draft.nodes.size →
            (∀ child ∈ killed, id < child ∧ child < draft.nodes.size ∧ now.ClosedBelow child) →
            Walks top (killed.foldl kill now) stack after →
            Walks top now (killed ++ stack) after := by
          intro killed
          induction killed with
          | nil => exact fun _ _ _ _ walk => walk
          | cons first rest ih_rest =>
              intro now rooted size fine walk
              obtain ⟨later, inside, closed⟩ := fine first List.mem_cons_self
              refine ih rooted (size ▸ inside) (by omega) closed ?_
              refine ih_rest (now.kill first)
                (rooted.of_parent? (parent?_kill now first) (size_kill now first))
                ((size_kill now first).trans size) ?_ walk
              intro child mem
              obtain ⟨later, inside, closed⟩ := fine child (List.mem_cons_of_mem _ mem)
              exact ⟨later, inside, closed.kill rooted first⟩
        refine .visit taken (each _ (draft.mark id)
          (rooted.of_parent? (parent?_mark draft id) (size_mark draft id)) (size_mark draft id) ?_ ?_)
        · intro child mem
          have mem := List.mem_reverse.mp mem
          obtain ⟨key, up⟩ := mem_children.mp mem
          exact ⟨rooted.above child id key up, lt_size_of_parent? up, closed.mark rooted mem⟩
        · rw [foldl_kill_mark rooted id fun child => List.mem_reverse]
          exact walk
      · have dead : draft.isDead id = true := by
          cases lives : draft.isDead id with
          | true => rfl
          | false => exact absurd (.inl lives) taken
        rw [kill_of_dead rooted closed dead] at walk
        exact .past dead (fun same => taken (.inr same)) walk

/-- The walk that starts with a node ends, and leaves what killing the node leaves. -/
theorem walks_kill (rooted : draft.Rooted) (closed : draft.Closed) {top : Nat}
    (known : top < draft.nodes.size) : Walks top draft [top] (draft.kill top) :=
  Walks.of_kill draft.nodes.size rooted known (by omega) (closed.closedBelow top) (.done _)

/-! ### Writing with walks -/

theorem Lawful.setEntry (lawful : draft.Lawful) (id : NodeId) (key : PathSegment) {entry : Entry}
    (nonNull : Bool) (own : ∀ child, entry = .node child → draft.Alive id →
      draft.parent? child = some (id, key) ∧ draft.Alive child) :
    (draft.setEntry id key entry nonNull).Lawful := by
  rcases draft.setEntry_cases id key entry nonNull with
    ⟨-, same⟩ | ⟨alive, -, same⟩ | ⟨alive, -, same⟩ <;> rw [same]
  · exact lawful
  · exact lawful.replaceByNull alive
  · cases entry with
    | leaf value => exact lawful.put_leaf id key value
    | node child =>
        obtain ⟨up, lives⟩ := own child rfl alive
        exact lawful.put_node up fun _ => lives

/-- How an entry comes to stand, write by write: a null where it is ruled out goes to the slot of the
node in its parent, and then the node is killed by a walk. -/
inductive Lands : Draft → NodeId → PathSegment → Entry → Bool → Draft → Prop
  | lost {draft : Draft} {id : NodeId} {key : PathSegment} {entry : Entry} {nonNull : Bool}
      (dead : draft.isDead id = true) : Lands draft id key entry nonNull draft
  | here {draft : Draft} {id : NodeId} {key : PathSegment} {entry : Entry} {nonNull : Bool}
      (alive : draft.Alive id) (allowed : (entry.isNull && nonNull) = false) :
      Lands draft id key entry nonNull (draft.put id key entry)
  | above {draft replaced after : Draft} {id parent : NodeId} {key slot : PathSegment}
      {entry : Entry} {nonNull : Bool} (alive : draft.Alive id)
      (ruled_out : (entry.isNull && nonNull) = true) (up : draft.parent? id = some (parent, slot))
      (lands : Lands draft parent slot (.leaf .null) (draft.nonNull id) replaced)
      (walk : Walks id replaced [id] after) : Lands draft id key entry nonNull after
  | whole {draft after : Draft} {id : NodeId} {key : PathSegment} {entry : Entry} {nonNull : Bool}
      (alive : draft.Alive id) (ruled_out : (entry.isNull && nonNull) = true)
      (top : draft.parent? id = none)
      (walk : Walks id { draft with dataIsNull := true } [id] after) :
      Lands draft id key entry nonNull after

/-- Writing an entry is to write it step by step. -/
theorem lands_setEntry (lawful : draft.Lawful) (id : Nat) :
    ∀ (key : PathSegment) (entry : Entry) (nonNull : Bool),
      Lands draft id key entry nonNull (draft.setEntry id key entry nonNull) := by
  induction id using Nat.strongRecOn with
  | _ id ih =>
      intro key entry nonNull
      unfold Draft.setEntry
      cases dead : draft.isDead id with
      | true => exact .lost dead
      | false =>
          rw [if_neg (by decide)]
          cases ruled_out : entry.isNull && nonNull with
          | false => exact .here dead ruled_out
          | true =>
              rw [if_pos rfl, ancestors_eq lawful.rooted]
              have known : id < draft.nodes.size := Alive.lt_size dead
              cases up : draft.parent? id with
              | none =>
                  have same : ∀ x, ({ draft with dataIsNull := true } : Draft).parent? x =
                      draft.parent? x := fun _ => rfl
                  have walks := walks_kill (lawful.rooted.of_parent? same rfl) lawful.closed known
                  exact .whole dead ruled_out up walks
              | some position =>
                  obtain ⟨parent, slot⟩ := position
                  have less := lawful.rooted.above id parent slot up
                  have lands := ih parent less slot (.leaf .null) (draft.nonNull id)
                  have replaced : (draft.setEntry parent slot (.leaf .null)
                      (draft.nonNull id)).Lawful := lawful.setEntry parent slot _ nofun
                  have size : (draft.setEntry parent slot (.leaf .null)
                      (draft.nonNull id)).nodes.size = draft.nodes.size :=
                    size_setLeaf parent slot .null (draft.nonNull id)
                  exact .above dead ruled_out up lands
                    (walks_kill replaced.rooted replaced.closed (size ▸ known))

end Draft

end GraphExec
