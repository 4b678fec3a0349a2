import GraphExec.Proofs.Draft.Tree

/-!
# Where a null comes to stand

A null that may not stand where it is written rises to the nearest node whose position allows it.
All nodes below that position die, and no other ones do.
-/

namespace GraphExec

theorem Entry.isNull_iff {entry : Entry} : entry.isNull = true ↔ entry = .leaf .null := by
  rcases entry with value | node
  · cases value <;> simp [Entry.isNull]
  · simp [Entry.isNull]

namespace Draft

variable {draft : Draft}

/-- What holds of a draft while it is written. -/
structure Wf (draft : Draft) : Prop where
  rooted : draft.Rooted
  child : ∀ id parent key, draft.Alive id → draft.parent? id = some (parent, key) →
    draft.Alive parent ∧ draft.held? parent key = some (.node id)
  entry : ∀ parent key id, draft.Alive parent → draft.held? parent key = some (.node id) →
    draft.Alive id ∧ draft.parent? id = some (parent, key)
  neat : ∀ id content, draft.Alive id → draft.content? id = some content → content.Neat
  null : draft.isDead root = draft.dataIsNull

/-- A node is alive only below nodes that are alive. -/
def Closed (draft : Draft) : Prop :=
  ∀ id parent key, draft.Alive id → draft.parent? id = some (parent, key) → draft.Alive parent

theorem Wf.closed (wf : draft.Wf) : draft.Closed :=
  fun id parent key alive up => (wf.child id parent key alive up).1

/-- A null at a node rises to another node: each on the way but the last rules out null. -/
inductive Rises (draft : Draft) : NodeId → NodeId → Prop
  | here (id : NodeId) : Rises draft id id
  | up {id parent top : NodeId} {key : PathSegment} (nonNull : draft.nonNull id = true)
      (step : draft.parent? id = some (parent, key)) (rises : Rises draft parent top) :
      Rises draft id top

theorem Rises.stands_below {id top : NodeId} (rises : draft.Rises id top) : draft.Below top id := by
  induction rises with
  | here id => exact .refl
  | up _ step _ ih => exact .up step ih

/-- To kill a node that is dead with one above it changes nothing. -/
theorem kill_kill (rooted : draft.Rooted) {top id : NodeId} (below : draft.Below top id) :
    (draft.kill top).kill id = draft.kill top := by
  have killed : (draft.kill top).Rooted :=
    rooted.of_parent? (fun other => parent?_kill draft top other) (size_kill draft top)
  have nodes : ((draft.kill top).kill id).nodes = (draft.kill top).nodes := by
    apply Array.ext_getElem?
    intro other
    show ((draft.kill top).kill id).node? other = (draft.kill top).node? other
    rw [node?_kill, node?_kill]
    cases draft.node? other with
    | none => rfl
    | some node =>
        simp only [Option.map_some, Option.some.injEq]
        by_cases within : (draft.kill top).isWithin id other = true
        · have under : draft.Below id other := by
            rw [isWithin_iff killed, below_congr fun x => parent?_kill draft top x] at within
            exact within
          have both : draft.isWithin top other = true :=
            (isWithin_iff rooted top other).mpr (below.trans under)
          simp [within, both]
        · simp [within]
  exact congrArg (fun nodes => (⟨nodes, draft.dataIsNull⟩ : Draft)) nodes

theorem Closed.above (closed : draft.Closed) {id top : NodeId} (below : draft.Below top id)
    (alive : draft.Alive id) : draft.Alive top := by
  induction below with
  | refl => exact alive
  | up step _ ih => exact ih (closed _ _ _ alive step)

theorem Rises.alive (wf : draft.Wf) {id top : NodeId} (rises : draft.Rises id top)
    (alive : draft.Alive id) : draft.Alive top :=
  wf.closed.above rises.stands_below alive

/-- A node without a parent is the root. -/
theorem Rooted.eq_root (rooted : draft.Rooted) {id : Nat} (bound : id < draft.nodes.size)
    (none_above : draft.parent? id = none) : id = Draft.root := by
  refine Classical.byContradiction fun other => ?_
  obtain ⟨parent, key, up⟩ := rooted.others id bound other
  rw [none_above] at up
  cases up

/-- Where a null that rises from a live node comes to stand, in any tree of which no part lives
below a dead node. -/
theorem replaceByNull_cases (rooted : draft.Rooted) (closed : draft.Closed) (id : Nat)
    (alive : draft.Alive id) :
    ∃ top, draft.Rises id top ∧
      ((top = root ∧ draft.replaceByNull id (draft.ancestors id) = draft.nullData) ∨
        ∃ parent key, draft.parent? top = some (parent, key) ∧ draft.nonNull top = false ∧
          draft.replaceByNull id (draft.ancestors id) =
            (draft.put parent key (.leaf .null)).kill top) := by
  induction id using Nat.strongRecOn with
  | _ id ih =>
      rw [ancestors_eq rooted]
      cases up : draft.parent? id with
      | none =>
          have first := rooted.eq_root alive.lt_size up
          subst first
          exact ⟨root, .here root, .inl ⟨rfl, rfl⟩⟩
      | some position =>
          obtain ⟨parent, key⟩ := position
          have alive_parent := closed id parent key alive up
          have not_dead : draft.isDead parent = false := alive_parent
          simp only [replaceByNull, not_dead, Bool.false_eq_true, if_false]
          cases rules_out : draft.nonNull id with
          | false =>
              have open_here : (draft.node? id).any (·.nonNull) = false := rules_out
              rw [open_here]
              exact ⟨id, .here id, .inr ⟨parent, key, up, rules_out, rfl⟩⟩
          | true =>
              have closed : (draft.node? id).any (·.nonNull) = true := rules_out
              rw [closed]
              obtain ⟨top, rises, reached⟩ :=
                ih parent (rooted.above id parent key up) alive_parent
              have below : draft.Below top id := .up up rises.stands_below
              refine ⟨top, .up rules_out up rises, ?_⟩
              rcases reached with ⟨is_root, same⟩ | ⟨above, slot, step, open_there, same⟩
              · refine .inl ⟨is_root, ?_⟩
                subst is_root
                simp only [if_true, same]
                have unchanged : ∀ x, ({ draft with dataIsNull := true } : Draft).parent? x =
                    draft.parent? x := fun _ => rfl
                exact kill_kill (rooted.of_parent? unchanged rfl)
                  ((below_congr unchanged).mpr below)
              · refine .inr ⟨above, slot, step, open_there, ?_⟩
                simp only [if_true, same]
                have unchanged : ∀ x, (draft.put above slot (.leaf .null)).parent? x =
                    draft.parent? x :=
                  fun x => parent?_edit draft above x fun content => content.put slot (.leaf .null)
                have size : (draft.put above slot (.leaf .null)).nodes.size = draft.nodes.size :=
                  size_edit draft above fun content => content.put slot (.leaf .null)
                exact kill_kill (rooted.of_parent? unchanged size)
                  ((below_congr unchanged).mpr below)

/-- Where a null that rises from a live node comes to stand. -/
theorem replaceByNull_eq (wf : draft.Wf) (id : Nat) (alive : draft.Alive id) :
    ∃ top, draft.Rises id top ∧
      ((top = root ∧ draft.replaceByNull id (draft.ancestors id) = draft.nullData) ∨
        ∃ parent key, draft.parent? top = some (parent, key) ∧ draft.nonNull top = false ∧
          draft.replaceByNull id (draft.ancestors id) =
            (draft.put parent key (.leaf .null)).kill top) :=
  replaceByNull_cases wf.rooted wf.closed id alive

/-! ### What a write does -/

/-- An entry is lost below a dead node. A null replaces the node where null is ruled out, and any
other entry is put where it is written. -/
theorem setEntry_cases (draft : Draft) (id : NodeId) (key : PathSegment) (entry : Entry)
    (nonNull : Bool) :
    (draft.isDead id = true ∧ draft.setEntry id key entry nonNull = draft) ∨
      (draft.Alive id ∧ (entry = .leaf .null ∧ nonNull = true) ∧
        draft.setEntry id key entry nonNull = draft.replaceByNull id (draft.ancestors id)) ∨
      (draft.Alive id ∧ ¬ (entry = .leaf .null ∧ nonNull = true) ∧
        draft.setEntry id key entry nonNull = draft.put id key entry) := by
  unfold setEntry
  cases dead : draft.isDead id with
  | true => exact .inl ⟨rfl, rfl⟩
  | false =>
      rw [if_neg (by decide)]
      cases ruled_out : entry.isNull && nonNull with
      | true =>
          obtain ⟨null, rules⟩ := Bool.and_eq_true_iff.mp ruled_out
          exact .inr (.inl ⟨dead, ⟨Entry.isNull_iff.mp null, rules⟩, rfl⟩)
      | false =>
          refine .inr (.inr ⟨dead, ?_, rfl⟩)
          rintro ⟨rfl, rfl⟩
          cases ruled_out

/-- A value is lost below a dead node. A null replaces the node where null is ruled out, and any
other value is put where it is written. -/
theorem setLeaf_cases (draft : Draft) (id : NodeId) (key : PathSegment) (value : Value)
    (nonNull : Bool) :
    (draft.isDead id = true ∧ draft.setLeaf id key value nonNull = draft) ∨
      (draft.Alive id ∧ (value = .null ∧ nonNull = true) ∧
        draft.setLeaf id key value nonNull = draft.replaceByNull id (draft.ancestors id)) ∨
      (draft.Alive id ∧ ¬ (value = .null ∧ nonNull = true) ∧
        draft.setLeaf id key value nonNull = draft.put id key (.leaf value)) := by
  have cases := draft.setEntry_cases id key (.leaf value) nonNull
  simp only [Entry.leaf.injEq] at cases
  exact cases

/-- What goes on to hold as nodes die holds once a null has replaced a node, if it holds of each
draft that one bare write leaves. -/
theorem replaceByNull_keeps {P : Draft → Prop} (holds : P draft)
    (flagged : P { draft with dataIsNull := true })
    (put : ∀ id key entry, P (draft.put id key entry))
    (kill : ∀ other id, P other → P (other.kill id)) (above : List (NodeId × PathSegment)) :
    ∀ id, P (draft.replaceByNull id above) := by
  induction above with
  | nil => exact fun id => kill _ id flagged
  | cons position above ih =>
      intro id
      obtain ⟨parent, key⟩ := position
      unfold replaceByNull
      refine kill _ id ?_
      split
      · exact holds
      · split
        · exact ih parent
        · exact put parent key _

/-- What goes on to hold as nodes die holds once an entry is written, if it holds of each draft that
one bare write leaves. -/
theorem setEntry_keeps {P : Draft → Prop} (holds : P draft)
    (flagged : P { draft with dataIsNull := true })
    (put : ∀ id key entry, P (draft.put id key entry))
    (kill : ∀ other id, P other → P (other.kill id)) (id : NodeId) (key : PathSegment)
    (entry : Entry) (nonNull : Bool) : P (draft.setEntry id key entry nonNull) := by
  rcases draft.setEntry_cases id key entry nonNull with
    ⟨-, same⟩ | ⟨-, -, same⟩ | ⟨-, -, same⟩ <;> rw [same]
  · exact holds
  · exact replaceByNull_keeps holds flagged put kill _ id
  · exact put id key entry

end Draft

end GraphExec
