import GraphExec.Proofs.Draft.Growth

/-!
# Which nodes fall

A value that is written leaves the nodes of a draft where they are. None of them dies of it unless a
null is written where null is ruled out: then those die that are below the node that the null rises to.
-/

namespace GraphExec

namespace Draft

variable {draft other : Draft}

/-! ### Nodes stay where they are -/

theorem ascend_congr (same : ∀ id, other.parent? id = draft.parent? id) :
    ∀ fuel id, other.ascend fuel id = draft.ascend fuel id := by
  intro fuel
  induction fuel with
  | zero =>
      intro id
      unfold ascend
      rw [show (other.node? id).bind (·.parent?) = _ from same id]
      rfl
  | succ fuel ih =>
      intro id
      unfold ascend
      rw [show (other.node? id).bind (·.parent?) = _ from same id]
      simp only [ih]
      rfl

/-- Drafts with the same parents have the same paths. -/
theorem pathTo_congr (same : ∀ id, other.parent? id = draft.parent? id) (id : NodeId)
    (key : PathSegment) : other.pathTo id key = draft.pathTo id key := by
  unfold pathTo path ancestors
  rw [ascend_congr same]

@[simp] theorem parent?_setLeaf (id other : NodeId) (key : PathSegment) (value : Value)
    (nonNull : Bool) : (draft.setLeaf id key value nonNull).parent? other = draft.parent? other :=
  setEntry_keeps (P := fun after => after.parent? other = draft.parent? other) rfl rfl
    (fun _ _ _ => by rw [put_eq_edit, parent?_edit])
    (fun _ _ same => (parent?_kill _ _ _).trans same) id key (.leaf value) nonNull

@[simp] theorem nonNull_setLeaf (id other : NodeId) (key : PathSegment) (value : Value)
    (nonNull : Bool) : (draft.setLeaf id key value nonNull).nonNull other = draft.nonNull other :=
  setEntry_keeps (P := fun after => after.nonNull other = draft.nonNull other) rfl rfl
    (fun _ _ _ => by rw [put_eq_edit, nonNull_edit])
    (fun _ _ same => (nonNull_kill _ _ _).trans same) id key (.leaf value) nonNull

@[simp] theorem size_setLeaf (id : NodeId) (key : PathSegment) (value : Value) (nonNull : Bool) :
    (draft.setLeaf id key value nonNull).nodes.size = draft.nodes.size :=
  setEntry_keeps (P := fun after => after.nodes.size = draft.nodes.size) rfl rfl
    (fun _ _ _ => size_put _ _ _ _) (fun _ _ same => (size_kill _ _).trans same) id key
    (.leaf value) nonNull

/-! ### What falls with a node -/

/-- A node is below the one that a null rises to from another node. -/
def Felled (draft : Draft) (node id : NodeId) : Prop :=
  ∃ top, draft.Rises node top ∧ draft.Below top id

theorem Rises.congr (parents : ∀ id, other.parent? id = draft.parent? id)
    (nulls : ∀ id, other.nonNull id = draft.nonNull id) {id top : NodeId}
    (rises : draft.Rises id top) : other.Rises id top := by
  induction rises with
  | here id => exact .here id
  | up nonNull step _ ih => exact .up ((nulls _).trans nonNull) ((parents _).trans step) ih

theorem Felled.congr (parents : ∀ id, other.parent? id = draft.parent? id)
    (nulls : ∀ id, other.nonNull id = draft.nonNull id) {node id : NodeId}
    (felled : draft.Felled node id) : other.Felled node id := by
  obtain ⟨top, rises, below⟩ := felled
  exact ⟨top, rises.congr parents nulls, (below_congr parents).mpr below⟩

/-- A node that dies as a value is written falls with the node that it is written to. -/
theorem felled_setLeaf (wf : draft.Wf) {node : NodeId} {key : PathSegment} {value : Value}
    {nonNull : Bool} {id : NodeId} (alive : draft.Alive id)
    (dead : ¬ (draft.setLeaf node key value nonNull).Alive id) :
    value = .null ∧ nonNull = true ∧ draft.Felled node id := by
  rcases draft.setLeaf_cases node key value nonNull with
    ⟨-, same⟩ | ⟨lives, ⟨is_null, ruled_out⟩, same⟩ | ⟨-, -, same⟩
  · exact absurd alive (same ▸ dead)
  · refine ⟨is_null, ruled_out, ?_⟩
    rw [same] at dead
    obtain ⟨top, rises, placed⟩ := replaceByNull_eq wf node lives
    refine ⟨top, rises, ?_⟩
    rcases placed with ⟨rfl, -⟩ | ⟨parent, slot, up, -, same⟩
    · exact below_root wf.rooted id alive.lt_size
    · rw [same] at dead
      exact Classical.byContradiction fun aside => dead ((alive_replace wf.rooted).mpr ⟨alive, aside⟩)
  · exact absurd ((alive_put _ _ _ _ _).mpr alive) (same ▸ dead)

end Draft

end GraphExec
