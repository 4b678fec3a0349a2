import GraphExec.Proofs.Draft.Content

/-!
# The tree of nodes

Nodes form a tree: each but the root knows its parent, which was allocated before it. A node is
alive as long as its parent is and refers to it.
-/

namespace GraphExec

namespace Draft

variable {draft : Draft}

def parent? (draft : Draft) (id : NodeId) : Option (NodeId × PathSegment) :=
  (draft.node? id).bind (·.parent?)

def nonNull (draft : Draft) (id : NodeId) : Bool :=
  (draft.node? id).any (·.nonNull)

def content? (draft : Draft) (id : NodeId) : Option Content :=
  (draft.node? id).map (·.content)

/-- What stands at a slot of a node. -/
def held? (draft : Draft) (id : NodeId) (key : PathSegment) : Option Entry :=
  (draft.content? id).bind (·.held? key)

def Alive (draft : Draft) (id : NodeId) : Prop :=
  draft.isDead id = false

theorem Alive.node {id : NodeId} (alive : draft.Alive id) :
    ∃ node, draft.node? id = some node ∧ node.dead = false := by
  unfold Alive isDead at alive
  cases found : draft.node? id with
  | none => simp [found] at alive
  | some node => exact ⟨node, rfl, by simpa [found] using alive⟩

theorem Alive.lt_size {id : NodeId} (alive : draft.Alive id) : id < draft.nodes.size := by
  obtain ⟨node, found, -⟩ := alive.node
  exact (Array.getElem?_eq_some_iff.mp found).1

theorem Alive.content {id : NodeId} (alive : draft.Alive id) :
    ∃ content, draft.content? id = some content := by
  obtain ⟨node, found, -⟩ := alive.node
  exact ⟨node.content, by simp [content?, found]⟩

/-! ### What a change leaves of other nodes -/

theorem node?_modify (draft : Draft) (id other : NodeId) (f : Node → Node) :
    (draft.modify id f).node? other =
      if other = id then (draft.node? other).map f else draft.node? other := by
  simp only [modify, node?, Array.getElem?_modify]
  by_cases same : other = id
  · simp [same]
  · simp [same, Ne.symm same]

/-- A change of the content of one node. -/
def edit (draft : Draft) (id : NodeId) (f : Content → Content) : Draft :=
  draft.modify id fun node => { node with content := f node.content }

theorem content?_edit (draft : Draft) (id other : NodeId) (f : Content → Content) :
    (draft.edit id f).content? other =
      if other = id then (draft.content? other).map f else draft.content? other := by
  unfold edit content?
  rw [node?_modify]
  split <;> simp [Function.comp_def]

@[simp] theorem isDead_edit (draft : Draft) (id other : NodeId) (f : Content → Content) :
    (draft.edit id f).isDead other = draft.isDead other := by
  unfold edit isDead
  rw [node?_modify]
  by_cases same : other = id
  · rw [if_pos same]
    cases draft.node? other <;> rfl
  · rw [if_neg same]

@[simp] theorem alive_edit (draft : Draft) (id other : NodeId) (f : Content → Content) :
    (draft.edit id f).Alive other ↔ draft.Alive other := by
  simp [Alive]

@[simp] theorem parent?_edit (draft : Draft) (id other : NodeId) (f : Content → Content) :
    (draft.edit id f).parent? other = draft.parent? other := by
  unfold edit parent?
  rw [node?_modify]
  split
  · cases draft.node? other <;> rfl
  · rfl

@[simp] theorem nonNull_edit (draft : Draft) (id other : NodeId) (f : Content → Content) :
    (draft.edit id f).nonNull other = draft.nonNull other := by
  unfold edit nonNull
  rw [node?_modify]
  split
  · cases draft.node? other <;> rfl
  · rfl

@[simp] theorem dataIsNull_edit (draft : Draft) (id : NodeId) (f : Content → Content) :
    (draft.edit id f).dataIsNull = draft.dataIsNull := rfl

@[simp] theorem size_edit (draft : Draft) (id : NodeId) (f : Content → Content) :
    (draft.edit id f).nodes.size = draft.nodes.size := by
  simp [edit, modify]

theorem put_eq_edit (draft : Draft) (id : NodeId) (key : PathSegment) (entry : Entry) :
    draft.put id key entry = draft.edit id fun content => content.put key entry := rfl

theorem setKeys_eq_edit (draft : Draft) (id : NodeId) (keys : List String) :
    draft.setKeys id keys = draft.edit id fun content => content.setKeys keys := rfl

@[simp] theorem alive_put (draft : Draft) (id other : NodeId) (key : PathSegment) (entry : Entry) :
    (draft.put id key entry).Alive other ↔ draft.Alive other := by
  rw [put_eq_edit, alive_edit]

@[simp] theorem alive_setKeys (draft : Draft) (id other : NodeId) (keys : List String) :
    (draft.setKeys id keys).Alive other ↔ draft.Alive other := by
  rw [setKeys_eq_edit, alive_edit]

@[simp] theorem size_put (draft : Draft) (id : NodeId) (key : PathSegment) (entry : Entry) :
    (draft.put id key entry).nodes.size = draft.nodes.size := by
  rw [put_eq_edit, size_edit]

@[simp] theorem size_setKeys (draft : Draft) (id : NodeId) (keys : List String) :
    (draft.setKeys id keys).nodes.size = draft.nodes.size := by
  rw [setKeys_eq_edit, size_edit]

theorem skip_eq_edit {id : NodeId} (alive : draft.Alive id) (key : PathSegment) :
    draft.skip id key = draft.edit id fun content => content.skip key :=
  if_neg (by rw [show draft.isDead id = false from alive]; decide)

theorem node?_kill (draft : Draft) (top id : NodeId) :
    (draft.kill top).node? id = (draft.node? id).map fun node =>
      if draft.isWithin top id then { node with dead := true } else node := by
  simp [kill, node?, Array.getElem?_mapIdx]

@[simp] theorem content?_kill (draft : Draft) (top id : NodeId) :
    (draft.kill top).content? id = draft.content? id := by
  unfold content?
  rw [node?_kill]
  cases draft.node? id with
  | none => rfl
  | some node => simp only [Option.map_some]; split <;> rfl

@[simp] theorem parent?_kill (draft : Draft) (top id : NodeId) :
    (draft.kill top).parent? id = draft.parent? id := by
  unfold parent?
  rw [node?_kill]
  cases draft.node? id with
  | none => rfl
  | some node => simp only [Option.map_some, Option.bind_some]; split <;> rfl

@[simp] theorem nonNull_kill (draft : Draft) (top id : NodeId) :
    (draft.kill top).nonNull id = draft.nonNull id := by
  unfold nonNull
  rw [node?_kill]
  cases draft.node? id with
  | none => rfl
  | some node => simp only [Option.map_some, Option.any_some]; split <;> rfl

@[simp] theorem dataIsNull_kill (draft : Draft) (top : NodeId) :
    (draft.kill top).dataIsNull = draft.dataIsNull := rfl

@[simp] theorem size_kill (draft : Draft) (top : NodeId) :
    (draft.kill top).nodes.size = draft.nodes.size := by
  simp [kill]

theorem isDead_kill (draft : Draft) (top id : NodeId) :
    (draft.kill top).isDead id = (draft.isDead id || draft.isWithin top id) := by
  unfold isDead
  rw [node?_kill]
  cases draft.node? id with
  | none => rfl
  | some node => cases draft.isWithin top id <;> simp

theorem alive_kill (draft : Draft) (top id : NodeId) :
    (draft.kill top).Alive id ↔ draft.Alive id ∧ draft.isWithin top id = false := by
  unfold Alive
  rw [isDead_kill]
  simp

/-! ### Ancestors -/

/-- A tree: the root is the first node, and parents were allocated before their children. -/
structure Rooted (draft : Draft) : Prop where
  root : ∃ node, draft.node? 0 = some node ∧ node.parent? = none
  above : ∀ (id parent : Nat) key, draft.parent? id = some (parent, key) → parent < id
  others : ∀ id : Nat, id < draft.nodes.size → id ≠ 0 → ∃ parent key, draft.parent? id = some (parent, key)

theorem ascend_of_le (rooted : draft.Rooted) :
    ∀ (fuel id : Nat), id ≤ fuel → draft.ascend fuel id = draft.ancestors id := by
  suffices all : ∀ (fuel other id : Nat), id ≤ fuel → id ≤ other →
      draft.ascend fuel id = draft.ascend other id by
    intro fuel id bound
    exact all fuel id id bound (Nat.le_refl id)
  intro fuel
  induction fuel with
  | zero =>
      intro other id bound _
      have first : id = 0 := Nat.le_zero.mp bound
      subst first
      have none_above : (draft.node? 0).bind (·.parent?) = none := by
        obtain ⟨node, found, top⟩ := rooted.root
        simp [found, top]
      unfold ascend
      rw [none_above]
  | succ fuel ih =>
      intro other id bound bound'
      unfold ascend
      cases found : (draft.node? id).bind (·.parent?) with
      | none => rfl
      | some up =>
          obtain ⟨parent, key⟩ := up
          have less := rooted.above id parent key found
          cases other with
          | zero => omega
          | succ other =>
              simp only
              rw [ih other parent (by omega) (by omega)]

/-- The ancestors of a node are its parent and the ancestors of that. -/
theorem ancestors_eq (rooted : draft.Rooted) (id : Nat) :
    draft.ancestors id =
      match draft.parent? id with
      | none => []
      | some (parent, key) => (parent, key) :: draft.ancestors parent := by
  rw [ancestors, ascend]
  show (match draft.parent? id with | none => [] | some (parent, key) => _) = _
  cases found : draft.parent? id with
  | none => rfl
  | some up =>
      obtain ⟨parent, key⟩ := up
      have less := rooted.above id parent key found
      cases id with
      | zero => omega
      | succ n =>
          simp only
          rw [ascend_of_le rooted n parent (by omega)]

/-- A node stands below another one, or is it. -/
inductive Below (draft : Draft) (top : NodeId) : NodeId → Prop
  | refl : Below draft top top
  | up {id parent : NodeId} {key : PathSegment} (step : draft.parent? id = some (parent, key))
      (below : Below draft top parent) : Below draft top id

theorem isWithin_iff (rooted : draft.Rooted) (top id : NodeId) :
    draft.isWithin top id = true ↔ draft.Below top id := by
  constructor
  · induction id using Nat.strongRecOn with
    | _ id ih =>
        intro within
        unfold isWithin at within
        rw [ancestors_eq rooted] at within
        by_cases same : id = top
        · exact same ▸ .refl
        · cases found : draft.parent? id with
          | none => simp [found, same] at within
          | some up =>
              obtain ⟨parent, key⟩ := up
              refine .up found (ih parent (rooted.above id parent key found) ?_)
              simpa [found, same, isWithin] using within
  · intro below
    induction below with
    | refl => simp [isWithin]
    | @up id parent key step _ ih =>
        unfold isWithin at ih ⊢
        rw [ancestors_eq rooted, step]
        simp only [Bool.or_eq_true, List.any_cons] at ih ⊢
        exact .inr ih

theorem Below.trans {top middle id : NodeId} (first : draft.Below top middle)
    (second : draft.Below middle id) : draft.Below top id := by
  induction second with
  | refl => exact first
  | up step _ ih => exact .up step ih

/-- What stands below a node, and is another one, stands there with its parent. -/
theorem Below.of_parent? {top id parent : NodeId} {key : PathSegment} (below : draft.Below top id)
    (other : id ≠ top) (step : draft.parent? id = some (parent, key)) : draft.Below top parent := by
  cases below with
  | refl => exact absurd rfl other
  | up step' below =>
      obtain ⟨rfl, -⟩ := Prod.mk.inj (Option.some.inj (step'.symm.trans step))
      exact below

/-- Trees with the same parents have the same ancestors. -/
theorem Rooted.of_parent? {other : Draft} (rooted : draft.Rooted)
    (same : ∀ id, other.parent? id = draft.parent? id)
    (size : other.nodes.size = draft.nodes.size) : other.Rooted := by
  refine ⟨?_, ?_, ?_⟩
  · obtain ⟨node, found, top⟩ := rooted.root
    have inside : 0 < other.nodes.size := by
      rw [size]
      exact (Array.getElem?_eq_some_iff.mp found).1
    refine ⟨other.nodes[0], Array.getElem?_eq_getElem inside, ?_⟩
    have here : other.parent? 0 = none := by
      rw [same]
      simp [parent?, found, top]
    simpa [parent?, node?, Array.getElem?_eq_getElem inside] using here
  · intro id parent key h
    exact rooted.above id parent key (same id ▸ h)
  · intro id bound differs
    obtain ⟨parent, key, h⟩ := rooted.others id (size ▸ bound) differs
    exact ⟨parent, key, (same id).trans h⟩

theorem below_congr {other : Draft} (same : ∀ id, other.parent? id = draft.parent? id)
    {top id : NodeId} : other.Below top id ↔ draft.Below top id := by
  constructor
  · intro below
    induction below with
    | refl => exact .refl
    | up step _ ih => exact .up (same _ ▸ step) ih
  · intro below
    induction below with
    | refl => exact .refl
    | up step _ ih => exact .up ((same _).trans step) ih

theorem isWithin_congr {other : Draft} (rooted : draft.Rooted)
    (same : ∀ id, other.parent? id = draft.parent? id)
    (size : other.nodes.size = draft.nodes.size) (top id : NodeId) :
    other.isWithin top id = draft.isWithin top id := by
  rw [Bool.eq_iff_iff, isWithin_iff (rooted.of_parent? same size), isWithin_iff rooted,
    below_congr same]

end Draft

end GraphExec
