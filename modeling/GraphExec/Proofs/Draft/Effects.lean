import GraphExec.Proofs.Draft.Alike
import GraphExec.Proofs.Draft.Fallen
import GraphExec.Proofs.Draft.Rising

/-!
# What a write comes to

A finished value or a key that is left out changes one slot of a live node. A null where it is ruled
out changes the slot of another node, which dies with all below it, or makes all null. Which of these
it is depends on the tree and on whether the node lives, not on what stands in the draft; two effects
that agree on a slot that both change may come in either order.
-/

namespace GraphExec

namespace Draft

variable {draft other : Draft}

/-! ### Lines of nodes -/

/-- Of two nodes above a third, one is above the other. -/
theorem Below.linear {one top id : NodeId} (below : draft.Below one id)
    (below' : draft.Below top id) : draft.Below one top ∨ draft.Below top one := by
  induction below with
  | refl => exact .inr below'
  | up step below ih =>
      cases below' with
      | refl => exact .inl (.up step below)
      | up step' below' =>
          rw [step] at step'
          injection step' with step'
          injection step' with same
          subst same
          exact ih below'

theorem Below.antisymm (rooted : draft.Rooted) {one top : Nat} (below : draft.Below one top)
    (below' : draft.Below top one) : one = top :=
  Nat.le_antisymm (below.le rooted) (below'.le rooted)

/-- A null that rises past a node comes to it. -/
theorem Rises.through (rooted : draft.Rooted) {id middle top : NodeId} (rises : draft.Rises id top)
    (below : draft.Below middle id) (above : draft.Below top middle) : draft.Rises id middle := by
  induction rises with
  | here id =>
      obtain rfl := below.antisymm rooted above
      exact .here middle
  | up nonNull step _ ih =>
      cases below with
      | refl => exact .here middle
      | up step' below =>
          rw [step] at step'
          injection step' with step'
          injection step' with same
          subst same
          exact .up nonNull step (ih below above)

/-- The path of a node that is above another one is a prefix of the other's. -/
theorem Below.path_above (rooted : draft.Rooted) {top id : NodeId} (below : draft.Below top id) :
    draft.path top <+: draft.path id := by
  induction below with
  | refl => exact List.prefix_refl _
  | @up id parent key step _ ih =>
      rw [path_eq rooted step]
      exact ih.trans (List.prefix_append _ _)

/-! ### Effects -/

/-- What a write comes to: the slot that it changes, how the content there changes, and the node that
it kills. The whole is null once the root is killed. -/
structure Effect where
  slot? : Option (NodeId × PathSegment)
  change : Content → Content
  top? : Option NodeId
  /-- Nothing but the slot changes. -/
  isLocal : ∀ id key, slot? = some (id, key) → Content.LocalAt key change

namespace Effect

variable {effect one two : Effect}

/-- What is written to a dead node is lost. -/
def nothing : Effect := ⟨none, fun content => content, none, nofun⟩

/-- A null in the place of a node. -/
def null (top parent : NodeId) (slot : PathSegment) : Effect where
  slot? := some (parent, slot)
  change content := content.put slot (.leaf .null)
  top? := some top
  isLocal := by
    rintro id key ⟨⟩
    exact Content.localAt_put slot _

/-- A null for the whole. -/
def all : Effect := ⟨none, fun content => content, some root, nofun⟩

/-- What an effect makes of the content of a node. -/
def changeAt (effect : Effect) (id : NodeId) : Content → Content :=
  if effect.slot?.map (·.1) = some id then effect.change else fun content => content

/-- A draft with the slot changed. -/
def edited (effect : Effect) (draft : Draft) : Draft :=
  match effect.slot? with
  | none => draft
  | some (id, _) => draft.edit id effect.change

/-- A draft after an effect. -/
def apply (effect : Effect) (draft : Draft) : Draft :=
  match effect.top? with
  | none => effect.edited draft
  | some top =>
    { effect.edited draft with dataIsNull := draft.dataIsNull || top == root }.kill top

/-- The nodes that an effect kills. -/
def Kills (effect : Effect) (draft : Draft) (id : NodeId) : Prop :=
  ∃ top, effect.top? = some top ∧ draft.Below top id

theorem apply_null {top parent : NodeId} {slot : PathSegment} (other : top ≠ root) :
    (null top parent slot).apply draft = (draft.put parent slot (.leaf .null)).kill top := by
  have apart : (top == root) = false := by simpa using other
  simp only [apply, null, edited, apart, Bool.or_false]
  rfl

theorem apply_all : all.apply draft = draft.nullData := by
  simp only [apply, all, edited, nullData, beq_self_eq_true, Bool.or_true]

/-! ### What can be seen of an effect -/

@[simp] theorem size_apply (effect : Effect) (draft : Draft) :
    (effect.apply draft).nodes.size = draft.nodes.size := by
  unfold apply edited
  cases effect.slot? <;> cases effect.top? <;> simp [size_kill]

@[simp] theorem parent?_apply (effect : Effect) (draft : Draft) (id : NodeId) :
    (effect.apply draft).parent? id = draft.parent? id := by
  have edited : (effect.edited draft).parent? id = draft.parent? id := by
    unfold edited
    cases effect.slot? <;> simp
  unfold apply
  cases effect.top? with
  | none => exact edited
  | some top => exact (parent?_kill _ top id).trans edited

@[simp] theorem nonNull_apply (effect : Effect) (draft : Draft) (id : NodeId) :
    (effect.apply draft).nonNull id = draft.nonNull id := by
  have edited : (effect.edited draft).nonNull id = draft.nonNull id := by
    unfold edited
    cases effect.slot? <;> simp
  unfold apply
  cases effect.top? with
  | none => exact edited
  | some top => exact (nonNull_kill _ top id).trans edited

theorem dataIsNull_apply (effect : Effect) (draft : Draft) :
    (effect.apply draft).dataIsNull = (draft.dataIsNull || effect.top? == some root) := by
  unfold apply edited
  cases effect.top? with
  | none => cases effect.slot? <;> simp
  | some top => simp

theorem content?_apply (effect : Effect) (draft : Draft) (id : NodeId) :
    (effect.apply draft).content? id = (draft.content? id).map (effect.changeAt id) := by
  have edited : (effect.edited draft).content? id =
      (draft.content? id).map (effect.changeAt id) := by
    unfold edited changeAt
    cases effect.slot? with
    | none => simp
    | some slot =>
        rw [content?_edit]
        by_cases here : id = slot.1
        · simp [here]
        · simp [here, Ne.symm here]
  unfold apply
  cases effect.top? with
  | none => exact edited
  | some top => exact (content?_kill _ top id).trans edited

theorem alive_apply (effect : Effect) (rooted : draft.Rooted) (id : NodeId) :
    (effect.apply draft).Alive id ↔ draft.Alive id ∧ ¬ effect.Kills draft id := by
  have parent (id : NodeId) : (effect.edited draft).parent? id = draft.parent? id := by
    unfold edited
    cases effect.slot? <;> simp
  have size : (effect.edited draft).nodes.size = draft.nodes.size := by
    unfold edited
    cases effect.slot? <;> simp
  have alive : (effect.edited draft).Alive id ↔ draft.Alive id := by
    unfold edited
    cases effect.slot? <;> simp
  unfold apply Kills
  cases effect.top? with
  | none => simpa using alive
  | some top =>
      have flagged (id : NodeId) : ({ effect.edited draft with
          dataIsNull := draft.dataIsNull || top == root } : Draft).parent? id = draft.parent? id :=
        parent id
      have alive : ({ effect.edited draft with
          dataIsNull := draft.dataIsNull || top == root } : Draft).Alive id ↔ draft.Alive id := alive
      refine (alive_kill _ top id).trans ?_
      rw [← Bool.not_eq_true, isWithin_iff (rooted.of_parent? flagged size), below_congr flagged,
        alive]
      simp

theorem kills_congr (parent : ∀ id, other.parent? id = draft.parent? id) {id : NodeId} :
    effect.Kills other id ↔ effect.Kills draft id := by
  unfold Kills
  simp only [below_congr parent]

theorem rooted_apply (effect : Effect) (rooted : draft.Rooted) : (effect.apply draft).Rooted :=
  rooted.of_parent? (parent?_apply effect draft) (size_apply effect draft)

@[simp] theorem shape_changeAt (effect : Effect) (id : NodeId) (content : Content) :
    (effect.changeAt id content).shape = content.shape := by
  unfold changeAt
  split
  · rename_i here
    obtain ⟨⟨node, key⟩, slot, -⟩ := Option.map_eq_some_iff.mp here
    exact (effect.isLocal node key slot).shape content
  · rfl

/-- Contents that are alike stay so. -/
theorem alike_changeAt (effect : Effect) (id : NodeId) {content content' : Content}
    (alike : content.Alike content') (plain : content.Plain) (plain' : content'.Plain) :
    (effect.changeAt id content).Alike (effect.changeAt id content') := by
  unfold changeAt
  split
  · rename_i here
    obtain ⟨⟨node, key⟩, slot, -⟩ := Option.map_eq_some_iff.mp here
    exact (effect.isLocal node key slot).alike alike plain plain'
  · exact alike

/-- The same effect on drafts that are alike. -/
theorem alike_apply (effect : Effect) (alike : draft.Alike other) (lawful : draft.Lawful)
    (lawful' : other.Lawful) : (effect.apply draft).Alike (effect.apply other) where
  size := by rw [size_apply, size_apply, alike.size]
  parent id := by rw [parent?_apply, parent?_apply, alike.parent]
  nonNull id := by rw [nonNull_apply, nonNull_apply, alike.nonNull]
  alive id := by
    rw [alive_apply effect lawful.rooted, alive_apply effect lawful'.rooted, alike.alive,
      kills_congr alike.parent]
  null := by rw [dataIsNull_apply, dataIsNull_apply, alike.null]
  content := by
    intro id content content' alive here here'
    rw [content?_apply] at here here'
    obtain ⟨before, found, rfl⟩ := Option.map_eq_some_iff.mp here
    obtain ⟨before', found', rfl⟩ := Option.map_eq_some_iff.mp here'
    have lived := ((alive_apply effect lawful.rooted id).mp alive).1
    exact effect.alike_changeAt id (alike.content id before before' lived found found')
      (lawful.plain id before found) (lawful'.plain id before' found')

/-! ### Two effects -/

/-- Two effects that both change a slot change it the same way. -/
def Agree (one two : Effect) : Prop :=
  ∀ slot, one.slot? = some slot → two.slot? = some slot → one.change = two.change

/-- Effects that agree on the slots of a content may come in either order. -/
theorem Agree.changeAt (agree : one.Agree two) (id : NodeId) {content : Content}
    (plain : content.Plain) :
    (two.changeAt id (one.changeAt id content)).Alike
      (one.changeAt id (two.changeAt id content)) := by
  unfold Effect.changeAt
  by_cases here : one.slot?.map (·.1) = some id
  · by_cases there : two.slot?.map (·.1) = some id
    · rw [if_pos here, if_pos there]
      obtain ⟨⟨node, key⟩, slot, rfl⟩ := Option.map_eq_some_iff.mp here
      obtain ⟨⟨node', key'⟩, slot', same⟩ := Option.map_eq_some_iff.mp there
      obtain rfl : node' = node := same
      by_cases keys : key = key'
      · subst keys
        rw [agree _ slot slot']
        exact .refl _
      · exact (one.isLocal _ key slot).commute (two.isLocal _ key' slot') keys plain
    · rw [if_neg there]
      exact .refl _
  · rw [if_neg here]
    exact .refl _

/-- Effects that agree may come in either order. -/
theorem Agree.commute (agree : one.Agree two) (lawful : draft.Lawful) :
    (two.apply (one.apply draft)).Alike (one.apply (two.apply draft)) where
  size := by simp
  parent id := by simp
  nonNull id := by simp
  alive id := by
    rw [alive_apply one (two.rooted_apply lawful.rooted), alive_apply two lawful.rooted,
      alive_apply two (one.rooted_apply lawful.rooted), alive_apply one lawful.rooted,
      kills_congr (parent?_apply two draft), kills_congr (parent?_apply one draft)]
    constructor
    · exact fun ⟨⟨alive, spared⟩, spared'⟩ => ⟨⟨alive, spared'⟩, spared⟩
    · exact fun ⟨⟨alive, spared⟩, spared'⟩ => ⟨⟨alive, spared'⟩, spared⟩
  null := by
    simp only [dataIsNull_apply]
    exact Bool.or_right_comm _ _ _
  content := by
    intro id content content' _ here here'
    simp only [content?_apply, Option.map_map] at here here'
    obtain ⟨before, found, rfl⟩ := Option.map_eq_some_iff.mp here
    obtain ⟨before', found', rfl⟩ := Option.map_eq_some_iff.mp here'
    rw [found] at found'
    injection found' with found'
    subst found'
    exact agree.changeAt id (lawful.plain id before found)

/-- An effect covers another one: what the other changes dies with it. -/
structure Covers (draft : Draft) (one two : Effect) : Prop where
  kills : ∀ id, two.Kills draft id → one.Kills draft id
  slot : ∀ id key, two.slot? = some (id, key) → one.Kills draft id
  all : two.top? = some root → one.top? = some root

/-- What has been covered is not seen. -/
theorem Covers.alike (covers : Covers draft one two) (lawful : draft.Lawful) :
    (one.apply draft).Alike (one.apply (two.apply draft)) where
  size := by simp
  parent id := by simp
  nonNull id := by simp
  alive id := by
    rw [alive_apply one (two.rooted_apply lawful.rooted), alive_apply two lawful.rooted,
      alive_apply one lawful.rooted, kills_congr (parent?_apply two draft)]
    constructor
    · exact fun ⟨⟨alive, _⟩, spared⟩ => ⟨alive, spared⟩
    · exact fun ⟨alive, spared⟩ => ⟨⟨alive, fun killed => spared (covers.kills id killed)⟩, spared⟩
  null := by
    simp only [dataIsNull_apply]
    cases whole : two.top? == some root with
    | false => rw [Bool.or_false]
    | true =>
        have first : one.top? == some root := by simpa using covers.all (by simpa using whole)
        simp [first]
  content := by
    intro id content content' alive here here'
    have spared := ((alive_apply one lawful.rooted id).mp alive).2
    have elsewhere : two.changeAt id = fun content => content := by
      refine if_neg fun there => ?_
      obtain ⟨⟨node, key⟩, slot, rfl⟩ := Option.map_eq_some_iff.mp there
      exact spared (covers.slot node key slot)
    simp only [content?_apply, elsewhere, Option.map_map] at here here'
    obtain rfl : content = content' := by
      have same : some content = some content' := here.symm.trans here'
      exact Option.some.inj same
    exact .refl content

end Effect

end Draft

end GraphExec
