import GraphExec.Proofs.Draft.Fixed

/-!
# What writing a draft keeps

A draft may be written in any order, and one slot more than once. Whatever is written, nothing lives
below a dead node, a live node refers to live nodes only, and a node is referred to only from the
slot that it was allocated at. This is less than what holds of a draft whose slots are written once,
and it is kept by every way of writing.
-/

namespace GraphExec

namespace Content

/-- No name of an object has two entries. -/
def Plain : Content → Prop
  | object entries _ => entries.keys.Nodup
  | list _ _ => True

theorem plain_emptyObject : emptyObject.Plain := List.nodup_nil

theorem plain_emptyList (size : Nat) : (emptyList size).Plain := trivial

theorem Plain.put {content : Content} (plain : content.Plain) (key : PathSegment) (entry : Entry) :
    (content.put key entry).Plain := by
  cases content <;> cases key
  · exact Fields.nodup_keys_insert plain
  · exact plain
  · trivial
  · trivial

theorem Plain.skip {content : Content} (plain : content.Plain) (key : PathSegment) :
    (content.skip key).Plain := by
  cases content <;> cases key
  · exact Fields.nodup_keys_erase plain
  · exact plain
  · trivial
  · trivial

theorem Plain.setKeys {content : Content} (plain : content.Plain) (keys : List String) :
    (content.setKeys keys).Plain := by
  cases content
  · exact plain
  · trivial

/-- What stands at a slot after a write was there before, or is what was written. -/
theorem held?_put_cases {content : Content} {key other : PathSegment} {entry found : Entry}
    (h : (content.put key entry).held? other = some found) :
    (other = key ∧ found = entry) ∨ content.held? other = some found := by
  by_cases same : other = key
  · subst same
    cases content with
    | object entries keys =>
        cases other with
        | field name =>
            simp only [put, held?, Fields.get?_insert, if_true] at h
            injection h with h
            exact .inl ⟨rfl, h.symm⟩
        | index n => exact .inr h
    | list items skipped =>
        cases other with
        | field name => exact .inr h
        | index n =>
            simp only [put, held?, List.getElem?_set] at h
            by_cases bound : n < items.length
            · simp only [if_true, bound, Option.join_some] at h
              injection h with h
              exact .inl ⟨rfl, h.symm⟩
            · simp [bound] at h
  · rw [held?_put_of_ne same] at h
    exact .inr h

/-- A slot that a finished value is written to holds no node, whether the key fits or not. -/
theorem held?_put_leaf_ne_node (content : Content) (key : PathSegment) (value : Value)
    (child : NodeId) : (content.put key (.leaf value)).held? key ≠ some (.node child) := by
  intro held
  cases content with
  | object entries keys =>
      cases key with
      | field name =>
          simp only [put, held?, Fields.get?_insert, if_true] at held
          injection held with held
          cases held
      | index n => cases held
  | list items skipped =>
      cases key with
      | field name => cases held
      | index n =>
          simp only [put, held?, List.getElem?_set, if_true] at held
          split at held
          · injection held with held
            cases held
          · cases held

/-- Leaving a slot out brings no entry. -/
theorem held?_of_skip {content : Content} (plain : content.Plain) {key other : PathSegment}
    {found : Entry} (h : (content.skip key).held? other = some found) :
    content.held? other = some found := by
  cases content with
  | object entries keys =>
      cases key with
      | field name =>
          cases other with
          | field name' =>
              simp only [skip, held?] at h ⊢
              exact Fields.get?_of_erase plain h
          | index n => exact h
      | index n => exact h
  | list items skipped =>
      cases key with
      | field name => exact h
      | index n => cases other <;> exact h

@[simp] theorem held?_setKeys (content : Content) (keys : List String) (key : PathSegment) :
    (content.setKeys keys).held? key = content.held? key := by
  cases content <;> cases key <;> rfl

end Content

namespace Draft

variable {draft : Draft}

theorem lt_size_of_parent? {id parent : Nat} {key : PathSegment}
    (up : draft.parent? id = some (parent, key)) : id < draft.nodes.size := by
  unfold parent? node? at up
  obtain ⟨node, found, -⟩ := Option.bind_eq_some_iff.mp up
  exact (Array.getElem?_eq_some_iff.mp found).1

/-! ### Depths -/

theorem depth_edit (draft : Draft) (id other : NodeId) (f : Content → Content) :
    (draft.edit id f).depth other = draft.depth other := by
  unfold edit depth
  rw [node?_modify]
  by_cases same : other = id
  · rw [if_pos same]
    cases draft.node? other <;> rfl
  · rw [if_neg same]

theorem depth_kill (draft : Draft) (top id : NodeId) :
    (draft.kill top).depth id = draft.depth id := by
  unfold depth
  rw [node?_kill]
  cases draft.node? id with
  | none => rfl
  | some node =>
      simp only [Option.map_some]
      split <;> rfl

theorem depth_allocate {parent : NodeId} {key : PathSegment} {content : Content}
    {value? : Option AppValue} {nonNull : Bool} (id : NodeId) :
    (draft.allocate parent key content value? nonNull).2.depth id =
      if id = draft.nodes.size then draft.depth parent + 1 else draft.depth id := by
  rw [allocate_eq, depth_edit]
  unfold depth
  rw [node?_push]
  by_cases new : id = draft.nodes.size
  · rw [if_pos new, if_pos new]
    rfl
  · rw [if_neg new, if_neg new]

/-! ### The invariant -/

/-- What holds of a draft however it has been written. -/
structure Lawful (draft : Draft) : Prop where
  rooted : draft.Rooted
  closed : draft.Closed
  entry : ∀ id key child, draft.held? id key = some (.node child) →
    draft.parent? child = some (id, key)
  lives : ∀ id key child, draft.Alive id → draft.held? id key = some (.node child) →
    draft.Alive child
  plain : ∀ id content, draft.content? id = some content → content.Plain
  depth : ∀ id parent key, draft.parent? id = some (parent, key) →
    draft.depth id = draft.depth parent + 1
  top : draft.depth root = 0
  null : draft.isDead root = draft.dataIsNull

theorem lawful_new (value : AppValue) : (Draft.new value).Lawful where
  rooted := rooted_new value
  closed id parent key _ up := by cases parent?_new.symm.trans up
  entry id key child held := by cases held?_new.symm.trans held
  lives id key child _ held := by cases held?_new.symm.trans held
  plain id content found := content?_new found ▸ Content.plain_emptyObject
  depth id parent key up := by cases parent?_new.symm.trans up
  top := rfl
  null := rfl

/-- A change of a content that brings no node but one that lives and was allocated there. -/
theorem Lawful.edit (lawful : draft.Lawful) {id : NodeId} {f : Content → Content}
    (plain : ∀ content, draft.content? id = some content → (f content).Plain)
    (nodes : ∀ content key child, draft.content? id = some content →
      (f content).held? key = some (.node child) →
      content.held? key = some (.node child) ∨
        (draft.parent? child = some (id, key) ∧ (draft.Alive id → draft.Alive child))) :
    (draft.edit id f).Lawful := by
  have before : ∀ other key child, (draft.edit id f).held? other key = some (.node child) →
      draft.held? other key = some (.node child) ∨
        (draft.parent? child = some (other, key) ∧ (draft.Alive other → draft.Alive child)) := by
    intro other key child held
    rw [held?_edit] at held
    by_cases here : other = id
    · subst here
      rw [if_pos rfl] at held
      obtain ⟨content, found, held⟩ := Option.bind_eq_some_iff.mp held
      rcases nodes content key child found held with old | new
      · exact .inl (by rw [held?, found]; exact old)
      · exact .inr new
    · rw [if_neg here] at held
      exact .inl held
  constructor
  case rooted =>
    exact lawful.rooted.edit id f
  case closed =>
    intro other parent key alive up
    rw [alive_edit] at alive ⊢
    rw [parent?_edit] at up
    exact lawful.closed other parent key alive up
  case entry =>
    intro other key child held
    rw [parent?_edit]
    rcases before other key child held with old | new
    · exact lawful.entry other key child old
    · exact new.1
  case lives =>
    intro other key child alive held
    rw [alive_edit] at alive ⊢
    rcases before other key child held with old | new
    · exact lawful.lives other key child alive old
    · exact new.2 alive
  case plain =>
    intro other content found
    rw [content?_edit] at found
    by_cases here : other = id
    · subst here
      rw [if_pos rfl] at found
      obtain ⟨old, was, rfl⟩ := Option.map_eq_some_iff.mp found
      exact plain old was
    · rw [if_neg here] at found
      exact lawful.plain other content found
  case depth =>
    intro other parent key up
    rw [parent?_edit] at up
    rw [depth_edit, depth_edit]
    exact lawful.depth other parent key up
  case top =>
    rw [depth_edit]
    exact lawful.top
  case null =>
    rw [isDead_edit, dataIsNull_edit]
    exact lawful.null

theorem Lawful.put_leaf (lawful : draft.Lawful) (id : NodeId) (key : PathSegment) (value : Value) :
    (draft.put id key (.leaf value)).Lawful := by
  rw [put_eq_edit]
  refine lawful.edit (fun content found => (lawful.plain id content found).put key _) ?_
  intro content other child _ held
  rcases Content.held?_put_cases held with ⟨-, same⟩ | old
  · cases same
  · exact .inl old

/-- A live node may be written again where it was allocated. -/
theorem Lawful.put_node (lawful : draft.Lawful) {id : NodeId} {key : PathSegment} {child : NodeId}
    (up : draft.parent? child = some (id, key)) (alive : draft.Alive id → draft.Alive child) :
    (draft.put id key (.node child)).Lawful := by
  rw [put_eq_edit]
  refine lawful.edit (fun content found => (lawful.plain id content found).put key _) ?_
  intro content other found _ held
  rcases Content.held?_put_cases held with ⟨rfl, same⟩ | old
  · injection same with same
    subst same
    exact .inr ⟨up, alive⟩
  · exact .inl old

theorem Lawful.skip (lawful : draft.Lawful) (id : NodeId) (key : PathSegment) :
    (draft.skip id key).Lawful := by
  cases dead : draft.isDead id with
  | true =>
      rw [Draft.skip, if_pos dead]
      exact lawful
  | false =>
      rw [skip_eq_edit dead]
      refine lawful.edit (fun content found => (lawful.plain id content found).skip key) ?_
      intro content other child found held
      exact .inl (Content.held?_of_skip (lawful.plain id content found) held)

theorem Lawful.setKeys (lawful : draft.Lawful) (id : NodeId) (keys : List String) :
    (draft.setKeys id keys).Lawful := by
  rw [setKeys_eq_edit]
  refine lawful.edit (fun content found => (lawful.plain id content found).setKeys keys) ?_
  intro content key child _ held
  rw [Content.held?_setKeys] at held
  exact .inl held

/-! ### Allocation -/

/-- What stands somewhere is the new node at its slot, or stood there before. -/
theorem held?_allocate_cases {parent : NodeId} (bound : parent < draft.nodes.size)
    {key : PathSegment} {content : Content} (blank : ∀ key, content.held? key = none)
    {value? : Option AppValue} {nonNull : Bool} {id child : NodeId} {other : PathSegment}
    (held : (draft.allocate parent key content value? nonNull).2.held? id other =
      some (.node child)) :
    (id = parent ∧ other = key ∧ child = draft.nodes.size) ∨
      (id < draft.nodes.size ∧ draft.held? id other = some (.node child)) := by
  obtain ⟨now, found, shown⟩ := Option.bind_eq_some_iff.mp held
  rcases content?_allocate_cases bound found with ⟨-, rfl⟩ | ⟨-, was, there, change⟩
  · rw [blank] at shown
    cases shown
  · obtain ⟨node, known, -⟩ := Option.map_eq_some_iff.mp there
    have inside := (Array.getElem?_eq_some_iff.mp known).1
    have stood (before : was.held? other = some (.node child)) :
        draft.held? id other = some (.node child) := by
      rw [held?, there]
      exact before
    rcases change with rfl | ⟨rfl, rfl⟩
    · exact .inr ⟨inside, stood shown⟩
    · rcases Content.held?_put_cases shown with ⟨slot, same⟩ | before
      · injection same with same
        exact .inl ⟨rfl, slot, same⟩
      · exact .inr ⟨inside, stood before⟩

theorem Lawful.allocate (lawful : draft.Lawful) {parent : NodeId} (bound : parent < draft.nodes.size)
    (key : PathSegment) {content : Content} (plain : content.Plain)
    (blank : ∀ key, content.held? key = none) (value? : Option AppValue) (nonNull : Bool) :
    (draft.allocate parent key content value? nonNull).2.Lawful := by
  have first : root < draft.nodes.size := Nat.lt_of_le_of_lt (Nat.zero_le _) bound
  constructor
  case rooted =>
    exact lawful.rooted.allocate bound
  case closed =>
    intro id up slot alive h
    unfold Alive at alive ⊢
    rcases parent?_allocate_cases h with ⟨rfl, rfl, rfl⟩ | ⟨-, before⟩
    · rwa [isDead_allocated, ← isDead_allocate_of_lt bound] at alive
    · rw [isDead_allocate_of_lt (lt_size_of_parent? before)] at alive
      have above := lawful.closed id up slot alive before
      rw [isDead_allocate_of_lt above.lt_size]
      exact above
  case entry =>
    intro id other child held
    rcases held?_allocate_cases bound blank held with ⟨rfl, rfl, rfl⟩ | ⟨-, before⟩
    · exact parent?_allocated
    · have up := lawful.entry id other child before
      rw [parent?_allocate, if_neg (Nat.ne_of_lt (lt_size_of_parent? up))]
      exact up
  case lives =>
    intro id other child alive held
    unfold Alive at alive ⊢
    rcases held?_allocate_cases bound blank held with ⟨rfl, rfl, rfl⟩ | ⟨inside, before⟩
    · rw [isDead_allocate_of_lt bound] at alive
      rw [isDead_allocated]
      exact alive
    · rw [isDead_allocate_of_lt inside] at alive
      have lives := lawful.lives id other child alive before
      rw [isDead_allocate_of_lt lives.lt_size]
      exact lives
  case plain =>
    intro id now found
    rcases content?_allocate_cases bound found with ⟨-, rfl⟩ | ⟨-, was, there, rfl | ⟨-, rfl⟩⟩
    · exact plain
    · exact lawful.plain id now there
    · exact (lawful.plain id was there).put key _
  case depth =>
    intro id up slot h
    rw [depth_allocate, depth_allocate]
    rcases parent?_allocate_cases h with ⟨rfl, rfl, rfl⟩ | ⟨new, before⟩
    · rw [if_pos rfl, if_neg (Nat.ne_of_lt bound)]
    · have less := lawful.rooted.above id up slot before
      have inside := lt_size_of_parent? before
      rw [if_neg new, if_neg (Nat.ne_of_lt (Nat.lt_trans less inside))]
      exact lawful.depth id up slot before
  case top =>
    rw [depth_allocate, if_neg (Nat.ne_of_lt first)]
    exact lawful.top
  case null =>
    rw [isDead_allocate_of_lt first, dataIsNull_allocate]
    exact lawful.null

/-! ### Nulls that replace nodes -/

/-- A null in the place of a node. -/
theorem Lawful.replace (lawful : draft.Lawful) {top parent : Nat} {key : PathSegment}
    (up : draft.parent? top = some (parent, key)) :
    ((draft.put parent key (.leaf .null)).kill top).Lawful := by
  have put := lawful.put_leaf parent key .null
  have helds : ∀ id other, ((draft.put parent key (.leaf .null)).kill top).held? id other =
      (draft.put parent key (.leaf .null)).held? id other := fun id other => by
    rw [held?, content?_kill, held?]
  -- The slot of the node itself holds no node any more.
  have elsewhere : ∀ id other child,
      (draft.put parent key (.leaf .null)).held? id other = some (.node child) → child ≠ top := by
    rintro id other child held rfl
    have same := put.entry id other child held
    rw [put_eq_edit, parent?_edit, up] at same
    injection same with same
    injection same with first second
    subst first second
    obtain ⟨content, found, held⟩ := Option.bind_eq_some_iff.mp held
    rw [put_eq_edit, content?_edit, if_pos rfl] at found
    obtain ⟨old, was, rfl⟩ := Option.map_eq_some_iff.mp found
    exact old.held?_put_leaf_ne_node key .null _ held
  constructor
  case rooted =>
    exact lawful.rooted.of_parent? (fun id => parent?_replace) (by rw [size_kill, size_put])
  case closed =>
    intro id above other alive step
    rw [parent?_replace] at step
    rw [alive_replace lawful.rooted] at alive ⊢
    exact ⟨lawful.closed id above other alive.1 step, fun below => alive.2 (.up step below)⟩
  case entry =>
    intro id other child held
    rw [helds] at held
    rw [parent?_kill]
    exact put.entry id other child held
  case lives =>
    intro id other child alive held
    rw [helds] at held
    rw [alive_replace lawful.rooted] at alive ⊢
    have lives := put.lives id other child ((alive_put _ _ _ _ _).mpr alive.1) held
    refine ⟨(alive_put _ _ _ _ _).mp lives, fun below => alive.2 ?_⟩
    have step := put.entry id other child held
    rw [put_eq_edit, parent?_edit] at step
    exact below.of_parent? (elsewhere id other child held) step
  case plain =>
    intro id content found
    rw [content?_kill] at found
    exact put.plain id content found
  case depth =>
    intro id above other step
    rw [parent?_kill] at step
    rw [depth_kill, depth_kill]
    exact put.depth id above other step
  case top =>
    rw [depth_kill]
    exact put.top
  case null =>
    rw [isDead_root_replace lawful.rooted up, lawful.null]
    rfl

theorem Lawful.nullData (lawful : draft.Lawful) : draft.nullData.Lawful := by
  have none_alive := not_alive_nullData lawful.rooted
  have contents : ∀ id, draft.nullData.content? id = draft.content? id :=
    fun id => content?_kill _ root id
  constructor
  case rooted =>
    exact lawful.rooted.of_parent? (fun id => parent?_kill _ root id) (size_kill _ root)
  case closed => exact fun id _ _ alive => absurd alive (none_alive id)
  case entry =>
    intro id key child held
    rw [held?, contents] at held
    exact (parent?_kill _ root child).trans (lawful.entry id key child held)
  case lives => exact fun id _ _ alive => absurd alive (none_alive id)
  case plain =>
    intro id content found
    rw [contents] at found
    exact lawful.plain id content found
  case depth =>
    intro id parent key up
    have up' : draft.parent? id = some (parent, key) :=
      (parent?_kill { draft with dataIsNull := true } root id).symm.trans up
    show (kill _ root).depth id = (kill _ root).depth parent + 1
    rw [depth_kill, depth_kill]
    exact lawful.depth id parent key up'
  case top => exact (depth_kill _ root root).trans lawful.top
  case null =>
    cases dead : draft.nullData.isDead root with
    | true => rfl
    | false => exact absurd dead (none_alive root)

theorem Lawful.replaceByNull (lawful : draft.Lawful) {id : NodeId} (alive : draft.Alive id) :
    (draft.replaceByNull id (draft.ancestors id)).Lawful := by
  obtain ⟨top, -, ⟨-, same⟩ | ⟨parent, key, up, -, same⟩⟩ :=
    replaceByNull_cases lawful.rooted lawful.closed id alive
  · exact same ▸ lawful.nullData
  · exact same ▸ lawful.replace up

/-! ### Depths and paths -/

/-- The depth of a node is the number of nodes above it. -/
theorem Lawful.depth_eq (lawful : draft.Lawful) (id : Nat) (bound : id < draft.nodes.size) :
    draft.depth id = (draft.ancestors id).length := by
  induction id using Nat.strongRecOn with
  | _ id ih =>
      rw [ancestors_eq lawful.rooted]
      cases up : draft.parent? id with
      | none =>
          obtain rfl := lawful.rooted.eq_root bound up
          exact lawful.top
      | some position =>
          obtain ⟨parent, key⟩ := position
          have less := lawful.rooted.above id parent key up
          simp only [List.length_cons]
          rw [lawful.depth id parent key up, ih parent less (Nat.lt_trans less bound)]

end Draft

end GraphExec
