import GraphExec.Proofs.Draft.Null

/-!
# Changes that keep a draft well formed

One lemma for each way in which a draft is written: a change of the content of a node that moves no
node, a node that is allocated, a null that replaces nodes.
-/

namespace GraphExec

namespace Draft

variable {draft : Draft}

theorem held?_edit (draft : Draft) (id other : NodeId) (f : Content → Content)
    (key : PathSegment) :
    (draft.edit id f).held? other key =
      if other = id then (draft.content? other).bind fun content => (f content).held? key
      else draft.held? other key := by
  unfold held?
  rw [content?_edit]
  split
  · cases draft.content? other <;> rfl
  · rfl

theorem Rooted.edit (rooted : draft.Rooted) (id : NodeId) (f : Content → Content) :
    (draft.edit id f).Rooted :=
  rooted.of_parent? (fun other => parent?_edit draft id other f) (size_edit draft id f)

/-- A change of a content that neither brings nor takes a node. -/
theorem Wf.edit (wf : draft.Wf) {id : NodeId} {content : Content} {f : Content → Content}
    (found : draft.content? id = some content) (neat : (f content).Neat)
    (nodes : ∀ key child, (f content).held? key = some (.node child) ↔
      content.held? key = some (.node child)) : (draft.edit id f).Wf := by
  have nodes_at : ∀ other key child, (draft.edit id f).held? other key = some (.node child) ↔
      draft.held? other key = some (.node child) := by
    intro other key child
    rw [held?_edit]
    by_cases same : other = id
    · subst same
      rw [if_pos rfl]
      simpa [held?, found] using nodes key child
    · rw [if_neg same]
  constructor
  case rooted => exact wf.rooted.edit id f
  case child =>
    intro other parent key alive up
    rw [alive_edit] at alive ⊢
    rw [parent?_edit] at up
    obtain ⟨above, entry⟩ := wf.child other parent key alive up
    exact ⟨above, (nodes_at parent key other).mpr entry⟩
  case entry =>
    intro parent key child alive entry
    rw [alive_edit] at alive ⊢
    rw [parent?_edit]
    exact wf.entry parent key child alive ((nodes_at parent key child).mp entry)
  case neat =>
    intro other changed alive same
    rw [alive_edit] at alive
    rw [content?_edit] at same
    by_cases here : other = id
    · subst here
      rw [if_pos rfl, found] at same
      injection same with same
      exact same ▸ neat
    · rw [if_neg here] at same
      exact wf.neat other changed alive same
  case null =>
    rw [isDead_edit, dataIsNull_edit]
    exact wf.null

theorem Wf.put_leaf (wf : draft.Wf) {id : NodeId} {content : Content} {key : PathSegment}
    (alive : draft.Alive id) (found : draft.content? id = some content)
    (vacant : content.Vacant key) (value : Value) : (draft.put id key (.leaf value)).Wf := by
  rw [put_eq_edit]
  refine wf.edit found ((wf.neat id content alive found).put vacant.1 vacant.2.2 _) ?_
  intro other child
  by_cases same : other = key
  · subst same
    simp [Content.held?_put_self vacant.1, vacant.2.1]
  · rw [Content.held?_put_of_ne same]

theorem Wf.skip (wf : draft.Wf) {id : NodeId} {content : Content} {key : PathSegment}
    (alive : draft.Alive id) (found : draft.content? id = some content)
    (vacant : content.Vacant key) : (draft.edit id fun content => content.skip key).Wf := by
  refine wf.edit found ((wf.neat id content alive found).skip vacant) ?_
  intro other child
  rw [Content.held?_skip vacant]

theorem Wf.setKeys (wf : draft.Wf) {id : NodeId} {keys : List String}
    (found : draft.content? id = some .emptyObject) (distinct : keys.Nodup) :
    (draft.setKeys id keys).Wf := by
  rw [setKeys_eq_edit]
  refine wf.edit found ⟨?_, ?_⟩ ?_
  · refine List.pairwise_map.mpr (distinct.imp ?_)
    intro a b differs h
    injection h with h
    exact differs h
  · intro key entry h
    cases key <;> cases h
  · intro key child
    have none_before : Content.emptyObject.held? key = none := by cases key <;> rfl
    have none_after : (Content.emptyObject.setKeys keys).held? key = none := by cases key <;> rfl
    simp [none_before, none_after]

/-! ### What there is at first -/

section

variable {value : AppValue} {id : Nat}

theorem node?_new {node : Node} (found : (new value).node? id = some node) :
    id = 0 ∧ node = ⟨.emptyObject, some value, none, true, false, 0⟩ := by
  cases id with
  | zero =>
      injection found with found
      exact ⟨rfl, found.symm⟩
  | succ n => simp [node?, new] at found

theorem parent?_new : (new value).parent? id = none := by
  unfold parent?
  cases found : (new value).node? id with
  | none => rfl
  | some node =>
      obtain ⟨-, rfl⟩ := node?_new found
      rfl

theorem content?_new {content : Content} (found : (new value).content? id = some content) :
    content = .emptyObject := by
  obtain ⟨node, here, rfl⟩ := Option.map_eq_some_iff.mp found
  rw [(node?_new here).2]

theorem held?_new {key : PathSegment} : (new value).held? id key = none := by
  unfold held?
  cases found : (new value).content? id with
  | none => rfl
  | some content =>
      rw [content?_new found]
      cases key <;> rfl

theorem rooted_new (value : AppValue) : (new value).Rooted where
  root := ⟨_, rfl, rfl⟩
  above id parent key up := by cases parent?_new.symm.trans up
  others id bound differs := absurd (Nat.lt_one_iff.mp bound) differs

theorem wf_new (value : AppValue) : (new value).Wf where
  rooted := rooted_new value
  child id parent key _ up := by cases parent?_new.symm.trans up
  entry parent key id _ stands := by cases held?_new.symm.trans stands
  neat id content _ found := content?_new found ▸ Content.neat_emptyObject
  null := rfl

end

/-! ### Allocation -/

theorem node?_push (draft : Draft) (node : Node) (id : NodeId) :
    ({ draft with nodes := draft.nodes.push node } : Draft).node? id =
      if id = draft.nodes.size then some node else draft.node? id := by
  simp [node?, Array.getElem?_push]

/-- The node that is allocated below another one. -/
def fresh (draft : Draft) (parent : NodeId) (key : PathSegment) (content : Content)
    (value? : Option AppValue) (nonNull : Bool) : Node :=
  { content, value?, parent? := some (parent, key), nonNull
    dead := draft.isDead parent, depth := draft.depth parent + 1 }

section

variable {parent : NodeId} {key : PathSegment} {content : Content} {value? : Option AppValue}
  {nonNull : Bool}

theorem allocate_eq :
    draft.allocate parent key content value? nonNull =
      (draft.nodes.size,
        ({ draft with
            nodes := draft.nodes.push (draft.fresh parent key content value? nonNull) } :
          Draft).edit parent fun content => content.put key (.node draft.nodes.size)) := rfl

theorem content?_allocate_of_lt (bound : parent < draft.nodes.size) (id : NodeId) :
    (draft.allocate parent key content value? nonNull).2.content? id =
      if id = draft.nodes.size then some content
      else if id = parent then
        (draft.content? id).map fun content => content.put key (.node draft.nodes.size)
      else draft.content? id := by
  have other : parent ≠ draft.nodes.size := Nat.ne_of_lt bound
  rw [allocate_eq]
  simp only [content?_edit]
  by_cases new : id = draft.nodes.size
  · have aside : id ≠ parent := fun h => other (h ▸ new)
    rw [if_neg aside, if_pos new]
    unfold content?
    rw [node?_push, if_pos new]
    rfl
  · rw [if_neg new]
    unfold content?
    rw [node?_push, if_neg new]

theorem content?_allocate (alive : draft.Alive parent) (id : NodeId) :
    (draft.allocate parent key content value? nonNull).2.content? id =
      if id = draft.nodes.size then some content
      else if id = parent then
        (draft.content? id).map fun content => content.put key (.node draft.nodes.size)
      else draft.content? id :=
  content?_allocate_of_lt alive.lt_size id

theorem parent?_allocate (id : NodeId) :
    (draft.allocate parent key content value? nonNull).2.parent? id =
      if id = draft.nodes.size then some (parent, key) else draft.parent? id := by
  rw [allocate_eq]
  simp only [parent?_edit]
  unfold parent?
  rw [node?_push]
  split <;> rfl

theorem parent?_allocated :
    (draft.allocate parent key content value? nonNull).2.parent? draft.nodes.size =
      some (parent, key) := (parent?_allocate _).trans (if_pos rfl)

/-- What stands below a node is new, or stood there. -/
theorem parent?_allocate_cases {id up : NodeId} {slot : PathSegment}
    (stands : (draft.allocate parent key content value? nonNull).2.parent? id = some (up, slot)) :
    (id = draft.nodes.size ∧ up = parent ∧ slot = key) ∨
      (id ≠ draft.nodes.size ∧ draft.parent? id = some (up, slot)) := by
  rw [parent?_allocate] at stands
  by_cases new : id = draft.nodes.size
  · rw [if_pos new] at stands
    cases stands
    exact .inl ⟨new, rfl, rfl⟩
  · rw [if_neg new] at stands
    exact .inr ⟨new, stands⟩

/-- What a node holds is new, or is what it held but for the new node. -/
theorem content?_allocate_cases (bound : parent < draft.nodes.size) {id : NodeId} {now : Content}
    (found : (draft.allocate parent key content value? nonNull).2.content? id = some now) :
    (id = draft.nodes.size ∧ now = content) ∨
      (id ≠ draft.nodes.size ∧ ∃ was, draft.content? id = some was ∧
        (now = was ∨ id = parent ∧ now = was.put key (.node draft.nodes.size))) := by
  rw [content?_allocate_of_lt bound] at found
  by_cases new : id = draft.nodes.size
  · rw [if_pos new] at found
    exact .inl ⟨new, (Option.some.inj found).symm⟩
  · rw [if_neg new] at found
    by_cases here : id = parent
    · rw [if_pos here] at found
      obtain ⟨was, there, rfl⟩ := Option.map_eq_some_iff.mp found
      exact .inr ⟨new, was, there, .inr ⟨here, rfl⟩⟩
    · rw [if_neg here] at found
      exact .inr ⟨new, now, found, .inl rfl⟩

theorem nonNull_allocate (id : NodeId) :
    (draft.allocate parent key content value? nonNull).2.nonNull id =
      if id = draft.nodes.size then nonNull else draft.nonNull id := by
  rw [allocate_eq]
  simp only [nonNull_edit]
  unfold Draft.nonNull
  rw [node?_push]
  split <;> rfl

theorem isDead_allocate (id : NodeId) :
    (draft.allocate parent key content value? nonNull).2.isDead id =
      if id = draft.nodes.size then draft.isDead parent else draft.isDead id := by
  rw [allocate_eq]
  simp only [isDead_edit]
  unfold isDead
  rw [node?_push]
  by_cases new : id = draft.nodes.size
  · simp only [if_pos new]
    rfl
  · simp only [if_neg new]

/-- A new node is as alive as the one that it stands below. -/
theorem isDead_allocated :
    (draft.allocate parent key content value? nonNull).2.isDead draft.nodes.size =
      draft.isDead parent := (isDead_allocate _).trans (if_pos rfl)

theorem isDead_allocate_of_lt {id : NodeId} (inside : id < draft.nodes.size) :
    (draft.allocate parent key content value? nonNull).2.isDead id = draft.isDead id :=
  (isDead_allocate _).trans (if_neg (Nat.ne_of_lt inside))

theorem alive_allocate (alive : draft.Alive parent) (id : NodeId) :
    (draft.allocate parent key content value? nonNull).2.Alive id ↔
      id = draft.nodes.size ∨ draft.Alive id := by
  unfold Alive at alive ⊢
  rw [isDead_allocate]
  by_cases new : id = draft.nodes.size
  · simp [new, alive]
  · simp [new]

@[simp] theorem size_allocate :
    (draft.allocate parent key content value? nonNull).2.nodes.size = draft.nodes.size + 1 := by
  rw [allocate_eq]
  simp

theorem dataIsNull_allocate :
    (draft.allocate parent key content value? nonNull).2.dataIsNull = draft.dataIsNull := rfl

theorem held?_allocate (alive : draft.Alive parent) {held : Content}
    (found : draft.content? parent = some held) (slot : key ∈ held.shape.slots)
    (blank : ∀ key, content.held? key = none) (id : NodeId) (other : PathSegment) :
    (draft.allocate parent key content value? nonNull).2.held? id other =
      if id = draft.nodes.size then none
      else if id = parent ∧ other = key then some (.node draft.nodes.size)
      else draft.held? id other := by
  unfold held?
  rw [content?_allocate alive]
  by_cases new : id = draft.nodes.size
  · simp [new, blank]
  · by_cases here : id = parent
    · subst here
      simp only [new, if_false, if_true, found, Option.map_some, Option.bind_some, true_and]
      by_cases same : other = key
      · simp [same, Content.held?_put_self slot]
      · simp [same, Content.held?_put_of_ne same]
    · simp [new, here]

/-- A tree to which a node is added is a tree. -/
theorem Rooted.allocate (rooted : draft.Rooted) (bound : parent < draft.nodes.size) :
    (draft.allocate parent key content value? nonNull).2.Rooted := by
  constructor
  · obtain ⟨node, here, top⟩ := rooted.root
    have first : (0 : Nat) < draft.nodes.size := (Array.getElem?_eq_some_iff.mp here).1
    have none_above : (draft.allocate parent key content value? nonNull).2.parent? 0 = none := by
      rw [parent?_allocate, if_neg (Nat.ne_of_lt first)]
      simp [parent?, here, top]
    have inside : 0 < (draft.allocate parent key content value? nonNull).2.nodes.size := by
      rw [size_allocate]
      omega
    refine ⟨_, Array.getElem?_eq_getElem inside, ?_⟩
    simpa [parent?, node?, Array.getElem?_eq_getElem inside] using none_above
  · intro id up slot h
    rcases parent?_allocate_cases h with ⟨rfl, rfl, rfl⟩ | ⟨-, before⟩
    · exact bound
    · exact rooted.above id up slot before
  · intro id inside differs
    rw [parent?_allocate]
    by_cases new : id = draft.nodes.size
    · exact ⟨parent, key, if_pos new⟩
    · rw [if_neg new]
      rw [size_allocate] at inside
      exact rooted.others id (by omega) differs

end

theorem Wf.allocate (wf : draft.Wf) {parent : NodeId} {key : PathSegment} {held content : Content}
    (alive : draft.Alive parent) (found : draft.content? parent = some held)
    (vacant : held.Vacant key) (neat : content.Neat) (blank : ∀ key, content.held? key = none)
    (value? : Option AppValue) (nonNull : Bool) :
    (draft.allocate parent key content value? nonNull).2.Wf := by
  have bound := alive.lt_size
  have entry := @held?_allocate draft parent key content value? nonNull alive held found vacant.1
    blank
  constructor
  case rooted => exact wf.rooted.allocate bound
  case child =>
    intro id up slot h step
    rw [entry]
    rcases parent?_allocate_cases step with ⟨rfl, rfl, rfl⟩ | ⟨new, step⟩
    · rw [alive_allocate alive, if_neg (Nat.ne_of_lt bound), if_pos ⟨rfl, rfl⟩]
      exact ⟨.inr alive, rfl⟩
    · -- The slot was vacant, so no node that was there before stands at it.
      have was_alive := ((alive_allocate alive id).mp h).resolve_left new
      obtain ⟨above, stands⟩ := wf.child id up slot was_alive step
      have older : up ≠ draft.nodes.size := Nat.ne_of_lt above.lt_size
      have elsewhere : ¬ (up = parent ∧ slot = key) := by
        rintro ⟨rfl, rfl⟩
        simp [held?, found, vacant.2.1] at stands
      rw [alive_allocate alive, if_neg older, if_neg elsewhere]
      exact ⟨.inr above, stands⟩
  case entry =>
    intro up slot id h stands
    rw [entry] at stands
    rw [parent?_allocate, alive_allocate alive]
    by_cases new : up = draft.nodes.size
    · rw [if_pos new] at stands
      cases stands
    · rw [if_neg new] at stands
      by_cases here : up = parent ∧ slot = key
      · rw [if_pos here] at stands
        injection stands with stands
        injection stands with stands
        subst stands
        exact ⟨.inl rfl, by rw [if_pos rfl, here.1, here.2]⟩
      · rw [if_neg here] at stands
        have was_alive := ((alive_allocate alive up).mp h).resolve_left new
        obtain ⟨child_alive, step⟩ := wf.entry up slot id was_alive stands
        rw [if_neg (Nat.ne_of_lt child_alive.lt_size)]
        exact ⟨.inr child_alive, step⟩
  case neat =>
    intro id now h same
    rcases content?_allocate_cases bound same with ⟨-, rfl⟩ | ⟨new, was, there, rfl | ⟨rfl, rfl⟩⟩
    · exact neat
    · exact wf.neat id now (((alive_allocate alive id).mp h).resolve_left new) there
    · obtain rfl := Option.some.inj (found.symm.trans there)
      exact (wf.neat id held alive found).put vacant.1 vacant.2.2 _
  case null =>
    obtain ⟨node, here, -⟩ := wf.rooted.root
    have first : root ≠ draft.nodes.size :=
      Nat.ne_of_lt (Array.getElem?_eq_some_iff.mp here).1
    rw [isDead_allocate, if_neg first, dataIsNull_allocate]
    exact wf.null

/-! ### Nulls that replace nodes -/

theorem alive_kill_of_edit (rooted : draft.Rooted) (id : NodeId) (f : Content → Content)
    (top other : NodeId) :
    ((draft.edit id f).kill top).Alive other ↔ draft.Alive other ∧ ¬ draft.Below top other := by
  rw [alive_kill, alive_edit, ← Bool.not_eq_true, isWithin_iff (rooted.edit id f),
    below_congr fun x => parent?_edit draft id x f]

theorem Rooted.parent?_root (rooted : draft.Rooted) : draft.parent? Draft.root = none := by
  obtain ⟨node, here, top⟩ := rooted.root
  unfold parent?
  rw [show draft.node? Draft.root = some node from here]
  exact top

/-- No node that has a parent is above the root. -/
theorem Rooted.not_below_root (rooted : draft.Rooted) {top : Nat} {up : NodeId × PathSegment}
    (above : draft.parent? top = some up) : ¬ draft.Below top Draft.root := by
  intro below
  cases below with
  | refl => cases rooted.parent?_root.symm.trans above
  | up step _ => cases rooted.parent?_root.symm.trans step

section
variable {top parent id : NodeId} {key : PathSegment} {entry : Entry}

/-- When something takes the place of a node, the node dies with all that is below it. -/
theorem alive_replace (rooted : draft.Rooted) :
    ((draft.put parent key entry).kill top).Alive id ↔ draft.Alive id ∧ ¬ draft.Below top id :=
  alive_kill_of_edit rooted parent (fun c => c.put key entry) top id

theorem parent?_replace :
    ((draft.put parent key entry).kill top).parent? id = draft.parent? id := by
  rw [parent?_kill, put_eq_edit, parent?_edit]

theorem content?_replace :
    ((draft.put parent key entry).kill top).content? id =
      if id = parent then (draft.content? id).map fun c => c.put key entry
      else draft.content? id := by
  rw [content?_kill, put_eq_edit, content?_edit]

theorem isDead_root_replace (rooted : draft.Rooted) {up : NodeId × PathSegment}
    (above : draft.parent? top = some up) :
    ((draft.put parent key entry).kill top).isDead root = draft.isDead root := by
  have same : ((draft.put parent key entry).kill top).Alive root ↔ draft.Alive root :=
    (alive_replace rooted).trans
      ⟨And.left, fun alive => ⟨alive, rooted.not_below_root above⟩⟩
  exact Bool.eq_iff_iff.mpr (by simpa [Alive] using not_congr same)

/-- A node that is alive stands at a slot of a node that is alive. -/
theorem Wf.slot_of_parent? (wf : draft.Wf) (alive : draft.Alive top)
    (up : draft.parent? top = some (parent, key)) :
    draft.Alive parent ∧ ∃ content, draft.content? parent = some content ∧
      content.held? key = some (.node top) ∧ key ∈ content.shape.slots ∧ ¬ content.Skips key := by
  obtain ⟨alive_parent, stands⟩ := wf.child top parent key alive up
  obtain ⟨content, found⟩ := alive_parent.content
  have held : content.held? key = some (.node top) := by simpa [held?, found] using stands
  exact ⟨alive_parent, content, found, held,
    (wf.neat parent content alive_parent found).within key _ held⟩

end

/-- A null in the place of a node. -/
theorem Wf.replace (wf : draft.Wf) {top parent : Nat} {key : PathSegment}
    (alive : draft.Alive top) (up : draft.parent? top = some (parent, key)) :
    ((draft.put parent key (.leaf .null)).kill top).Wf := by
  obtain ⟨alive_parent, content, found, stands, slot, kept⟩ := wf.slot_of_parent? alive up
  have entries : ∀ id other, ((draft.put parent key (.leaf .null)).kill top).held? id other =
      if id = parent ∧ other = key then some (.leaf .null) else draft.held? id other := by
    intro id other
    unfold held?
    rw [content?_replace]
    by_cases here : id = parent
    · subst here
      simp only [if_true, found, Option.map_some, Option.bind_some, true_and]
      by_cases same : other = key
      · rw [if_pos same, same, Content.held?_put_self slot]
      · rw [if_neg same, Content.held?_put_of_ne same]
    · simp [here]
  constructor
  case rooted =>
    refine wf.rooted.of_parent? (fun id => parent?_replace) ?_
    rw [size_kill, put_eq_edit, size_edit]
  case child =>
    intro id above other h step
    rw [parent?_replace] at step
    rw [alive_replace wf.rooted] at h ⊢
    obtain ⟨alive_above, entry⟩ := wf.child id above other h.1 step
    have elsewhere : ¬ (above = parent ∧ other = key) := by
      rintro ⟨rfl, rfl⟩
      rw [held?, found] at entry
      cases stands.symm.trans entry
      exact h.2 .refl
    rw [entries, if_neg elsewhere]
    exact ⟨⟨alive_above, fun below => h.2 (.up step below)⟩, entry⟩
  case entry =>
    intro above other id h entry
    rw [entries] at entry
    by_cases here : above = parent ∧ other = key
    · rw [if_pos here] at entry
      cases entry
    · rw [if_neg here] at entry
      rw [alive_replace wf.rooted] at h ⊢
      rw [parent?_replace]
      obtain ⟨alive_id, step⟩ := wf.entry above other id h.1 entry
      -- What is below the node that dies stands below what holds it, unless it is that node itself.
      refine ⟨⟨alive_id, fun below => h.2 (below.of_parent? ?_ step)⟩, step⟩
      rintro rfl
      obtain ⟨rfl, rfl⟩ := Prod.mk.inj (Option.some.inj (up.symm.trans step))
      exact here ⟨rfl, rfl⟩
  case neat =>
    intro id changed h same
    rw [alive_replace wf.rooted] at h
    rw [content?_replace] at same
    by_cases here : id = parent
    · subst here
      rw [if_pos rfl, found] at same
      injection same with same
      exact same ▸ (wf.neat id content alive_parent found).put slot kept _
    · rw [if_neg here] at same
      exact wf.neat id changed h.1 same
  case null =>
    rw [isDead_root_replace wf.rooted up, wf.null]
    rfl

/-- Every node stands below the root. -/
theorem below_root (rooted : draft.Rooted) (id : Nat) (bound : id < draft.nodes.size) :
    draft.Below root id := by
  induction id using Nat.strongRecOn with
  | _ id ih =>
      by_cases first : id = 0
      · exact first ▸ .refl
      · obtain ⟨parent, key, up⟩ := rooted.others id bound first
        have less := rooted.above id parent key up
        exact .up up (ih parent less (by omega))

/-- A null for the whole leaves nothing alive. -/
theorem not_alive_nullData (rooted : draft.Rooted) (id : NodeId) : ¬ draft.nullData.Alive id := by
  intro alive
  unfold nullData at alive
  have same : ∀ x, ({ draft with dataIsNull := true } : Draft).parent? x = draft.parent? x :=
    fun _ => rfl
  obtain ⟨was_alive, apart⟩ := (alive_kill _ root id).mp alive
  have within := (isWithin_iff (rooted.of_parent? same rfl) root id).mpr
    ((below_congr same).mpr (below_root rooted id was_alive.lt_size))
  rw [within] at apart
  cases apart

@[simp] theorem size_nullData (draft : Draft) : draft.nullData.nodes.size = draft.nodes.size :=
  size_kill _ root

theorem Wf.nullData (wf : draft.Wf) : draft.nullData.Wf := by
  have none_alive := not_alive_nullData wf.rooted
  constructor
  case rooted => exact wf.rooted.of_parent? (fun x => parent?_kill _ root x) (size_kill _ root)
  case child => exact fun id _ _ alive => absurd alive (none_alive id)
  case entry => exact fun id _ _ alive => absurd alive (none_alive id)
  case neat => exact fun id _ alive => absurd alive (none_alive id)
  case null =>
    cases dead : draft.nullData.isDead root with
    | true => rfl
    | false => exact absurd dead (none_alive root)

end Draft

end GraphExec
