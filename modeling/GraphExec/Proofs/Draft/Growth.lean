import GraphExec.Proofs.Draft.Shows

/-!
# What stays of a draft

A node keeps its parent and what it is made from, whatever becomes of it. A node that a task is to
fill lives as long as its parent: it could only be replaced by a null from below, and nothing is
below it yet.
-/

namespace GraphExec

namespace Draft

variable {draft before middle after : Draft}

/-- What an object is made from. -/
def value? (draft : Draft) (id : NodeId) : Option AppValue :=
  (draft.node? id).bind (·.value?)

/-- Nodes are added, and stay where they are. -/
structure Grows (before after : Draft) : Prop where
  size : before.nodes.size ≤ after.nodes.size
  parent : ∀ id : Nat, id < before.nodes.size → after.parent? id = before.parent? id
  value : ∀ id : Nat, id < before.nodes.size → after.value? id = before.value? id

theorem Grows.refl (draft : Draft) : Grows draft draft :=
  ⟨Nat.le_refl _, fun _ _ => rfl, fun _ _ => rfl⟩

theorem Grows.trans (first : Grows before middle) (second : Grows middle after) :
    Grows before after := by
  refine ⟨Nat.le_trans first.size second.size, ?_, ?_⟩
  · intro id bound
    rw [second.parent id (Nat.lt_of_lt_of_le bound first.size), first.parent id bound]
  · intro id bound
    rw [second.value id (Nat.lt_of_lt_of_le bound first.size), first.value id bound]

theorem value?_edit (draft : Draft) (id other : NodeId) (f : Content → Content) :
    (draft.edit id f).value? other = draft.value? other := by
  unfold edit value?
  rw [node?_modify]
  split
  · cases draft.node? other <;> rfl
  · rfl

theorem value?_kill (draft : Draft) (top id : NodeId) :
    (draft.kill top).value? id = draft.value? id := by
  unfold value?
  rw [node?_kill]
  cases draft.node? id with
  | none => rfl
  | some node => simp only [Option.map_some, Option.bind_some]; split <;> rfl

theorem grows_edit (draft : Draft) (id : NodeId) (f : Content → Content) :
    Grows draft (draft.edit id f) :=
  ⟨Nat.le_of_eq (size_edit _ _ _).symm, fun _ _ => parent?_edit _ _ _ _,
    fun other _ => value?_edit draft id other f⟩

theorem grows_kill (draft : Draft) (top : NodeId) : Grows draft (draft.kill top) :=
  ⟨Nat.le_of_eq (size_kill _ _).symm, fun _ _ => parent?_kill _ _ _,
    fun id _ => value?_kill draft top id⟩

theorem grows_flag (draft : Draft) : Grows draft { draft with dataIsNull := true } :=
  ⟨Nat.le_refl _, fun _ _ => rfl, fun _ _ => rfl⟩

theorem grows_nullData (draft : Draft) (id : NodeId) :
    Grows draft ({ draft with dataIsNull := true }.kill id) :=
  (grows_flag draft).trans (grows_kill _ id)

theorem grows_put (draft : Draft) (id : NodeId) (key : PathSegment) (entry : Entry) :
    Grows draft (draft.put id key entry) :=
  grows_edit draft id fun content => content.put key entry

theorem grows_setLeaf (draft : Draft) (id : NodeId) (key : PathSegment) (value : Value)
    (nonNull : Bool) : Grows draft (draft.setLeaf id key value nonNull) :=
  setEntry_keeps (.refl draft) (grows_flag draft) (grows_put draft)
    (fun _ id grows => grows.trans (grows_kill _ id)) id key (.leaf value) nonNull

theorem grows_skip (draft : Draft) (id : NodeId) (key : PathSegment) :
    Grows draft (draft.skip id key) := by
  unfold skip
  split
  · exact .refl draft
  · exact grows_edit draft id fun content => content.skip key

theorem grows_setKeys (draft : Draft) (id : NodeId) (keys : List String) :
    Grows draft (draft.setKeys id keys) :=
  grows_edit draft id fun content => content.setKeys keys

theorem grows_allocate (draft : Draft) (parent : NodeId) (key : PathSegment) (content : Content)
    (value? : Option AppValue) (nonNull : Bool) :
    Grows draft (draft.allocate parent key content value? nonNull).2 := by
  refine ⟨?_, ?_, ?_⟩
  · rw [size_allocate]
    exact Nat.le_succ _
  · intro id bound
    rw [parent?_allocate, if_neg (Nat.ne_of_lt bound)]
  · intro id bound
    rw [allocate_eq]
    refine ((grows_edit _ parent _).value id ?_).trans ?_
    · rw [Array.size_push]
      exact Nat.lt_succ_of_lt bound
    · unfold Draft.value?
      rw [node?_push, if_neg (Nat.ne_of_lt bound)]

theorem value?_allocate (draft : Draft) (parent : NodeId) (key : PathSegment) (content : Content)
    (value? : Option AppValue) (nonNull : Bool) :
    (draft.allocate parent key content value? nonNull).2.value? draft.nodes.size = value? := by
  rw [allocate_eq]
  refine ((grows_edit _ parent _).value _ ?_).trans ?_
  · rw [Array.size_push]
    exact Nat.lt_succ_self _
  · unfold Draft.value?
    rw [node?_push, if_pos rfl]
    rfl

/-! ### Where a node is -/

/-- The value of the nearest object at or above a node. -/
def owner? (draft : Draft) (id : NodeId) : Option AppValue :=
  (draft.value? id).or (draft.parentValue? id)

theorem path_eq (rooted : draft.Rooted) {id parent : NodeId} {key : PathSegment}
    (up : draft.parent? id = some (parent, key)) : draft.path id = draft.pathTo parent key := by
  unfold pathTo path
  rw [ancestors_eq rooted id, up]
  simp

theorem parentValue?_eq (rooted : draft.Rooted) {id parent : NodeId} {key : PathSegment}
    (up : draft.parent? id = some (parent, key)) :
    draft.parentValue? id = draft.owner? parent := by
  unfold owner? parentValue?
  rw [ancestors_eq rooted id, up]
  simp only [List.findSome?_cons, value?]
  cases (draft.node? parent).bind (·.value?) <;> simp

theorem Rooted.path_root (rooted : draft.Rooted) : draft.path Draft.root = [] := by
  unfold path
  rw [ancestors_eq rooted, rooted.parent?_root]
  rfl

theorem Rooted.parentValue?_root (rooted : draft.Rooted) :
    draft.parentValue? Draft.root = none := by
  unfold parentValue?
  rw [ancestors_eq rooted, rooted.parent?_root]
  rfl

/-- A node keeps its ancestors. -/
theorem Grows.ancestors (grows : Grows before after) (rooted : before.Rooted)
    (rooted' : after.Rooted) (id : Nat) (bound : id < before.nodes.size) :
    after.ancestors id = before.ancestors id := by
  induction id using Nat.strongRecOn with
  | _ id ih =>
      rw [ancestors_eq rooted, ancestors_eq rooted', grows.parent id bound]
      cases up : before.parent? id with
      | none => rfl
      | some above =>
          obtain ⟨parent, key⟩ := above
          have less := rooted.above id parent key up
          simp only
          rw [ih parent less (Nat.lt_trans less bound)]

/-- A node keeps its path. -/
theorem Grows.path (grows : Grows before after) (rooted : before.Rooted) (rooted' : after.Rooted)
    (id : Nat) (bound : id < before.nodes.size) : after.path id = before.path id := by
  unfold Draft.path
  rw [grows.ancestors rooted rooted' id bound]

/-- What is above a node stays what it is. -/
theorem Grows.parentValue? (grows : Grows before after) (rooted : before.Rooted)
    (rooted' : after.Rooted) (id : Nat) (bound : id < before.nodes.size) :
    after.parentValue? id = before.parentValue? id := by
  induction id using Nat.strongRecOn with
  | _ id ih =>
      have kept := grows.parent id bound
      cases up : before.parent? id with
      | none =>
          rw [up] at kept
          unfold Draft.parentValue?
          rw [ancestors_eq rooted, ancestors_eq rooted', up, kept]
          rfl
      | some above =>
          obtain ⟨parent, key⟩ := above
          have less : (parent : Nat) < id := rooted.above id parent key up
          have within := Nat.lt_trans less bound
          rw [parentValue?_eq rooted up, parentValue?_eq rooted' (kept.trans up)]
          unfold owner?
          rw [ih parent less within, grows.value parent within]

/-- A node is alive if its parent is. -/
def Upheld (draft : Draft) (id : NodeId) : Prop :=
  (∀ parent key, draft.parent? id = some (parent, key) → draft.Alive parent) → draft.Alive id

end Draft

namespace Plan

variable {T : Type} {spot : T → Spot} {comes : T → Verdict → Prop}

theorem Move.grows {before after : Plan T} (move : Move spot comes before after) :
    before.draft.Grows after.draft := by
  cases move with
  | sort _ => exact .refl _
  | pass _ _ => exact .refl _
  | lose _ => exact .refl _
  | write _ _ => exact Draft.grows_setLeaf _ _ _ _ _
  | leaveOut _ _ => exact Draft.grows_skip _ _ _
  | openList _ _ _ _ => exact Draft.grows_allocate _ _ _ _ _ _
  | openObject _ _ _ _ => exact Draft.grows_allocate _ _ _ _ _ _
  | fill _ _ _ _ _ => exact Draft.grows_setKeys _ _ _
  | nullRoot _ _ => exact Draft.grows_nullData _ _

/-! ### Nodes that are to be filled -/

/-- The nodes that tasks are to fill live as long as their parents. -/
def Anchored (spot : T → Spot) (plan : Plan T) : Prop :=
  ∀ task ∈ plan.tasks, ∀ id, spot task = .node id → Draft.Upheld plan.draft id

variable {draft after : Draft} {task : T} {rest : List T} {id : NodeId} {key : PathSegment}

theorem Anchored.tail (anchored : Anchored spot ⟨draft, task :: rest⟩) :
    Anchored spot ⟨draft, rest⟩ :=
  fun t mem => anchored t (List.mem_cons_of_mem _ mem)

theorem Anchored.root_alive {tasks : List T} (anchored : Anchored spot ⟨draft, tasks⟩)
    (tidy : Tidy spot ⟨draft, tasks⟩) {task : T} (mem : task ∈ tasks)
    (there : spot task = .node Draft.root) : draft.Alive Draft.root := by
  refine anchored task mem Draft.root there fun parent key up => ?_
  exact absurd (tidy.wf_draft.rooted.above Draft.root parent key up) (Nat.not_lt_zero _)

/-- A change that no node dies of. -/
theorem Anchored.change {tasks : List T} (anchored : Anchored spot ⟨draft, tasks⟩)
    (tidy : Tidy spot ⟨draft, tasks⟩) (grows : draft.Grows after)
    (alive : ∀ id : Nat, id < draft.nodes.size → (after.Alive id ↔ draft.Alive id)) :
    Anchored spot ⟨after, tasks⟩ := by
  intro t mem id there above
  have bound : id < draft.nodes.size := by
    have known := tidy.known t mem
    rwa [there] at known
  rw [alive id bound]
  refine anchored t mem id there fun parent key up => ?_
  have less : (parent : Nat) < id := tidy.wf_draft.rooted.above id parent key up
  refine (alive parent (Nat.lt_trans less bound)).mp (above parent key ?_)
  rw [grows.parent id bound]
  exact up

theorem Anchored.allocate {tasks : List T} (anchored : Anchored spot ⟨draft, tasks⟩)
    (tidy : Tidy spot ⟨draft, tasks⟩) (alive : draft.Alive id) {content : Content}
    {value? : Option AppValue} {nonNull : Bool} :
    Anchored spot ⟨(draft.allocate id key content value? nonNull).2, tasks⟩ := by
  refine anchored.change tidy (Draft.grows_allocate _ _ _ _ _ _) fun other bound => ?_
  rw [Draft.alive_allocate alive]
  exact or_iff_right (Nat.ne_of_lt bound)

/-- When all is null, no node is to be filled whose parent is alive. -/
theorem Tidy.anchored_nullData {tasks : List T}
    (tidy : Tidy spot ⟨draft, tasks⟩) (no_root : ∀ t ∈ tasks, spot t ≠ .node Draft.root) :
    Anchored spot ⟨draft.nullData, tasks⟩ := by
  intro t mem id there above
  have bound : id < draft.nodes.size := by
    have known := tidy.known t mem
    rwa [there] at known
  cases up : draft.parent? id with
  | none =>
      have first := tidy.wf_draft.rooted.eq_root bound up
      exact absurd (first ▸ there) (no_root t mem)
  | some position =>
      obtain ⟨parent, key⟩ := position
      have alive := above parent key (((Draft.grows_nullData _ _).parent id bound).trans up)
      exact absurd alive (Draft.not_alive_nullData tidy.wf_draft.rooted parent)

/-- An empty node has no node below it, and no task at a slot. -/
theorem Tidy.not_below {tasks : List T} (tidy : Tidy spot ⟨draft, tasks⟩) {top : NodeId}
    (empty : draft.content? top = some .emptyObject) (below : draft.Below top id)
    (alive : draft.Alive id) : id = top := by
  induction below with
  | refl => rfl
  | @up id parent key step below ih =>
      obtain ⟨alive_parent, stands⟩ := tidy.wf_draft.child id parent key alive step
      obtain rfl := ih alive_parent
      rw [Draft.held?, empty] at stands
      cases key <;> cases stands

theorem Anchored.replaceByNull (anchored : Anchored spot ⟨draft, task :: rest⟩)
    (tidy : Tidy spot ⟨draft, task :: rest⟩) (here : spot task = .slot id key)
    (alive : draft.Alive id) :
    Anchored spot ⟨draft.replaceByNull id (draft.ancestors id), rest⟩ := by
  have wf := tidy.wf_draft
  -- The node of a task that is alive is not above the slot that the null rises from.
  have aside : ∀ t ∈ rest, ∀ node, spot t = .node node → draft.Alive node →
      ¬ draft.Below node id := by
    intro t mem node there alive_node below
    have empty := tidy.free t (List.mem_cons_of_mem _ mem) (there ▸ alive_node)
    rw [there] at empty
    obtain rfl := tidy.not_below empty below alive
    obtain ⟨content, found, slot, -⟩ := tidy.vacant here alive
    rw [show draft.content? id = some .emptyObject from empty] at found
    injection found with found
    subst found
    cases slot
  obtain ⟨top, rises, ⟨is_root, same⟩ | ⟨parent, slot, up, -, same⟩⟩ :=
    Draft.replaceByNull_eq wf id alive
  · subst is_root
    rw [same]
    refine tidy.tail.anchored_nullData fun t mem there => ?_
    exact aside t mem Draft.root there (anchored.tail.root_alive tidy.tail mem there)
      rises.stands_below
  · rw [same]
    intro t mem node there above
    have grows : draft.Grows ((draft.put parent slot (.leaf .null)).kill top) :=
      (Draft.grows_put _ _ _ _).trans (Draft.grows_kill _ _)
    have bound : node < draft.nodes.size := by
      have known := tidy.known t (List.mem_cons_of_mem _ mem)
      rwa [there] at known
    have lives : ∀ x, ((draft.put parent slot (.leaf .null)).kill top).Alive x ↔
        draft.Alive x ∧ ¬ draft.Below top x := fun x => Draft.alive_replace wf.rooted
    have was_alive : draft.Alive node := by
      refine anchored t (List.mem_cons_of_mem _ mem) node there fun p k is_up => ?_
      exact ((lives p).mp (above p k ((grows.parent node bound).trans is_up))).1
    refine (lives node).mpr ⟨was_alive, fun below => ?_⟩
    cases below with
    | refl => exact aside t mem top there was_alive rises.stands_below
    | up step below =>
        exact ((lives _).mp (above _ _ ((grows.parent node bound).trans step))).2 below

/-- Every move keeps the nodes of tasks upheld. -/
theorem Move.anchored {before after : Plan T} (move : Move spot comes before after)
    (tidy : Tidy spot before) (anchored : Anchored spot before) : Anchored spot after := by
  cases move with
  | sort same => exact fun t mem => anchored t (same.mem_iff.mpr mem)
  | pass same _ =>
      intro t mem id there
      rcases List.mem_cons.mp mem with rfl | mem
      · exact anchored _ List.mem_cons_self id (same ▸ there)
      · exact anchored t (List.mem_cons_of_mem _ mem) id there
  | lose _ => exact anchored.tail
  | @write draft task rest id key value nonNull here _ =>
      rcases draft.setLeaf_cases id key value nonNull with
        ⟨-, same⟩ | ⟨alive, -, same⟩ | ⟨-, -, same⟩ <;> rw [same]
      · exact anchored.tail
      · exact anchored.replaceByNull tidy here alive
      · exact anchored.tail.change tidy.tail (Draft.grows_put _ _ _ _)
          fun _ _ => Draft.alive_put _ _ _ _ _
  | @leaveOut draft task rest id key here _ =>
      cases dead : draft.isDead id with
      | true =>
          have same : draft.skip id key = draft := if_pos dead
          rw [same]
          exact anchored.tail
      | false =>
          refine anchored.tail.change tidy.tail (Draft.grows_skip _ _ _) fun _ _ => ?_
          rw [Draft.skip_eq_edit dead, Draft.alive_edit]
  | @openList draft task below rest id key size nonNull here alive slots _ =>
      intro t mem node there
      rcases List.mem_append.mp mem with mem | mem
      · have mem' : spot t ∈ below.map spot := List.mem_map_of_mem mem
        rw [slots, there] at mem'
        obtain ⟨slot, -, same⟩ := List.mem_map.mp mem'
        cases same
      · exact anchored.tail.allocate tidy.tail alive t mem node there
  | @openObject draft task other rest id key value nonNull here alive is_new _ =>
      intro t mem node there
      rcases List.mem_cons.mp mem with rfl | mem
      · rw [is_new] at there
        injection there with there
        intro _
        exact (Draft.alive_allocate alive node).mpr (.inl there.symm)
      · exact anchored.tail.allocate tidy.tail alive t mem node there
  | @fill draft task below rest id keys here alive _ slots _ =>
      intro t mem node there
      rcases List.mem_append.mp mem with mem | mem
      · have mem' : spot t ∈ below.map spot := List.mem_map_of_mem mem
        rw [slots, there] at mem'
        obtain ⟨slot, -, same⟩ := List.mem_map.mp mem'
        cases same
      · exact anchored.tail.change tidy.tail (Draft.grows_setKeys _ _ _)
          (fun _ _ => Draft.alive_setKeys _ _ _ _) t mem node there
  | @nullRoot draft task rest here _ =>
      refine tidy.tail.anchored_nullData fun t mem there => ?_
      have alive := anchored.tail.root_alive tidy.tail mem there
      exact tidy.differs (here ▸ alive) mem (there.trans here.symm)

theorem Reaches.anchored {first last : Plan T} (reaches : Reaches spot comes first last)
    (tidy : Tidy spot first) (anchored : Anchored spot first) : Anchored spot last := by
  induction reaches with
  | refl => exact anchored
  | step move _ ih => exact ih (move.tidy tidy) (move.anchored tidy anchored)

theorem Reaches.grows {first last : Plan T} (reaches : Reaches spot comes first last) :
    first.draft.Grows last.draft := by
  induction reaches with
  | refl => exact .refl _
  | step move _ ih => exact move.grows.trans ih

end Plan

end GraphExec
