import GraphExec.Proofs.Draft.Edits
import GraphExec.Proofs.Draft.Plan

/-!
# Moves keep plans tidy
-/

namespace GraphExec

namespace Plan

variable {T : Type} {spot : T → Spot} {comes : T → Verdict → Prop}

section

variable {draft : Draft} {id : NodeId} {key : PathSegment} {content : Content}

/-- A spot stays free when a node is changed, if its slot stays vacant there. -/
theorem Free.edit {s : Spot} (free : Free draft s) (found : draft.content? id = some content)
    (slot : key ∈ content.shape.slots) {f : Content → Content}
    (vacant : ∀ key', s = .slot id key' → content.Vacant key' → (f content).Vacant key') :
    Free (draft.edit id f) s := by
  cases s with
  | slot other key' =>
      obtain ⟨held, there, vacant'⟩ := free
      by_cases same : other = id
      · subst same
        rw [found] at there
        injection there with there
        subst there
        exact ⟨f content, by simp [Draft.content?_edit, found], vacant key' rfl vacant'⟩
      · exact ⟨held, by simp [Draft.content?_edit, same, there], vacant'⟩
  | node other =>
      have empty : draft.content? other = some .emptyObject := free
      have aside : other ≠ id := by
        rintro rfl
        rw [found] at empty
        injection empty with empty
        subst empty
        cases slot
      show (draft.edit id _).content? other = some .emptyObject
      rw [Draft.content?_edit, if_neg aside]
      exact empty

/-- A spot stays free when another slot is written. -/
theorem Free.put {s : Spot} (free : Free draft s) (differs : s ≠ .slot id key)
    (found : draft.content? id = some content) (slot : key ∈ content.shape.slots) (entry : Entry) :
    Free (draft.put id key entry) s := by
  rw [Draft.put_eq_edit]
  refine free.edit found slot fun key' here vacant => ?_
  have aside : key' ≠ key := fun same => differs (same ▸ here)
  refine ⟨by simpa using vacant.1, ?_, by simpa using vacant.2.2⟩
  rw [Content.held?_put_of_ne aside]
  exact vacant.2.1

theorem Free.skip {s : Spot} (free : Free draft s) (differs : s ≠ .slot id key)
    (found : draft.content? id = some content) (vacant : content.Vacant key) :
    Free (draft.edit id fun content => content.skip key) s := by
  refine free.edit found vacant.1 fun key' here open_there => ?_
  have aside : key' ≠ key := fun same => differs (same ▸ here)
  refine ⟨by simpa using open_there.1, ?_, fun skips => ?_⟩
  · rw [Content.held?_skip vacant]
    exact open_there.2.1
  · exact (Content.skips_skip skips).elim aside open_there.2.2

theorem Free.kill {s : Spot} (free : Free draft s) (top : NodeId) : Free (draft.kill top) s := by
  cases s with
  | slot other key' =>
      obtain ⟨held, there, vacant⟩ := free
      exact ⟨held, by rw [Draft.content?_kill]; exact there, vacant⟩
  | node other =>
      show (draft.kill top).content? other = some .emptyObject
      rw [Draft.content?_kill]
      exact free

end

namespace Tidy

variable {draft after : Draft} {task : T} {rest : List T}

theorem wf_draft {tasks : List T} (tidy : Tidy spot ⟨draft, tasks⟩) : draft.Wf :=
  tidy.wf

/-- The other tasks do not share the spot of a task at a live node. -/
theorem differs (tidy : Tidy spot ⟨draft, task :: rest⟩) (alive : draft.Alive (spot task).id)
    {other : T} (mem : other ∈ rest) : spot other ≠ spot task :=
  fun same => (List.pairwise_cons.mp tidy.apart).1 other mem alive same.symm

/-- The tasks that are left, under a change that respects their spots. -/
theorem change (tidy : Tidy spot ⟨draft, task :: rest⟩) (wf : after.Wf)
    (fewer : ∀ t ∈ rest, after.Alive (spot t).id → draft.Alive (spot t).id)
    (grown : draft.nodes.size ≤ after.nodes.size)
    (still : ∀ t ∈ rest, after.Alive (spot t).id → Free draft (spot t) → Free after (spot t)) :
    Tidy spot ⟨after, rest⟩ := by
  have apart := (List.pairwise_cons.mp tidy.apart).2
  constructor
  case wf => exact wf
  case apart =>
    refine List.Pairwise.imp_of_mem ?_ apart
    intro a b mem _ h alive
    exact h (fewer a mem alive)
  case free =>
    intro t mem alive
    exact still t mem alive (tidy.free t (List.mem_cons_of_mem _ mem) (fewer t mem alive))
  case known =>
    intro t mem
    exact Nat.lt_of_lt_of_le (tidy.known t (List.mem_cons_of_mem _ mem)) grown

theorem tail (tidy : Tidy spot ⟨draft, task :: rest⟩) : Tidy spot ⟨draft, rest⟩ :=
  tidy.change tidy.wf_draft (fun _ _ h => h) (Nat.le_refl _) fun _ _ _ h => h

/-- Tasks join others, at spots of their own. -/
theorem join {below : List T} (tidy : Tidy spot ⟨draft, rest⟩)
    (apart : (below.map spot).Nodup) (free : ∀ t ∈ below, Free draft (spot t))
    (known : ∀ t ∈ below, (spot t).id < draft.nodes.size)
    (aside : ∀ t ∈ below, ∀ other ∈ rest, draft.Alive (spot t).id → spot t ≠ spot other) :
    Tidy spot ⟨draft, below ++ rest⟩ := by
  constructor
  case wf => exact tidy.wf
  case apart =>
    rw [List.pairwise_append]
    refine ⟨?_, tidy.apart, aside⟩
    refine List.Pairwise.imp ?_ (List.pairwise_map.mp apart)
    intro a b h _
    exact h
  case free =>
    intro t mem alive
    rcases List.mem_append.mp mem with mem | mem
    · exact free t mem
    · exact tidy.free t mem alive
  case known =>
    intro t mem
    rcases List.mem_append.mp mem with mem | mem
    · exact known t mem
    · exact tidy.known t mem

end Tidy

/-! ### The moves one by one -/

section

variable {draft : Draft} {task : T} {rest below : List T} {id : NodeId} {key : PathSegment}

theorem Tidy.sort {tasks others : List T} (same : tasks.Perm others)
    (tidy : Tidy spot ⟨draft, tasks⟩) : Tidy spot ⟨draft, others⟩ := by
  constructor
  case wf => exact tidy.wf
  case apart =>
    refine (List.Perm.pairwise_iff ?_ same).mp tidy.apart
    intro a b h alive equal
    exact h (equal ▸ alive) equal.symm
  case free => exact fun t mem => tidy.free t (same.mem_iff.mpr mem)
  case known => exact fun t mem => tidy.known t (same.mem_iff.mpr mem)

theorem Tidy.pass {other : T} (same : spot other = spot task)
    (tidy : Tidy spot ⟨draft, task :: rest⟩) : Tidy spot ⟨draft, other :: rest⟩ := by
  constructor
  case wf => exact tidy.wf
  case apart =>
    have apart := List.pairwise_cons.mp tidy.apart
    refine List.pairwise_cons.mpr ⟨fun t mem => ?_, apart.2⟩
    rw [same]
    exact apart.1 t mem
  case free =>
    intro t mem alive
    rcases List.mem_cons.mp mem with rfl | mem
    · rw [same] at alive ⊢
      exact tidy.free task List.mem_cons_self alive
    · exact tidy.free t (List.mem_cons_of_mem _ mem) alive
  case known =>
    intro t mem
    rcases List.mem_cons.mp mem with rfl | mem
    · rw [same]
      exact tidy.known task List.mem_cons_self
    · exact tidy.known t (List.mem_cons_of_mem _ mem)

/-- The slot of a task at a live node is vacant. -/
theorem Tidy.vacant (tidy : Tidy spot ⟨draft, task :: rest⟩) (here : spot task = .slot id key)
    (alive : draft.Alive id) :
    ∃ content, draft.content? id = some content ∧ content.Vacant key := by
  have free := tidy.free task List.mem_cons_self (here ▸ alive)
  rw [here] at free
  exact free

/-- Other tasks than that of a slot at a live node are elsewhere, and not at the node. -/
theorem Tidy.alone (tidy : Tidy spot ⟨draft, task :: rest⟩) (here : spot task = .slot id key)
    (alive : draft.Alive id) {other : T} (mem : other ∈ rest) :
    spot other ≠ .slot id key ∧ spot other ≠ .node id := by
  constructor
  · exact here ▸ tidy.differs (here ▸ alive) mem
  · intro there
    obtain ⟨content, found, vacant⟩ := tidy.vacant here alive
    have free := tidy.free other (List.mem_cons_of_mem _ mem) (there ▸ alive)
    rw [there] at free
    cases found.symm.trans free
    cases vacant.1

theorem Tidy.nullData (tidy : Tidy spot ⟨draft, task :: rest⟩) :
    Tidy spot ⟨draft.nullData, rest⟩ := by
  have none_alive := Draft.not_alive_nullData tidy.wf_draft.rooted
  refine tidy.change tidy.wf_draft.nullData ?_ ?_ ?_
  · exact fun t _ alive => absurd alive (none_alive _)
  · exact Nat.le_of_eq (Draft.size_nullData draft).symm
  · exact fun t _ alive => absurd alive (none_alive _)

/-- What comes of a draft when a null replaces a live node. -/
theorem Tidy.replaceByNull (tidy : Tidy spot ⟨draft, task :: rest⟩) (alive : draft.Alive id) :
    Tidy spot ⟨draft.replaceByNull id (draft.ancestors id), rest⟩ := by
  obtain ⟨top, rises, ⟨-, same⟩ | ⟨parent, slot, up, -, same⟩⟩ :=
    Draft.replaceByNull_eq tidy.wf_draft id alive
  · rw [same]
    exact tidy.nullData
  · rw [same]
    have alive_top := rises.alive tidy.wf_draft alive
    obtain ⟨alive_parent, content, found, stands_there, member, -⟩ :=
      tidy.wf_draft.slot_of_parent? alive_top up
    refine tidy.change (tidy.wf_draft.replace alive_top up) ?_ ?_ ?_
    · intro t _ h
      exact ((Draft.alive_replace tidy.wf_draft.rooted).mp h).1
    · refine Nat.le_of_eq ?_
      rw [Draft.size_kill, Draft.put_eq_edit, Draft.size_edit]
    · intro t _ _ free
      refine (free.put ?_ found member _).kill top
      intro at_slot
      rw [at_slot] at free
      obtain ⟨held, there, -, absent, -⟩ := free
      rw [found] at there
      injection there with there
      rw [← there, stands_there] at absent
      cases absent

theorem Tidy.write {value : Value} {nonNull : Bool} (here : spot task = .slot id key)
    (tidy : Tidy spot ⟨draft, task :: rest⟩) :
    Tidy spot ⟨draft.setLeaf id key value nonNull, rest⟩ := by
  rcases draft.setLeaf_cases id key value nonNull with
    ⟨-, same⟩ | ⟨alive, -, same⟩ | ⟨alive, -, same⟩ <;> rw [same]
  · exact tidy.tail
  · exact tidy.replaceByNull alive
  · obtain ⟨content, found, vacant⟩ := tidy.vacant here alive
    refine tidy.change (tidy.wf_draft.put_leaf alive found vacant value) ?_ ?_ ?_
    · exact fun t _ h => (Draft.alive_put _ _ _ _ _).mp h
    · exact Nat.le_of_eq (Draft.size_put _ _ _ _).symm
    · intro t mem h free
      refine free.put ?_ found vacant.1 _
      exact here ▸ tidy.differs (here ▸ alive) mem

theorem Tidy.leaveOut (here : spot task = .slot id key) (tidy : Tidy spot ⟨draft, task :: rest⟩) :
    Tidy spot ⟨draft.skip id key, rest⟩ := by
  cases dead : draft.isDead id with
  | true =>
      have same : draft.skip id key = draft := if_pos dead
      rw [same]
      exact tidy.tail
  | false =>
      have alive : draft.Alive id := dead
      obtain ⟨content, found, vacant⟩ := tidy.vacant here alive
      rw [Draft.skip_eq_edit alive]
      refine tidy.change (tidy.wf_draft.skip alive found vacant) ?_ ?_ ?_
      · intro t _ h
        rwa [Draft.alive_edit] at h
      · exact Nat.le_of_eq (Draft.size_edit _ _ _).symm
      · intro t mem h free
        refine free.skip ?_ found vacant
        exact here ▸ tidy.differs (here ▸ alive) mem

/-- The other tasks when a node is allocated at the slot of a task. -/
theorem Tidy.allocate (here : spot task = .slot id key) (alive : draft.Alive id)
    {content : Content} (neat : content.Neat) (blank : ∀ key, content.held? key = none)
    (value? : Option AppValue) (nonNull : Bool) (tidy : Tidy spot ⟨draft, task :: rest⟩) :
    Tidy spot ⟨(draft.allocate id key content value? nonNull).2, rest⟩ := by
  obtain ⟨held, found, vacant⟩ := tidy.vacant here alive
  have old : ∀ t ∈ rest, (spot t).id ≠ draft.nodes.size := fun t mem =>
    Nat.ne_of_lt (tidy.known t (List.mem_cons_of_mem _ mem))
  refine tidy.change (tidy.wf_draft.allocate alive found vacant neat blank value? nonNull) ?_ ?_ ?_
  · intro t mem h
    exact ((Draft.alive_allocate alive _).mp h).resolve_left (old t mem)
  · rw [Draft.size_allocate]
    exact Nat.le_succ _
  · intro t mem h free
    have put := free.put (here ▸ tidy.differs (here ▸ alive) mem) found vacant.1
      (.node draft.nodes.size)
    have same : (draft.allocate id key content value? nonNull).2.content? (spot t).id =
        (draft.put id key (.node draft.nodes.size)).content? (spot t).id := by
      rw [Draft.content?_allocate alive, if_neg (old t mem), Draft.put_eq_edit,
        Draft.content?_edit]
    cases at_spot : spot t with
    | slot other slot =>
        rw [at_spot] at put same
        obtain ⟨other_content, there, vacant'⟩ := put
        exact ⟨other_content, same.trans there, vacant'⟩
    | node other =>
        rw [at_spot] at put same
        exact same.trans put

theorem Tidy.openList {size : Nat} {nonNull : Bool} (here : spot task = .slot id key)
    (alive : draft.Alive id)
    (slots : below.map spot = (Shape.list size).slots.map (.slot draft.nodes.size))
    (tidy : Tidy spot ⟨draft, task :: rest⟩) :
    Tidy spot ⟨(draft.newList id key size nonNull).2, below ++ rest⟩ := by
  have others := tidy.allocate here alive (Content.neat_emptyList size)
    (Content.held?_emptyList size) none nonNull
  have at_slot : ∀ t ∈ below, ∃ slot ∈ (Shape.list size).slots,
      spot t = .slot draft.nodes.size slot := by
    intro t mem
    have mem' : spot t ∈ below.map spot := List.mem_map_of_mem mem
    rw [slots] at mem'
    obtain ⟨slot, inside, same⟩ := List.mem_map.mp mem'
    exact ⟨slot, inside, same.symm⟩
  refine others.join ?_ ?_ ?_ ?_
  · rw [slots]
    refine List.pairwise_map.mpr ((Content.nodup_slots_list size).imp ?_)
    intro a b differs same
    injection same with _ same
    exact differs same
  · intro t mem
    obtain ⟨slot, inside, same⟩ := at_slot t mem
    rw [same]
    refine ⟨.emptyList size, ?_, by simpa using inside, Content.held?_emptyList size slot,
      Content.not_skips_emptyList size slot⟩
    show (draft.allocate id key (.emptyList size) none nonNull).2.content? _ = _
    rw [Draft.content?_allocate alive, if_pos rfl]
  · intro t mem
    obtain ⟨slot, -, same⟩ := at_slot t mem
    rw [same]
    show draft.nodes.size < (draft.allocate id key (.emptyList size) none nonNull).2.nodes.size
    rw [Draft.size_allocate]
    exact Nat.lt_succ_self _
  · intro t mem other there _ same
    obtain ⟨slot, -, at_fresh⟩ := at_slot t mem
    have old := tidy.known other (List.mem_cons_of_mem _ there)
    rw [← same, at_fresh] at old
    exact absurd old (Nat.lt_irrefl _)

theorem Tidy.openObject {other : T} {value : AppValue} {nonNull : Bool}
    (here : spot task = .slot id key) (alive : draft.Alive id)
    (there : spot other = .node draft.nodes.size) (tidy : Tidy spot ⟨draft, task :: rest⟩) :
    Tidy spot ⟨(draft.newObject id key value nonNull).2, other :: rest⟩ := by
  have blank : ∀ key, Content.emptyObject.held? key = none := fun key => by cases key <;> rfl
  have others := tidy.allocate here alive Content.neat_emptyObject blank (some value) nonNull
  show Tidy spot ⟨(draft.newObject id key value nonNull).2, [other] ++ rest⟩
  refine others.join (by simp) ?_ ?_ ?_
  · intro t mem
    rw [List.mem_singleton.mp mem, there]
    show (draft.allocate id key .emptyObject (some value) nonNull).2.content? _ = _
    rw [Draft.content?_allocate alive, if_pos rfl]
  · intro t mem
    rw [List.mem_singleton.mp mem, there]
    show draft.nodes.size < (draft.allocate id key .emptyObject (some value) nonNull).2.nodes.size
    rw [Draft.size_allocate]
    exact Nat.lt_succ_self _
  · intro t mem t' mem' _ same
    have old := tidy.known t' (List.mem_cons_of_mem _ mem')
    rw [← same, List.mem_singleton.mp mem, there] at old
    exact absurd old (Nat.lt_irrefl _)

theorem Tidy.fill {keys : List String} (here : spot task = .node id) (alive : draft.Alive id)
    (distinct : keys.Nodup)
    (slots : below.map spot = (Shape.object keys).slots.map (.slot id))
    (tidy : Tidy spot ⟨draft, task :: rest⟩) :
    Tidy spot ⟨draft.setKeys id keys, below ++ rest⟩ := by
  have empty : draft.content? id = some .emptyObject := by
    have free := tidy.free task List.mem_cons_self (here ▸ alive)
    rw [here] at free
    exact free
  have at_slot : ∀ t ∈ below, ∃ slot ∈ (Shape.object keys).slots, spot t = .slot id slot := by
    intro t mem
    have mem' : spot t ∈ below.map spot := List.mem_map_of_mem mem
    rw [slots] at mem'
    obtain ⟨slot, inside, same⟩ := List.mem_map.mp mem'
    exact ⟨slot, inside, same.symm⟩
  -- No other task is at the node, or at a slot of it: it had none.
  have elsewhere : ∀ t ∈ rest, (spot t).id ≠ id := by
    intro t mem same
    have free := tidy.free t (List.mem_cons_of_mem _ mem) (same ▸ alive)
    cases at_spot : spot t with
    | slot other slot =>
        rw [at_spot] at free same
        obtain ⟨content, found, member, -⟩ := free
        rw [show other = id from same, empty] at found
        injection found with found
        subst found
        cases member
    | node other =>
        rw [at_spot] at same
        refine tidy.differs (here ▸ alive) mem ?_
        rw [here, at_spot, show other = id from same]
  have others : Tidy spot ⟨draft.setKeys id keys, rest⟩ := by
    refine tidy.change (tidy.wf_draft.setKeys empty distinct) ?_ ?_ ?_
    · exact fun t _ h => (Draft.alive_setKeys _ _ _ _).mp h
    · exact Nat.le_of_eq (Draft.size_setKeys _ _ _).symm
    · intro t mem _ free
      have same : (draft.setKeys id keys).content? (spot t).id = draft.content? (spot t).id := by
        rw [Draft.setKeys_eq_edit, Draft.content?_edit, if_neg (elsewhere t mem)]
      cases at_spot : spot t with
      | slot other slot =>
          rw [at_spot] at free same
          obtain ⟨content, found, vacant⟩ := free
          exact ⟨content, same.trans found, vacant⟩
      | node other =>
          rw [at_spot] at free same
          exact same.trans free
  refine others.join ?_ ?_ ?_ ?_
  · rw [slots]
    have neat := (tidy.wf_draft.setKeys empty distinct).neat id (.object [] keys)
      ((Draft.alive_setKeys _ _ _ _).mpr alive)
      (by rw [Draft.setKeys_eq_edit, Draft.content?_edit, if_pos rfl, empty]; rfl)
    refine List.pairwise_map.mpr (neat.distinct.imp ?_)
    intro a b differs same
    injection same with _ same
    exact differs same
  · intro t mem
    obtain ⟨slot, inside, same⟩ := at_slot t mem
    rw [same]
    refine ⟨.object [] keys, ?_, inside, ?_, ?_⟩
    · rw [Draft.setKeys_eq_edit, Draft.content?_edit, if_pos rfl, empty]
      rfl
    · cases slot <;> rfl
    · cases slot <;> exact fun h => h
  · intro t mem
    obtain ⟨slot, -, same⟩ := at_slot t mem
    rw [same]
    exact Nat.lt_of_lt_of_eq alive.lt_size (Draft.size_setKeys _ _ _).symm
  · intro t mem t' mem' _ same
    obtain ⟨slot, -, at_node⟩ := at_slot t mem
    refine elsewhere t' mem' ?_
    rw [← same, at_node]
    rfl

end

/-- Every move keeps a plan tidy. -/
theorem Move.tidy {before after : Plan T} (move : Move spot comes before after)
    (tidy : Tidy spot before) : Tidy spot after := by
  cases move with
  | sort same => exact tidy.sort same
  | pass same _ => exact tidy.pass same
  | lose _ => exact tidy.tail
  | write here _ => exact tidy.write here
  | leaveOut here _ => exact tidy.leaveOut here
  | openList here alive slots _ => exact tidy.openList here alive slots
  | openObject here alive there _ => exact tidy.openObject here alive there
  | fill here alive distinct slots _ => exact tidy.fill here alive distinct slots
  | nullRoot _ _ => exact tidy.nullData

end Plan

end GraphExec
