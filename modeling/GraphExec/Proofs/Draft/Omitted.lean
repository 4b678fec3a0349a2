import GraphExec.Proofs.Draft.Fixed
import GraphExec.Proofs.Draft.Nulled

/-!
# What is left out

A position that has been left out is not shown, and stays so while its node lives: a name of which an
object has no entry, or a place that is taken out of a list. No task comes to be at it again, and a null
that rises takes the place of a node, which stood somewhere else.
-/

namespace GraphExec

namespace Content

variable {content : Content} {key other : PathSegment}

/-- Whether a position is left out of what is shown. -/
def LeftOut : Content → PathSegment → Prop
  | object entries _, .field name => Fields.get? entries name = none
  | list _ skipped, .index n => n ∈ skipped
  | _, _ => False

theorem LeftOut.put (left : content.LeftOut key) (apart : other ≠ key) (entry : Entry) :
    (content.put other entry).LeftOut key := by
  cases content with
  | object entries keys =>
      cases key with
      | field name =>
          cases other with
          | field name' =>
              have differs : name' ≠ name := fun same => apart (congrArg _ same)
              exact (Fields.get?_insert entries name' name entry).trans ((if_neg differs).trans left)
          | index n => exact left
      | index n => exact left.elim
  | list items skipped =>
      cases key with
      | field name => exact left.elim
      | index n => cases other <;> exact left

theorem LeftOut.skip (left : content.LeftOut key) (vacant : content.Vacant other) :
    (content.skip other).LeftOut key := by
  cases content with
  | object entries keys =>
      cases key with
      | field name =>
          cases other with
          | field name' => exact (held?_skip vacant (.field name)).trans left
          | index n => exact left
      | index n => exact left.elim
  | list items skipped =>
      cases key with
      | field name => exact left.elim
      | index n =>
          cases other with
          | field name => exact left
          | index m => exact List.mem_cons_of_mem m left

theorem LeftOut.not_held (left : content.LeftOut key) (neat : content.Neat) :
    content.held? key = none := by
  cases content with
  | object entries keys =>
      cases key with
      | field name => exact left
      | index n => exact left.elim
  | list items skipped =>
      cases key with
      | field name => exact left.elim
      | index n =>
          cases held : (Content.list items skipped).held? (.index n) with
          | none => rfl
          | some entry => exact absurd left (neat.within _ entry held).2

theorem leftOut_skip (vacant : content.Vacant key) : (content.skip key).LeftOut key := by
  cases content with
  | object entries keys =>
      cases key with
      | field name => exact (held?_skip vacant (.field name)).trans vacant.2.1
      | index n => exact absurd vacant.1 (by simp [shape, Shape.slots])
  | list items skipped =>
      cases key with
      | field name => exact absurd vacant.1 (by simp [shape, Shape.slots])
      | index n => exact List.mem_cons_self

end Content

namespace Draft

variable {draft : Draft} {id : NodeId} {key : PathSegment}

/-- A position is left out, if its node lives. -/
def LeftOut (draft : Draft) (id : NodeId) (key : PathSegment) : Prop :=
  draft.Alive id → ∃ content, draft.content? id = some content ∧ content.LeftOut key

theorem LeftOut.edit (left : draft.LeftOut id key) (changed : NodeId) {f : Content → Content}
    (keeps : changed = id → ∀ content, draft.content? id = some content → content.LeftOut key →
      (f content).LeftOut key) : (draft.edit changed f).LeftOut id key := by
  intro alive
  obtain ⟨content, found, left⟩ := left ((alive_edit draft changed id f).mp alive)
  rw [content?_edit, found]
  split
  · rename_i same
    exact ⟨_, rfl, keeps same.symm content found left⟩
  · exact ⟨_, rfl, left⟩

theorem LeftOut.put (left : draft.LeftOut id key) {changed : NodeId} {slot : PathSegment}
    (apart : changed = id → slot ≠ key) (entry : Entry) :
    (draft.put changed slot entry).LeftOut id key :=
  left.edit changed fun same _ _ left => left.put (apart same) entry

theorem LeftOut.kill (left : draft.LeftOut id key) (top : NodeId) :
    (draft.kill top).LeftOut id key := by
  intro alive
  rw [content?_kill]
  exact left ((alive_kill draft top id).mp alive).1

/-- A null that rises takes the place of a node. -/
theorem LeftOut.replaceByNull (left : draft.LeftOut id key) (wf : draft.Wf) {node : NodeId}
    (alive : draft.Alive node) :
    (draft.replaceByNull node (draft.ancestors node)).LeftOut id key := by
  obtain ⟨top, rises, placed⟩ := replaceByNull_eq wf node alive
  rcases placed with ⟨-, same⟩ | ⟨parent, slot, up, -, same⟩
  · rw [same]
    exact fun alive => absurd alive (not_alive_nullData wf.rooted id)
  · rw [same]
    obtain ⟨above, stood⟩ := wf.child top parent slot (rises.alive wf alive) up
    refine (left.put (fun here there => ?_) _).kill top
    subst here there
    obtain ⟨content, found, left⟩ := left above
    rw [held?, found] at stood
    cases (left.not_held (wf.neat parent content above found)).symm.trans stood

theorem LeftOut.allocate (left : draft.LeftOut id key) (known : id < draft.nodes.size)
    {parent : NodeId} {slot : PathSegment} (alive : draft.Alive parent)
    (apart : parent = id → slot ≠ key) (content : Content) (value? : Option AppValue)
    (nonNull : Bool) : (draft.allocate parent slot content value? nonNull).2.LeftOut id key := by
  intro lives
  rcases (alive_allocate alive id).mp lives with rfl | lives
  · exact absurd known (Nat.lt_irrefl _)
  · obtain ⟨held, found, left⟩ := left lives
    rw [content?_allocate alive, if_neg (Nat.ne_of_lt known), found]
    split
    · rename_i same
      exact ⟨_, rfl, left.put (apart same.symm) _⟩
    · exact ⟨_, rfl, left⟩

end Draft

namespace Plan

variable {T : Type} {spot : T → Spot} {comes : T → Verdict → Prop} {id : NodeId} {key : PathSegment}

/-- A position of a node that has been filled, without a task at it. -/
structure Done (spot : T → Spot) (plan : Plan T) (id : NodeId) (key : PathSegment) : Prop where
  filled : Filled spot plan id
  elsewhere : ∀ task ∈ plan.tasks, spot task ≠ .slot id key

/-- No task comes to be at a position that is done. -/
theorem Move.done {before after : Plan T} (move : Move spot comes before after)
    (done : Done spot before id key) : Done spot after id key := by
  refine ⟨move.filled done.filled, fun t mem there => ?_⟩
  have others := done.elsewhere
  have old {task : T} {rest : List T} (none_there : ∀ t ∈ task :: rest, spot t ≠ .slot id key)
      (mem : t ∈ rest) : False :=
    none_there t (List.mem_cons_of_mem _ mem) there
  have new {below : List T} {slots : List PathSegment} {node : NodeId} (apart : node ≠ id)
      (slots_eq : below.map spot = slots.map (.slot node)) (among : t ∈ below) : False := by
    obtain ⟨slot, -, at_slot⟩ := List.mem_map.mp (slots_eq ▸ List.mem_map_of_mem among)
    injection at_slot.trans there with same
    exact apart same
  cases move with
  | sort perm => exact others t (perm.mem_iff.mpr mem) there
  | pass spots _ =>
      rcases List.mem_cons.mp mem with rfl | mem
      · exact others _ List.mem_cons_self (spots ▸ there)
      · exact old others mem
  | lose _ => exact old others mem
  | write _ _ => exact old others mem
  | leaveOut _ _ => exact old others mem
  | openList _ _ slots _ =>
      rcases List.mem_append.mp mem with mem | mem
      · exact new (Nat.ne_of_gt done.filled.1) slots mem
      · exact old others mem
  | openObject _ _ at_node _ =>
      rcases List.mem_cons.mp mem with rfl | mem
      · cases at_node.symm.trans there
      · exact old others mem
  | fill here _ _ slots _ =>
      rcases List.mem_append.mp mem with mem | mem
      · refine new (fun same => ?_) slots mem
        exact done.filled.2 _ List.mem_cons_self (here.trans (congrArg _ same))
      · exact old others mem
  | nullRoot _ _ => exact old others mem

/-- A position that is done and left out stays left out. -/
theorem Move.leftOut {before after : Plan T} (move : Move spot comes before after)
    (tidy : Tidy spot before) (done : Done spot before id key)
    (left : before.draft.LeftOut id key) : after.draft.LeftOut id key := by
  have others := done.elsewhere
  have apart {task : T} {rest : List T} {node : NodeId} {slot : PathSegment}
      (none_there : ∀ t ∈ task :: rest, spot t ≠ .slot id key)
      (here : spot task = .slot node slot) : node = id → slot ≠ key := by
    rintro rfl rfl
    exact none_there task List.mem_cons_self here
  cases move with
  | sort _ => exact left
  | pass _ _ => exact left
  | lose _ => exact left
  | @write draft task rest node slot value nonNull here verdict =>
      show (draft.setLeaf node slot value nonNull).LeftOut id key
      rcases draft.setLeaf_cases node slot value nonNull with
        ⟨-, same⟩ | ⟨alive, -, same⟩ | ⟨-, -, same⟩ <;> rw [same]
      · exact left
      · exact left.replaceByNull tidy.wf_draft alive
      · exact left.put (apart others here) _
  | @leaveOut draft task rest node slot here verdict =>
      show (draft.skip node slot).LeftOut id key
      by_cases alive : draft.Alive node
      · obtain ⟨content, found, vacant⟩ := tidy.vacant here alive
        rw [Draft.skip_eq_edit alive]
        refine left.edit node fun same content' found' left => left.skip ?_
        subst same
        obtain rfl : content = content' := Option.some.inj (found.symm.trans found')
        exact vacant
      · have dead : draft.isDead node = true := by simpa [Draft.Alive] using alive
        unfold Draft.skip
        rw [if_pos dead]
        exact left
  | openList here alive slots assembles =>
      exact left.allocate done.filled.1 alive (apart others here) _ _ _
  | openObject here alive there backward =>
      exact left.allocate done.filled.1 alive (apart others here) _ _ _
  | @fill draft task below rest node keys here alive distinct slots assembles =>
      show (draft.setKeys node keys).LeftOut id key
      rw [Draft.setKeys_eq_edit]
      refine left.edit node fun same => ?_
      exact absurd (here.trans (congrArg _ same)) (done.filled.2 _ List.mem_cons_self)
  | nullRoot here verdict =>
      exact fun alive => absurd alive (Draft.not_alive_nullData tidy.wf_draft.rooted id)

theorem Reaches.leftOut {first last : Plan T} (reaches : Reaches spot comes first last)
    (tidy : Tidy spot first) (done : Done spot first id key) (left : first.draft.LeftOut id key) :
    last.draft.LeftOut id key := by
  induction reaches with
  | refl => exact left
  | step move _ ih => exact ih (move.tidy tidy) (move.done done) (move.leftOut tidy done left)

/-- The position of a task that leaves it out is left out, and done. -/
theorem Tidy.skipped {draft : Draft} {task : T} {rest : List T}
    (tidy : Tidy spot ⟨draft, task :: rest⟩) (here : spot task = .slot id key)
    (alive : draft.Alive id) :
    (draft.skip id key).LeftOut id key ∧ Done spot ⟨draft.skip id key, rest⟩ id key := by
  obtain ⟨content, found, vacant⟩ := tidy.vacant here alive
  have alone := fun t (mem : t ∈ rest) => tidy.alone here alive mem
  rw [Draft.skip_eq_edit alive]
  refine ⟨fun _ => ⟨content.skip key, ?_, Content.leftOut_skip vacant⟩,
    ⟨?_, fun t mem => (alone t mem).2⟩, fun t mem => (alone t mem).1⟩
  · rw [Draft.content?_edit, if_pos rfl, found]
    rfl
  · show id < (draft.edit id _).nodes.size
    rw [Draft.size_edit]
    exact alive.lt_size

end Plan

end GraphExec
