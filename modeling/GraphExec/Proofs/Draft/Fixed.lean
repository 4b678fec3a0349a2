import GraphExec.Proofs.Draft.Growth

/-!
# What is fixed of a draft

A node that is dead stays so. The keys of an object are those that it was given when it was filled,
whatever is written later.
-/

namespace GraphExec

namespace Content

/-- The keys of an object, in the order of the response. -/
def keys : Content → List String
  | object _ keys => keys
  | list _ _ => []

theorem keys_put (content : Content) (key : PathSegment) (entry : Entry) :
    (content.put key entry).keys = content.keys := by
  cases content <;> cases key <;> rfl

theorem keys_skip (content : Content) (key : PathSegment) :
    (content.skip key).keys = content.keys := by
  cases content <;> cases key <;> rfl

end Content

namespace Draft

variable {draft before middle after : Draft} {but : NodeId → Prop}

/-- The keys of an object of the response, in their order. -/
def keys (draft : Draft) (id : NodeId) : List String :=
  ((draft.content? id).map Content.keys).getD []

/-- The nodes that there are stay dead, and keep their keys, some of them excepted. -/
structure Fixes (but : NodeId → Prop) (before after : Draft) : Prop where
  size : before.nodes.size ≤ after.nodes.size
  dead : ∀ id : Nat, id < before.nodes.size → before.isDead id = true → after.isDead id = true
  keys : ∀ id : Nat, id < before.nodes.size → ¬ but id → after.keys id = before.keys id

theorem Fixes.refl (draft : Draft) : Fixes but draft draft :=
  ⟨Nat.le_refl _, fun _ _ dead => dead, fun _ _ _ => rfl⟩

theorem Fixes.trans (first : Fixes but before middle) (second : Fixes but middle after) :
    Fixes but before after where
  size := Nat.le_trans first.size second.size
  dead id bound dead :=
    second.dead id (Nat.lt_of_lt_of_le bound first.size) (first.dead id bound dead)
  keys id bound fixed :=
    (second.keys id (Nat.lt_of_lt_of_le bound first.size) fixed).trans (first.keys id bound fixed)

theorem fixes_edit (draft : Draft) (id : NodeId) {f : Content → Content}
    (same : ∀ content, (f content).keys = content.keys) : Fixes but draft (draft.edit id f) where
  size := Nat.le_of_eq (size_edit _ _ _).symm
  dead _ _ dead := (isDead_edit _ _ _ _).trans dead
  keys other _ _ := by
    unfold Draft.keys
    rw [content?_edit]
    split
    · cases draft.content? other with
      | none => rfl
      | some content => exact same content
    · rfl

theorem fixes_put (draft : Draft) (id : NodeId) (key : PathSegment) (entry : Entry) :
    Fixes but draft (draft.put id key entry) :=
  fixes_edit draft id fun content => content.keys_put key entry

theorem fixes_kill (draft : Draft) (top : NodeId) : Fixes but draft (draft.kill top) where
  size := Nat.le_of_eq (size_kill _ _).symm
  dead id _ dead := by rw [isDead_kill, dead, Bool.true_or]
  keys id _ _ := by rw [Draft.keys, Draft.keys, content?_kill]

theorem fixes_flag (draft : Draft) : Fixes but draft { draft with dataIsNull := true } :=
  ⟨Nat.le_refl _, fun _ _ dead => dead, fun _ _ _ => rfl⟩

theorem fixes_nullData (draft : Draft) (id : NodeId) :
    Fixes but draft ({ draft with dataIsNull := true }.kill id) :=
  (fixes_flag draft).trans (fixes_kill _ id)

theorem fixes_setEntry (draft : Draft) (id : NodeId) (key : PathSegment) (entry : Entry)
    (nonNull : Bool) : Fixes but draft (draft.setEntry id key entry nonNull) :=
  setEntry_keeps (.refl draft) (fixes_flag draft) (fixes_put draft)
    (fun _ id fixes => fixes.trans (fixes_kill _ id)) id key entry nonNull

theorem fixes_setLeaf (draft : Draft) (id : NodeId) (key : PathSegment) (value : Value)
    (nonNull : Bool) : Fixes but draft (draft.setLeaf id key value nonNull) :=
  fixes_setEntry draft id key (.leaf value) nonNull

theorem fixes_skip (draft : Draft) (id : NodeId) (key : PathSegment) :
    Fixes but draft (draft.skip id key) := by
  unfold skip
  split
  · exact .refl draft
  · exact fixes_edit draft id fun content => content.keys_skip key

theorem fixes_allocate (parent : NodeId) (alive : draft.Alive parent) (key : PathSegment)
    (content : Content) (value? : Option AppValue) (nonNull : Bool) :
    Fixes but draft (draft.allocate parent key content value? nonNull).2 where
  size := by
    rw [size_allocate]
    exact Nat.le_succ _
  dead id bound dead := by rw [isDead_allocate_of_lt bound, dead]
  keys id bound _ := by
    unfold Draft.keys
    rw [content?_allocate alive, if_neg (Nat.ne_of_lt bound)]
    split
    · cases draft.content? id with
      | none => rfl
      | some content => exact content.keys_put key _
    · rfl

/-- Filling an object fixes its keys. -/
theorem fixes_setKeys (id : NodeId) (excepted : but id) (keys : List String) :
    Fixes but draft (draft.setKeys id keys) where
  size := Nat.le_of_eq (size_setKeys _ _ _).symm
  dead other _ dead := by rw [setKeys_eq_edit, isDead_edit, dead]
  keys other _ fixed := by
    unfold Draft.keys
    have differs : other ≠ id := fun same => fixed (same ▸ excepted)
    rw [setKeys_eq_edit, content?_edit, if_neg differs]

theorem keys_setKeys {id : NodeId} {entries : Fields Entry} {old : List String}
    (object : draft.content? id = some (.object entries old)) (keys : List String) :
    (draft.setKeys id keys).keys id = keys := by
  unfold Draft.keys
  rw [setKeys_eq_edit, content?_edit, if_pos rfl, object]
  rfl

end Draft

namespace Plan

variable {T : Type} {spot : T → Spot} {comes : T → Verdict → Prop}

/-- The dead stay dead, and only nodes that tasks are to fill are given keys. -/
theorem Move.fixes {before after : Plan T} (move : Move spot comes before after) :
    Draft.Fixes (fun id => ∃ task ∈ before.tasks, spot task = .node id) before.draft
      after.draft := by
  cases move with
  | sort _ => exact .refl _
  | pass _ _ => exact .refl _
  | lose _ => exact .refl _
  | write _ _ => exact Draft.fixes_setLeaf _ _ _ _ _
  | leaveOut _ _ => exact Draft.fixes_skip _ _ _
  | openList _ alive _ _ => exact Draft.fixes_allocate _ alive _ _ _ _
  | openObject _ alive _ _ => exact Draft.fixes_allocate _ alive _ _ _ _
  | fill here _ _ _ _ => exact Draft.fixes_setKeys _ ⟨_, List.mem_cons_self, here⟩ _
  | nullRoot _ _ => exact Draft.fixes_nullData _ _

/-- A node that no task is to fill. -/
def Filled (spot : T → Spot) (plan : Plan T) (id : NodeId) : Prop :=
  id < plan.draft.nodes.size ∧ ∀ task ∈ plan.tasks, spot task ≠ .node id

/-- A node that no task is to fill is not to be filled later either. -/
theorem Move.filled {before after : Plan T} {id : NodeId} (move : Move spot comes before after)
    (filled : Filled spot before id) : Filled spot after id := by
  obtain ⟨bound, none_there⟩ := filled
  refine ⟨Nat.lt_of_lt_of_le bound move.fixes.size, fun t mem same => ?_⟩
  -- New tasks are at slots, or at a node that is new itself.
  have at_slot {below : List T} {slots : List PathSegment} {node : NodeId}
      (slots_eq : below.map spot = slots.map (.slot node)) (among : t ∈ below) : False := by
    obtain ⟨key, -, there⟩ := List.mem_map.mp (slots_eq ▸ List.mem_map_of_mem among)
    exact absurd (there.trans same) nofun
  cases move with
  | sort perm => exact none_there t (perm.mem_iff.mpr mem) same
  | pass spots _ =>
      rcases List.mem_cons.mp mem with rfl | mem
      · exact none_there _ List.mem_cons_self (spots ▸ same)
      · exact none_there t (List.mem_cons_of_mem _ mem) same
  | lose _ => exact none_there t (List.mem_cons_of_mem _ mem) same
  | write _ _ => exact none_there t (List.mem_cons_of_mem _ mem) same
  | leaveOut _ _ => exact none_there t (List.mem_cons_of_mem _ mem) same
  | openList _ _ slots _ =>
      rcases List.mem_append.mp mem with mem | mem
      · exact at_slot slots mem
      · exact none_there t (List.mem_cons_of_mem _ mem) same
  | openObject _ _ there _ =>
      rcases List.mem_cons.mp mem with rfl | mem
      · injection there.symm.trans same with new
        exact absurd bound (new ▸ Nat.lt_irrefl _)
      · exact none_there t (List.mem_cons_of_mem _ mem) same
  | fill _ _ _ slots _ =>
      rcases List.mem_append.mp mem with mem | mem
      · exact at_slot slots mem
      · exact none_there t (List.mem_cons_of_mem _ mem) same
  | nullRoot _ _ => exact none_there t (List.mem_cons_of_mem _ mem) same

/-- The dead stay dead. -/
theorem Reaches.stays_dead {first last : Plan T} (reaches : Reaches spot comes first last)
    {id : NodeId} (bound : id < first.draft.nodes.size) (dead : first.draft.isDead id = true) :
    last.draft.isDead id = true := by
  induction reaches with
  | refl plan => exact dead
  | step move _ ih =>
      exact ih (Nat.lt_of_lt_of_le bound move.fixes.size) (move.fixes.dead id bound dead)

/-- A node that no task is to fill keeps its keys. -/
theorem Reaches.keys_eq {first last : Plan T} (reaches : Reaches spot comes first last)
    {id : NodeId} (filled : Filled spot first id) :
    last.draft.keys id = first.draft.keys id ∧ Filled spot last id := by
  induction reaches with
  | refl plan => exact ⟨rfl, filled⟩
  | step move _ ih =>
      obtain ⟨same, filled'⟩ := ih (move.filled filled)
      refine ⟨same.trans (move.fixes.keys id filled.1 ?_), filled'⟩
      rintro ⟨task, mem, there⟩
      exact filled.2 task mem there

end Plan

end GraphExec
