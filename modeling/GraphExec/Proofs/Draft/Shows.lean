import GraphExec.Proofs.Draft.Tidy

/-!
# What a plan shows

A spot of a plan shows a verdict: that of the task at it, or what has been written there, nodes put
together from what their slots show. A null that is ruled out at one slot is enough for a node,
whatever the other slots come to.

Main statement: what a plan shows after a move it has shown before. So the data of a draft without
tasks is what the first task comes to.
-/

namespace GraphExec

/-- The verdict on a slot without an entry that no task is at. -/
def Content.Blank : Content → PathSegment → Verdict → Prop
  | .object _ _, _, verdict => verdict = .omitted
  | .list items skipped, key, verdict =>
    ((Content.list items skipped).Skips key ∧ verdict = .omitted) ∨
      (¬ (Content.list items skipped).Skips key ∧ verdict = .shown .null)

/-- An entry at one slot leaves the verdicts on those without one. -/
theorem Content.Blank.of_put {content : Content} {key other : PathSegment} {entry : Entry}
    {v : Verdict} (blank : (content.put key entry).Blank other v) : content.Blank other v := by
  cases content with
  | object entries keys => cases key <;> exact blank
  | list items skipped => cases key <;> cases other <;> exact blank

namespace Plan

variable {T : Type} {spot : T → Spot} {comes : T → Verdict → Prop}

def TaskAt (spot : T → Spot) (plan : Plan T) (s : Spot) : Prop :=
  ∃ task ∈ plan.tasks, spot task = s

/-- What a spot of a plan shows. -/
inductive Shows (spot : T → Spot) (comes : T → Verdict → Prop) (plan : Plan T) :
    Spot → Verdict → Prop
  | task {task : T} {verdict : Verdict} (mem : task ∈ plan.tasks) (came : comes task verdict) :
    Shows spot comes plan (spot task) verdict
  | leaf {id : NodeId} {key : PathSegment} {value : Value}
      (entry : plan.draft.held? id key = some (.leaf value)) :
    Shows spot comes plan (.slot id key) (.shown value.toJson)
  | node {id child : NodeId} {key : PathSegment} {verdict : Verdict}
      (entry : plan.draft.held? id key = some (.node child))
      (below : Shows spot comes plan (.node child) verdict) :
    Shows spot comes plan (.slot id key) (verdict.raise (plan.draft.nonNull child))
  | blank {id : NodeId} {key : PathSegment} {content : Content} {verdict : Verdict}
      (idle : ¬ TaskAt spot plan (.slot id key)) (found : plan.draft.content? id = some content)
      (absent : content.held? key = none) (blank : content.Blank key verdict) :
    Shows spot comes plan (.slot id key) verdict
  | invalid {id : NodeId} {key : PathSegment} {content : Content}
      (idle : ¬ TaskAt spot plan (.node id)) (found : plan.draft.content? id = some content)
      (slot : key ∈ content.shape.slots) (below : Shows spot comes plan (.slot id key) .invalid) :
    Shows spot comes plan (.node id) .invalid
  | shown {id : NodeId} {content : Content} {verdicts : PathSegment → Verdict}
      (idle : ¬ TaskAt spot plan (.node id)) (found : plan.draft.content? id = some content)
      (below : ∀ key ∈ content.shape.slots, Shows spot comes plan (.slot id key) (verdicts key))
      (valid : ∀ key ∈ content.shape.slots, verdicts key ≠ .invalid) :
    Shows spot comes plan (.node id) (.shown (content.shape.json verdicts))

/-- A change of a plan respects some spots: good spots lead to good ones, and but for those that are
changed, they hold what they have held. At the changed ones, what is shown was shown before. -/
structure Respects (spot : T → Spot) (comes : T → Verdict → Prop) (before after : Plan T)
    (good changed : Spot → Prop) : Prop where
  into_child : ∀ id key child, good (.slot id key) → ¬ changed (.slot id key) →
    after.draft.held? id key = some (.node child) → good (.node child) ∧
      after.draft.nonNull child = before.draft.nonNull child
  into_slot : ∀ id key, good (.node id) → ¬ changed (.node id) → good (.slot id key)
  tasks : ∀ s, good s → ¬ changed s → ∀ task ∈ after.tasks, spot task = s →
    ∀ v, comes task v → ∃ other ∈ before.tasks, spot other = s ∧ comes other v
  idle : ∀ s, good s → ¬ changed s → TaskAt spot before s → TaskAt spot after s
  slots : ∀ id key content, good (.slot id key) → ¬ changed (.slot id key) →
    after.draft.content? id = some content → ∃ held, before.draft.content? id = some held ∧
      held.held? key = content.held? key ∧
      ∀ v, content.Blank key v → held.Blank key v
  shapes : ∀ id content, good (.node id) → ¬ changed (.node id) →
    after.draft.content? id = some content →
    ∃ held, before.draft.content? id = some held ∧ held.shape = content.shape
  changes : ∀ s v, good s → changed s → Shows spot comes after s v → Shows spot comes before s v

theorem Respects.held? {before after : Plan T} {good changed : Spot → Prop}
    (respects : Respects spot comes before after good changed) {id : NodeId} {key : PathSegment}
    {entry : Entry} (fine : good (.slot id key)) (old : ¬ changed (.slot id key))
    (held : after.draft.held? id key = some entry) : before.draft.held? id key = some entry := by
  obtain ⟨content, found, stands⟩ := Option.bind_eq_some_iff.mp held
  obtain ⟨other, there, same, -⟩ := respects.slots id key content fine old found
  exact Option.bind_eq_some_iff.mpr ⟨other, there, same.trans stands⟩

/-- What a plan shows at the spots that a change respects, it has shown before. -/
theorem Respects.shows {before after : Plan T} {good changed : Spot → Prop}
    (respects : Respects spot comes before after good changed) {s : Spot} {v : Verdict}
    (shows : Shows spot comes after s v) (fine : good s) : Shows spot comes before s v := by
  induction shows with
  | @task task verdict mem came =>
      by_cases new : changed (spot task)
      · exact respects.changes _ _ fine new (.task mem came)
      · obtain ⟨other, there, same, came'⟩ := respects.tasks _ fine new task mem rfl verdict came
        exact same ▸ .task there came'
  | @leaf id key value entry =>
      by_cases new : changed (.slot id key)
      · exact respects.changes _ _ fine new (.leaf entry)
      · exact .leaf (respects.held? fine new entry)
  | @node id child key verdict entry below ih =>
      by_cases new : changed (.slot id key)
      · exact respects.changes _ _ fine new (.node entry below)
      · obtain ⟨good_child, same_null⟩ := respects.into_child id key child fine new entry
        rw [same_null]
        exact .node (respects.held? fine new entry) (ih good_child)
  | @blank id key content verdict idle found absent blank =>
      by_cases new : changed (.slot id key)
      · exact respects.changes _ _ fine new (.blank idle found absent blank)
      · obtain ⟨held, there, same, blanks⟩ := respects.slots id key content fine new found
        exact .blank (fun h => idle (respects.idle _ fine new h)) there (same.trans absent)
          (blanks verdict blank)
  | @invalid id key content idle found slot below ih =>
      by_cases new : changed (.node id)
      · exact respects.changes _ _ fine new (.invalid idle found slot below)
      · obtain ⟨held, there, same⟩ := respects.shapes id content fine new found
        exact .invalid (fun h => idle (respects.idle _ fine new h)) there (same ▸ slot)
          (ih (respects.into_slot id key fine new))
  | @shown id content verdicts idle found below valid ih =>
      by_cases new : changed (.node id)
      · exact respects.changes _ _ fine new (.shown idle found below valid)
      · obtain ⟨held, there, same⟩ := respects.shapes id content fine new found
        rw [← same] at ih valid ⊢
        exact .shown (fun h => idle (respects.idle _ fine new h)) there
          (fun key slot => ih key slot (respects.into_slot id key fine new)) valid

/-- The verdict on the whole: that on the root, unless the whole is null. -/
def Outcome (spot : T → Spot) (comes : T → Verdict → Prop) (plan : Plan T)
    (verdict : Verdict) : Prop :=
  (plan.draft.dataIsNull = true ∧ verdict = .invalid) ∨
    (plan.draft.dataIsNull = false ∧ Shows spot comes plan (.node Draft.root) verdict)

/-- At a node that has slots there is no task. -/
theorem Tidy.idle {plan : Plan T} (tidy : Tidy spot plan) {id : NodeId} {content : Content}
    {key : PathSegment} (alive : plan.draft.Alive id)
    (found : plan.draft.content? id = some content) (slot : key ∈ content.shape.slots) :
    ¬ TaskAt spot plan (.node id) := by
  rintro ⟨task, mem, same⟩
  have free := tidy.free task mem (same ▸ alive)
  rw [same] at free
  have empty : plan.draft.content? id = some .emptyObject := free
  rw [found] at empty
  injection empty with empty
  subst empty
  cases slot

/-- There is one task at a spot of a live node. -/
theorem Tidy.unique {plan : Plan T} (tidy : Tidy spot plan) {a b : T} (ha : a ∈ plan.tasks)
    (hb : b ∈ plan.tasks) (alive : plan.draft.Alive (spot a).id) (same : spot a = spot b) :
    a = b := by
  have apart := tidy.apart
  generalize plan.tasks = tasks at apart ha hb
  induction tasks with
  | nil => cases ha
  | cons first rest ih =>
      obtain ⟨head, tail⟩ := List.pairwise_cons.mp apart
      rcases List.mem_cons.mp ha with rfl | ha'
      · rcases List.mem_cons.mp hb with rfl | hb'
        · rfl
        · exact absurd same (head b hb' alive)
      · rcases List.mem_cons.mp hb with rfl | hb'
        · exact absurd same.symm (head a ha' (same ▸ alive))
        · exact ih tail ha' hb'

/-- A node with a task shows what the task comes to. -/
theorem Shows.of_task {plan : Plan T} (tidy : Tidy spot plan) {task : T} {id : NodeId}
    (mem : task ∈ plan.tasks) (here : spot task = .node id) (alive : plan.draft.Alive id)
    {v : Verdict} (shows : Shows spot comes plan (.node id) v) : comes task v := by
  generalize target : Spot.node id = s at shows
  cases shows with
  | @task other _ mem' came =>
      have same : other = task :=
        tidy.unique mem' mem (target ▸ alive) (target.symm.trans here.symm)
      exact same ▸ came
  | leaf _ => cases target
  | node _ _ => cases target
  | blank _ _ _ _ => cases target
  | invalid idle _ _ _ => exact absurd ⟨task, mem, here.trans target⟩ idle
  | shown idle _ _ _ => exact absurd ⟨task, mem, here.trans target⟩ idle

/-- A node with a slot that shows a null that is ruled out shows one itself. -/
theorem Tidy.shows_invalid {plan : Plan T} (tidy : Tidy spot plan) {id : NodeId}
    {content : Content} {key : PathSegment} (alive : plan.draft.Alive id)
    (found : plan.draft.content? id = some content) (slot : key ∈ content.shape.slots)
    (below : Shows spot comes plan (.slot id key) .invalid) :
    Shows spot comes plan (.node id) .invalid :=
  .invalid (tidy.idle alive found slot) found slot below

theorem Shows.rise {plan : Plan T} (tidy : Tidy spot plan) {id top : NodeId}
    (rises : plan.draft.Rises id top) (alive : plan.draft.Alive id)
    (shows : Shows spot comes plan (.node id) .invalid) :
    Shows spot comes plan (.node top) .invalid := by
  induction rises with
  | here id => exact shows
  | @up id parent top key nonNull step _ ih =>
      obtain ⟨alive_parent, entry⟩ := tidy.wf.child id parent key alive step
      obtain ⟨content, found⟩ := alive_parent.content
      have stands : content.held? key = some (.node id) := by
        simpa [Draft.held?, found] using entry
      obtain ⟨slot, -⟩ := (tidy.wf.neat parent content alive_parent found).within key _ stands
      have at_slot : Shows spot comes plan (.slot parent key) .invalid := by
        have raised := Shows.node entry shows
        rwa [nonNull] at raised
      exact ih alive_parent (tidy.shows_invalid alive_parent found slot at_slot)

theorem alive_root_iff {plan : Plan T} (tidy : Tidy spot plan) :
    plan.draft.Alive Draft.root ↔ plan.draft.dataIsNull = false := by
  unfold Draft.Alive
  rw [tidy.wf.null]

section

variable {draft : Draft} {task : T} {rest below : List T} {id : NodeId} {key : PathSegment}

/-- Whoever is at a spot of a live node is the task there. -/
theorem Tidy.not_at (tidy : Tidy spot ⟨draft, task :: rest⟩) (alive : draft.Alive (spot task).id) :
    ¬ ∃ other ∈ rest, spot other = spot task := by
  rintro ⟨other, mem, same⟩
  exact tidy.differs alive mem same

theorem TaskAt.tail {s : Spot} (differs : s ≠ spot task)
    (there : TaskAt spot ⟨draft, task :: rest⟩ s) : ∃ other ∈ rest, spot other = s := by
  obtain ⟨other, mem, same⟩ := there
  rcases List.mem_cons.mp mem with rfl | mem
  · exact absurd same.symm differs
  · exact ⟨other, mem, same⟩

theorem back_sort {tasks others : List T} (same : tasks.Perm others) {s : Spot} {v : Verdict}
    (shows : Shows spot comes ⟨draft, others⟩ s v) : Shows spot comes ⟨draft, tasks⟩ s v := by
  have respects : Respects spot comes ⟨draft, tasks⟩ ⟨draft, others⟩ (fun _ => True)
      (fun _ => False) :=
    { into_child := fun _ _ _ _ _ _ => ⟨trivial, rfl⟩
      into_slot := fun _ _ _ _ => trivial
      tasks := fun s _ _ t mem at_s v came => ⟨t, same.mem_iff.mpr mem, at_s, came⟩
      idle := by
        rintro s - - ⟨t, mem, at_s⟩
        exact ⟨t, same.mem_iff.mp mem, at_s⟩
      slots := fun _ _ content _ _ found => ⟨content, found, rfl, fun _ h => h⟩
      shapes := fun _ content _ _ found => ⟨content, found, rfl⟩
      changes := fun _ _ _ h => h.elim }
  exact respects.shows shows trivial

theorem back_pass {other : T} (same : spot other = spot task)
    (backward : ∀ v, comes other v → comes task v) {s : Spot} {v : Verdict}
    (shows : Shows spot comes ⟨draft, other :: rest⟩ s v) :
    Shows spot comes ⟨draft, task :: rest⟩ s v := by
  have tasks : ∀ s t, t ∈ other :: rest → spot t = s → ∀ v, comes t v →
      ∃ t' ∈ task :: rest, spot t' = s ∧ comes t' v := by
    intro s t mem at_s v came
    rcases List.mem_cons.mp mem with rfl | mem
    · exact ⟨task, List.mem_cons_self, same.symm.trans at_s, backward v came⟩
    · exact ⟨t, List.mem_cons_of_mem _ mem, at_s, came⟩
  have idle : ∀ s, TaskAt spot ⟨draft, task :: rest⟩ s → TaskAt spot ⟨draft, other :: rest⟩ s := by
    rintro s ⟨t, mem, at_s⟩
    rcases List.mem_cons.mp mem with rfl | mem
    · exact ⟨other, List.mem_cons_self, same.trans at_s⟩
    · exact ⟨t, List.mem_cons_of_mem _ mem, at_s⟩
  have respects : Respects spot comes ⟨draft, task :: rest⟩ ⟨draft, other :: rest⟩ (fun _ => True)
      (fun _ => False) :=
    { into_child := fun _ _ _ _ _ _ => ⟨trivial, rfl⟩
      into_slot := fun _ _ _ _ => trivial
      tasks := fun s _ _ => tasks s
      idle := fun s _ _ => idle s
      slots := fun _ _ content _ _ found => ⟨content, found, rfl, fun _ h => h⟩
      shapes := fun _ content _ _ found => ⟨content, found, rfl⟩
      changes := fun _ _ _ h => h.elim }
  exact respects.shows shows trivial

theorem back_lose (tidy : Tidy spot ⟨draft, task :: rest⟩) (dead : ¬ draft.Alive (spot task).id)
    {s : Spot} {v : Verdict} (shows : Shows spot comes ⟨draft, rest⟩ s v)
    (alive : draft.Alive s.id) : Shows spot comes ⟨draft, task :: rest⟩ s v := by
  have respects : Respects spot comes ⟨draft, task :: rest⟩ ⟨draft, rest⟩
      (fun s => draft.Alive s.id) (fun _ => False) :=
    { into_child := fun id key child h _ entry => ⟨(tidy.wf_draft.entry id key child h entry).1, rfl⟩
      into_slot := fun _ _ h _ => h
      tasks := fun s _ _ t mem at_s v came => ⟨t, List.mem_cons_of_mem _ mem, at_s, came⟩
      idle := fun s h _ there => there.tail fun same => dead (same ▸ h)
      slots := fun _ _ content _ _ found => ⟨content, found, rfl, fun _ h => h⟩
      shapes := fun _ content _ _ found => ⟨content, found, rfl⟩
      changes := fun _ _ _ h => h.elim }
  exact respects.shows shows alive

/-- Where what a node holds has been changed at one slot, its shape and its other slots are as they
were. -/
theorem aside_of_edit {before after : Draft} {up : NodeId} {f : Content → Content}
    (same : after.content? up = if up = id then (before.content? up).map f else before.content? up)
    (shape : ∀ content, (f content).shape = content.shape)
    (others : ∀ content, before.content? id = some content → ∀ other, other ≠ key →
      (f content).held? other = content.held? other ∧
        ∀ v, (f content).Blank other v → content.Blank other v)
    {content : Content} (found : after.content? up = some content) :
    ∃ held, before.content? up = some held ∧ held.shape = content.shape ∧
      ∀ slot, Spot.slot up slot ≠ .slot id key →
        held.held? slot = content.held? slot ∧ ∀ v, content.Blank slot v → held.Blank slot v := by
  by_cases here : up = id
  · subst here
    rw [if_pos rfl, found] at same
    obtain ⟨held, there, rfl⟩ := Option.map_eq_some_iff.mp same.symm
    refine ⟨held, there, (shape held).symm, fun slot other => ?_⟩
    have aside : slot ≠ key := fun h => other (h ▸ rfl)
    obtain ⟨entry, blank⟩ := others held there slot aside
    exact ⟨entry.symm, blank⟩
  · rw [if_neg here] at same
    exact ⟨content, same.symm.trans found, rfl, fun _ _ => ⟨rfl, fun _ h => h⟩⟩

theorem aside_of_put {before after : Draft} {up : NodeId} {entry : Entry}
    (same : after.content? up =
      if up = id then (before.content? up).map fun c => c.put key entry else before.content? up)
    {content : Content} (found : after.content? up = some content) :
    ∃ held, before.content? up = some held ∧ held.shape = content.shape ∧
      ∀ slot, Spot.slot up slot ≠ .slot id key →
        held.held? slot = content.held? slot ∧ ∀ v, content.Blank slot v → held.Blank slot v :=
  aside_of_edit same (fun c => Content.shape_put c key entry)
    (fun _ _ _ aside => ⟨Content.held?_put_of_ne aside _, fun _ blank => blank.of_put⟩) found

/-- A change of the slot of a task, done by writing or leaving it out. -/
theorem back_edit (here : spot task = .slot id key) (f : Content → Content) (wf : (draft.edit id f).Wf)
    (shape : ∀ content, (f content).shape = content.shape)
    (others : ∀ content, draft.content? id = some content → ∀ other, other ≠ key →
      (f content).held? other = content.held? other ∧
        ∀ v, (f content).Blank other v → content.Blank other v)
    (verdict : ∀ v, Shows spot comes ⟨draft.edit id f, rest⟩ (.slot id key) v → comes task v)
    {s : Spot} {v : Verdict} (shows : Shows spot comes ⟨draft.edit id f, rest⟩ s v)
    (fine : draft.Alive s.id) : Shows spot comes ⟨draft, task :: rest⟩ s v := by
  have respects : Respects spot comes ⟨draft, task :: rest⟩ ⟨draft.edit id f, rest⟩
      (fun s => draft.Alive s.id) (fun s => s = .slot id key) := by
    constructor
    case into_child =>
      intro above slot child h _ entry
      have lives := (wf.entry above slot child ((Draft.alive_edit _ _ _ _).mpr h) entry).1
      exact ⟨(Draft.alive_edit _ _ _ _).mp lives, Draft.nonNull_edit _ _ _ _⟩
    case into_slot => exact fun _ _ h _ => h
    case tasks => exact fun s _ _ t mem at_s v came => ⟨t, List.mem_cons_of_mem _ mem, at_s, came⟩
    case idle => exact fun s _ other there => there.tail fun same => other (same.trans here)
    case slots =>
      intro above slot content _ other found
      obtain ⟨held, there, -, kept⟩ :=
        aside_of_edit (Draft.content?_edit draft id above f) shape others found
      exact ⟨held, there, kept slot other⟩
    case shapes =>
      intro above content _ _ found
      obtain ⟨held, there, same, -⟩ :=
        aside_of_edit (Draft.content?_edit draft id above f) shape others found
      exact ⟨held, there, same⟩
    case changes =>
      rintro s v - rfl shown
      exact here ▸ Shows.task List.mem_cons_self (verdict v shown)
  exact respects.shows shows fine

theorem Shows.slot_cases {plan : Plan T} {content : Content} {v : Verdict}
    (shows : Shows spot comes plan (.slot id key) v) (idle : ¬ TaskAt spot plan (.slot id key))
    (found : plan.draft.content? id = some content) :
    (∃ value, content.held? key = some (.leaf value) ∧ v = .shown value.toJson) ∨
      (∃ child w, content.held? key = some (.node child) ∧
        Shows spot comes plan (.node child) w ∧ v = w.raise (plan.draft.nonNull child)) ∨
      (content.held? key = none ∧ content.Blank key v) := by
  have at_slot : ∀ e, plan.draft.held? id key = some e → content.held? key = some e := by
    intro e h
    simpa [Draft.held?, found] using h
  generalize target : Spot.slot id key = s at shows
  cases shows with
  | task mem came => exact absurd ⟨_, mem, target.symm⟩ idle
  | leaf entry =>
      injection target with first second
      subst first second
      exact .inl ⟨_, at_slot _ entry, rfl⟩
  | node entry below =>
      injection target with first second
      subst first second
      exact .inr (.inl ⟨_, _, at_slot _ entry, below, rfl⟩)
  | blank _ there absent blank =>
      injection target with first second
      subst first second
      rw [found] at there
      injection there with there
      subst there
      exact .inr (.inr ⟨absent, blank⟩)
  | invalid _ _ _ _ => cases target
  | shown _ _ _ _ => cases target

theorem Shows.node_cases {plan : Plan T} {content : Content} {v : Verdict}
    (shows : Shows spot comes plan (.node id) v) (idle : ¬ TaskAt spot plan (.node id))
    (found : plan.draft.content? id = some content) :
    (v = .invalid ∧ ∃ key ∈ content.shape.slots, Shows spot comes plan (.slot id key) .invalid) ∨
      (∃ verdicts, v = .shown (content.shape.json verdicts) ∧
        ∀ key ∈ content.shape.slots,
          Shows spot comes plan (.slot id key) (verdicts key) ∧ verdicts key ≠ .invalid) := by
  generalize target : Spot.node id = s at shows
  cases shows with
  | task mem came => exact absurd ⟨_, mem, target.symm⟩ idle
  | leaf _ => cases target
  | node _ _ => cases target
  | blank _ _ _ _ => cases target
  | invalid _ there slot below =>
      injection target with target
      subst target
      rw [found] at there
      injection there with there
      subst there
      exact .inl ⟨rfl, _, slot, below⟩
  | shown _ there below valid =>
      injection target with target
      subst target
      rw [found] at there
      injection there with there
      subst there
      exact .inr ⟨_, rfl, fun key slot => ⟨below key slot, valid key slot⟩⟩

/-- A task that has written its slot has come to what stands there now. -/
theorem back_put {value : Value} (tidy : Tidy spot ⟨draft, task :: rest⟩)
    (here : spot task = .slot id key) (alive : draft.Alive id)
    (came : comes task (.shown value.toJson)) {s : Spot} {v : Verdict}
    (shows : Shows spot comes ⟨draft.put id key (.leaf value), rest⟩ s v)
    (fine : draft.Alive s.id) : Shows spot comes ⟨draft, task :: rest⟩ s v := by
  obtain ⟨content, found, vacant⟩ := tidy.vacant here alive
  refine back_edit here (fun c => c.put key (.leaf value))
    (tidy.wf_draft.put_leaf alive found vacant value) (fun c => Content.shape_put c key _)
    ?_ ?_ shows fine
  · intro c _ other aside
    exact ⟨Content.held?_put_of_ne aside _, fun v blank => blank.of_put⟩
  · intro v shown
    have idle : ¬ TaskAt spot ⟨draft.edit id fun c => c.put key (.leaf value), rest⟩
        (.slot id key) := by
      rintro ⟨other, mem, same⟩
      exact tidy.not_at (here ▸ alive) ⟨other, mem, same.trans here.symm⟩
    have there : (draft.edit id fun c => c.put key (.leaf value)).content? id =
        some (content.put key (.leaf value)) := by
      rw [Draft.content?_edit, if_pos rfl, found]
      rfl
    have stands : (content.put key (.leaf value)).held? key = some (.leaf value) :=
      Content.held?_put_self vacant.1 _
    rcases shown.slot_cases idle there with
      ⟨other, entry, rfl⟩ | ⟨child, w, entry, -, -⟩ | ⟨absent, -⟩
    · rw [stands] at entry
      injection entry with entry
      injection entry with entry
      exact entry ▸ came
    · rw [stands] at entry
      injection entry with entry
      cases entry
    · rw [stands] at absent
      cases absent

/-- A task that has left its slot out has come to that. -/
theorem back_leaveOut (tidy : Tidy spot ⟨draft, task :: rest⟩) (here : spot task = .slot id key)
    (alive : draft.Alive id) (came : comes task .omitted) {s : Spot} {v : Verdict}
    (shows : Shows spot comes ⟨draft.edit id fun c => c.skip key, rest⟩ s v)
    (fine : draft.Alive s.id) : Shows spot comes ⟨draft, task :: rest⟩ s v := by
  obtain ⟨content, found, vacant⟩ := tidy.vacant here alive
  refine back_edit here (fun c => c.skip key) (tidy.wf_draft.skip alive found vacant)
    (fun c => Content.shape_skip c key) ?_ ?_ shows fine
  · intro c there other aside
    rw [found] at there
    injection there with there
    subst there
    refine ⟨Content.held?_skip vacant other, fun v blank => ?_⟩
    cases content with
    | object entries keys => cases key <;> exact blank
    | list items skipped =>
        cases key with
        | field name => exact blank
        | index n =>
            have same : ((Content.list items skipped).skip (.index n)).Skips other ↔
                (Content.list items skipped).Skips other :=
              ⟨fun h => (Content.skips_skip h).resolve_left aside, Content.skips_of_skip⟩
            rcases blank with ⟨skips, h⟩ | ⟨kept, h⟩
            · exact .inl ⟨same.mp skips, h⟩
            · exact .inr ⟨fun skips => kept (same.mpr skips), h⟩
  · intro v shown
    have idle : ¬ TaskAt spot ⟨draft.edit id fun c => c.skip key, rest⟩ (.slot id key) :=
      fun ⟨other, mem, same⟩ => tidy.not_at (here ▸ alive) ⟨other, mem, same.trans here.symm⟩
    have there : (draft.edit id fun c => c.skip key).content? id = some (content.skip key) := by
      rw [Draft.content?_edit, if_pos rfl, found]
      rfl
    have none_there : (content.skip key).held? key = none := by
      rw [Content.held?_skip vacant]
      exact vacant.2.1
    rcases shown.slot_cases idle there with
      ⟨other, entry, rfl⟩ | ⟨child, w, entry, -, -⟩ | ⟨-, blank⟩
    · rw [none_there] at entry
      cases entry
    · rw [none_there] at entry
      cases entry
    · have left : v = .omitted := by
        cases content with
        | object entries keys => cases key <;> exact blank
        | list items skipped =>
            obtain ⟨n, -, rfl⟩ := Content.mem_slots_index.mp vacant.1
            rcases blank with ⟨-, h⟩ | ⟨kept, -⟩
            · exact h
            · exact absurd Content.skips_skip_self kept
      exact left ▸ came

/-- A null has been put above the slot of a task, and what was there has died. -/
theorem respects_replace (tidy : Tidy spot ⟨draft, task :: rest⟩) (here : spot task = .slot id key)
    {top parent : NodeId} {slot : PathSegment} (rises : draft.Rises id top)
    (alive : draft.Alive top) (up : draft.parent? top = some (parent, slot))
    (opens : draft.nonNull top = false)
    (shown : Shows spot comes ⟨draft, task :: rest⟩ (.node top) .invalid) :
    Respects spot comes ⟨draft, task :: rest⟩
      ⟨(draft.put parent slot (.leaf .null)).kill top, rest⟩
      (fun s => ((draft.put parent slot (.leaf .null)).kill top).Alive s.id)
      (fun s => s = .slot parent slot) := by
  have wf := tidy.wf_draft.replace alive up
  obtain ⟨alive_parent, held, there, occupied, member, -⟩ :=
    tidy.wf_draft.slot_of_parent? alive up
  have content (above : NodeId) :
      ((draft.put parent slot (.leaf .null)).kill top).content? above =
        if above = parent then (draft.content? above).map fun c => c.put slot (.leaf .null)
        else draft.content? above := Draft.content?_replace
  constructor
  case into_child =>
    intro above other child h _ entry
    refine ⟨(wf.entry above other child h entry).1, ?_⟩
    rw [Draft.nonNull_kill, Draft.put_eq_edit, Draft.nonNull_edit]
  case into_slot => exact fun _ _ h _ => h
  case tasks => exact fun s _ _ t mem at_s v came => ⟨t, List.mem_cons_of_mem _ mem, at_s, came⟩
  case idle =>
    rintro s h - ⟨other, mem, at_s⟩
    rcases List.mem_cons.mp mem with rfl | mem
    · -- The node of the task has died.
      rw [← at_s, here] at h
      exact absurd rises.stands_below ((Draft.alive_replace tidy.wf_draft.rooted).mp h).2
    · exact ⟨other, mem, at_s⟩
  case slots =>
    intro above other c _ elsewhere changed
    obtain ⟨old, found, -, kept⟩ := aside_of_put (content above) changed
    exact ⟨old, found, kept other elsewhere⟩
  case shapes =>
    intro above c _ _ changed
    obtain ⟨old, found, same, -⟩ := aside_of_put (content above) changed
    exact ⟨old, found, same⟩
  case changes =>
    -- The slot shows the null now, and has shown it, as the node there was not to be shown.
    rintro s v h rfl now
    have idle : ¬ TaskAt spot
        ⟨(draft.put parent slot (.leaf .null)).kill top, rest⟩ (.slot parent slot) := by
      rintro ⟨other, mem, at_s⟩
      have free := tidy.free other (List.mem_cons_of_mem _ mem) (by rw [at_s]; exact alive_parent)
      rw [at_s] at free
      obtain ⟨c, found, -, absent, -⟩ := free
      cases there.symm.trans found
      cases absent.symm.trans occupied
    have found := content parent
    rw [if_pos rfl, there] at found
    have null_there : (held.put slot (.leaf .null)).held? slot = some (.leaf .null) :=
      Content.held?_put_self member _
    have before : Shows spot comes ⟨draft, task :: rest⟩ (.slot parent slot) (.shown .null) := by
      have raised := Shows.node (tidy.wf_draft.child top parent slot alive up).2 shown
      rwa [show (⟨draft, task :: rest⟩ : Plan T).draft.nonNull top = false from opens] at raised
    rcases now.slot_cases idle found with
      ⟨value, entry, rfl⟩ | ⟨child, w, entry, -, -⟩ | ⟨absent, -⟩
    · cases entry.symm.trans null_there
      exact before
    · cases entry.symm.trans null_there
    · cases absent.symm.trans null_there

/-- A null at the slot of a task that has risen from there. -/
theorem back_null (tidy : Tidy spot ⟨draft, task :: rest⟩) (here : spot task = .slot id key)
    (alive : draft.Alive id) (came : comes task .invalid) {v : Verdict}
    (outcome : Outcome spot comes ⟨draft.replaceByNull id (draft.ancestors id), rest⟩ v) :
    Outcome spot comes ⟨draft, task :: rest⟩ v := by
  obtain ⟨content, found, vacant⟩ := tidy.vacant here alive
  have at_node : Shows spot comes ⟨draft, task :: rest⟩ (.node id) .invalid :=
    tidy.shows_invalid alive found vacant.1 (here ▸ .task List.mem_cons_self came)
  obtain ⟨top, rises, placed⟩ := Draft.replaceByNull_eq tidy.wf_draft id alive
  have at_top := at_node.rise tidy rises alive
  have alive_top := rises.alive tidy.wf_draft alive
  rcases placed with ⟨rfl, same⟩ | ⟨parent, slot, up, opens, same⟩
  · -- The null has risen to the root, so the whole is null.
    rw [same] at outcome
    have lives := (alive_root_iff tidy).mp alive_top
    rcases outcome with ⟨-, rfl⟩ | ⟨kept, -⟩
    · exact .inr ⟨lives, at_top⟩
    · cases kept
  · have survives : Tidy spot ⟨draft.replaceByNull id (draft.ancestors id), rest⟩ :=
      tidy.replaceByNull alive
    rw [same] at outcome survives
    rcases outcome with ⟨null, rfl⟩ | ⟨kept, shows⟩
    · exact .inl ⟨null, rfl⟩
    · have respects := respects_replace tidy here rises alive_top up opens at_top
      exact .inr ⟨kept, respects.shows shows ((alive_root_iff survives).mpr kept)⟩

/-- A node that is allocated at the slot of a task: the task comes to what the node shows. -/
theorem back_allocate {above : List T} {content : Content} {value? : Option AppValue}
    {nonNull : Bool} (tidy : Tidy spot ⟨draft, task :: rest⟩)
    (blank : ∀ key, content.held? key = none) (here : spot task = .slot id key)
    (alive : draft.Alive id) (fresh : ∀ t ∈ above, (spot t).id = draft.nodes.size)
    (verdict : ∀ w, Shows spot comes
      ⟨(draft.allocate id key content value? nonNull).2, above ++ rest⟩
      (.node draft.nodes.size) w → comes task (w.raise nonNull))
    {s : Spot} {v : Verdict}
    (shows : Shows spot comes ⟨(draft.allocate id key content value? nonNull).2, above ++ rest⟩ s v)
    (fine : draft.Alive s.id) : Shows spot comes ⟨draft, task :: rest⟩ s v := by
  obtain ⟨held, found, vacant⟩ := tidy.vacant here alive
  have entries := fun above' other => @Draft.held?_allocate draft id key content value? nonNull alive held
    found vacant.1 blank above' other
  have old : ∀ {other : NodeId}, draft.Alive other → other ≠ draft.nodes.size :=
    fun h => Nat.ne_of_lt h.lt_size
  have content_old {up : NodeId} (h : draft.Alive up) :
      (draft.allocate id key content value? nonNull).2.content? up =
        if up = id then (draft.content? up).map fun c => c.put key (.node draft.nodes.size)
        else draft.content? up := by
    rw [Draft.content?_allocate alive, if_neg (old h)]
  have respects : Respects spot comes ⟨draft, task :: rest⟩
      ⟨(draft.allocate id key content value? nonNull).2, above ++ rest⟩
      (fun s => draft.Alive s.id) (fun s => s = .slot id key) := by
    constructor
    case into_child =>
      intro up slot child h other entry
      change draft.Alive up at h
      have elsewhere : ¬ (up = id ∧ slot = key) := by
        rintro ⟨rfl, rfl⟩
        exact other rfl
      rw [entries, if_neg (old h), if_neg elsewhere] at entry
      have lives := (tidy.wf_draft.entry up slot child h entry).1
      refine ⟨lives, ?_⟩
      rw [Draft.nonNull_allocate, if_neg (old lives)]
    case into_slot => exact fun _ _ h _ => h
    case tasks =>
      intro s h _ t mem at_s v came
      rcases List.mem_append.mp mem with mem | mem
      · exact absurd (at_s ▸ fresh t mem) (old h)
      · exact ⟨t, List.mem_cons_of_mem _ mem, at_s, came⟩
    case idle =>
      intro s _ other there
      obtain ⟨t, mem, at_s⟩ := there.tail fun same => other (same.trans here)
      exact ⟨t, List.mem_append_right _ mem, at_s⟩
    case slots =>
      intro up slot c h other changed
      obtain ⟨before, there, -, kept⟩ := aside_of_put (content_old h) changed
      exact ⟨before, there, kept slot other⟩
    case shapes =>
      intro up c h _ changed
      obtain ⟨before, there, same, -⟩ := aside_of_put (content_old h) changed
      exact ⟨before, there, same⟩
    case changes =>
      -- The slot shows what the new node shows, which is what the task comes to.
      rintro s v - rfl shown
      have idle : ¬ TaskAt spot
          ⟨(draft.allocate id key content value? nonNull).2, above ++ rest⟩ (.slot id key) := by
        rintro ⟨t, mem, at_s⟩
        rcases List.mem_append.mp mem with mem | mem
        · have new := fresh t mem
          rw [at_s] at new
          exact old alive new
        · exact tidy.not_at (here ▸ alive) ⟨t, mem, at_s.trans here.symm⟩
      have now := content_old alive
      rw [if_pos rfl, found] at now
      have stands : (held.put key (.node draft.nodes.size)).held? key =
          some (.node draft.nodes.size) := Content.held?_put_self vacant.1 _
      rcases shown.slot_cases idle now with
        ⟨value, entry, rfl⟩ | ⟨child, w, entry, below, rfl⟩ | ⟨absent, -⟩
      · cases entry.symm.trans stands
      · cases entry.symm.trans stands
        have came := verdict w below
        have same : (⟨(draft.allocate id key content value? nonNull).2, above ++ rest⟩ :
            Plan T).draft.nonNull draft.nodes.size = nonNull := by
          show (draft.allocate id key content value? nonNull).2.nonNull _ = _
          rw [Draft.nonNull_allocate, if_pos rfl]
        rw [same]
        exact here ▸ Shows.task List.mem_cons_self came
      · cases absent.symm.trans stands
  exact respects.shows shows fine

/-- What an untouched node shows, whose slots have tasks of their own. -/
theorem Shows.assembled {plan : Plan T} {content : Content} {raise : Verdict → Verdict}
    (tidy : Tidy spot plan) (assembles : Assembles spot comes task below content.shape raise)
    (alive : plan.draft.Alive id) (found : plan.draft.content? id = some content)
    (blank : ∀ key, content.held? key = none) (among : ∀ t ∈ below, t ∈ plan.tasks)
    (slots : below.map spot = content.shape.slots.map (.slot id)) {v : Verdict}
    (idle : ¬ TaskAt spot plan (.node id)) (shows : Shows spot comes plan (.node id) v) :
    comes task (raise v) := by
  -- A slot shows what its task comes to.
  have at_slot : ∀ key ∈ content.shape.slots, ∀ w, Shows spot comes plan (.slot id key) w →
      ∀ t ∈ below, spot t = .slot id key → comes t w := by
    intro key slot w shown t mem at_key
    generalize target : Spot.slot id key = s at shown
    cases shown with
    | @task other _ mem' came =>
        have same : other = t :=
          tidy.unique mem' (among t mem) (target ▸ alive) (target.symm.trans at_key.symm)
        exact same ▸ came
    | leaf entry | node entry _ =>
        injection target with first second
        subst first second
        simp [Draft.held?, found, blank] at entry
    | blank idle' _ _ _ => exact absurd ⟨t, among t mem, at_key.trans target⟩ idle'
    | invalid _ _ _ _ => cases target
    | shown _ _ _ _ => cases target
  have task_at : ∀ key ∈ content.shape.slots, ∃ t ∈ below, spot t = .slot id key := by
    intro key slot
    have mem : Spot.slot id key ∈ below.map spot := slots ▸ List.mem_map_of_mem slot
    obtain ⟨t, mem, same⟩ := List.mem_map.mp mem
    exact ⟨t, mem, same⟩
  rcases shows.node_cases idle found with ⟨rfl, key, slot, shown⟩ | ⟨verdicts, rfl, all⟩
  · obtain ⟨t, mem, at_key⟩ := task_at key slot
    exact assembles.invalid t mem (at_slot key slot _ shown t mem at_key)
  · refine assembles.shown verdicts ?_
    intro t mem other key at_key
    have slot : Spot.slot other key ∈ content.shape.slots.map (Spot.slot id) :=
      slots ▸ at_key ▸ List.mem_map_of_mem mem
    obtain ⟨key', inside, same⟩ := List.mem_map.mp slot
    injection same with first second
    subst first second
    exact ⟨at_slot key' inside _ (all key' inside).1 t mem at_key, (all key' inside).2⟩

/-- A task that has filled its node has come to what the node shows. -/
theorem back_fill {keys : List String} (tidy : Tidy spot ⟨draft, task :: rest⟩)
    (after_tidy : Tidy spot ⟨draft.setKeys id keys, below ++ rest⟩)
    (here : spot task = .node id) (alive : draft.Alive id)
    (slots : below.map spot = (Shape.object keys).slots.map (.slot id))
    (assembles : Assembles spot comes task below (.object keys) fun verdict => verdict)
    {s : Spot} {v : Verdict} (shows : Shows spot comes ⟨draft.setKeys id keys, below ++ rest⟩ s v)
    (fine : draft.Alive s.id) (whole : ∀ key, s ≠ .slot id key) :
    Shows spot comes ⟨draft, task :: rest⟩ s v := by
  have empty : draft.content? id = some .emptyObject := by
    have free := tidy.free task List.mem_cons_self (here ▸ alive)
    rw [here] at free
    exact free
  have at_below : ∀ t ∈ below, ∃ key, spot t = .slot id key := by
    intro t mem
    have mem' : spot t ∈ below.map spot := List.mem_map_of_mem mem
    rw [slots] at mem'
    obtain ⟨key, -, same⟩ := List.mem_map.mp mem'
    exact ⟨key, same.symm⟩
  have content : ∀ other, (draft.setKeys id keys).content? other =
      if other = id then some (.object [] keys) else draft.content? other := by
    intro other
    rw [Draft.setKeys_eq_edit, Draft.content?_edit]
    by_cases same : other = id
    · rw [if_pos same, if_pos same, same, empty]
      rfl
    · rw [if_neg same, if_neg same]
  -- The slots of the node are new, so what they have shown before does not matter.
  have respects : Respects spot comes ⟨draft, task :: rest⟩ ⟨draft.setKeys id keys, below ++ rest⟩
      (fun s => draft.Alive s.id ∧ ∀ key, s ≠ .slot id key) (fun s => s = .node id) := by
    constructor
    case into_child =>
      intro up slot child h _ entry
      have lives :=
        (after_tidy.wf.entry up slot child ((Draft.alive_setKeys _ _ _ _).mpr h.1) entry).1
      refine ⟨⟨(Draft.alive_setKeys _ _ _ _).mp lives, by simp⟩, ?_⟩
      show (draft.setKeys id keys).nonNull child = draft.nonNull child
      rw [Draft.setKeys_eq_edit, Draft.nonNull_edit]
    case into_slot =>
      intro up slot h other
      refine ⟨h.1, fun key same => other ?_⟩
      injection same with same
      rw [same]
    case tasks =>
      intro s h _ t mem at_s v came
      rcases List.mem_append.mp mem with mem | mem
      · obtain ⟨key, at_slot⟩ := at_below t mem
        exact absurd (at_s.symm.trans at_slot) (h.2 key)
      · exact ⟨t, List.mem_cons_of_mem _ mem, at_s, came⟩
    case idle =>
      intro s _ other there
      obtain ⟨t, mem, at_s⟩ := there.tail fun same => other (same.trans here)
      exact ⟨t, List.mem_append_right _ mem, at_s⟩
    case slots =>
      intro up slot c h _ changed
      have aside : up ≠ id := fun same => h.2 slot (same ▸ rfl)
      rw [content, if_neg aside] at changed
      exact ⟨c, changed, rfl, fun _ h => h⟩
    case shapes =>
      intro up c _ other changed
      have aside : up ≠ id := fun same => other (same ▸ rfl)
      rw [content, if_neg aside] at changed
      exact ⟨c, changed, rfl⟩
    case changes =>
      rintro s v - rfl shown
      have now : (draft.setKeys id keys).content? id = some (.object [] keys) := by
        rw [content, if_pos rfl]
      have idle : ¬ TaskAt spot ⟨draft.setKeys id keys, below ++ rest⟩ (.node id) := by
        rintro ⟨t, mem, at_s⟩
        rcases List.mem_append.mp mem with mem | mem
        · obtain ⟨key, at_slot⟩ := at_below t mem
          rw [at_slot] at at_s
          cases at_s
        · exact tidy.not_at (here ▸ alive) ⟨t, mem, at_s.trans here.symm⟩
      have came := shown.assembled after_tidy assembles ((Draft.alive_setKeys _ _ _ _).mpr alive)
        now (fun key => by cases key <;> rfl) (fun t mem => List.mem_append_left _ mem) slots idle
      exact here ▸ .task List.mem_cons_self came
  exact respects.shows shows ⟨fine, whole⟩

end

/-- A move changes no verdict on the whole. -/
theorem Move.back {before after : Plan T} (move : Move spot comes before after)
    (tidy : Tidy spot before) {v : Verdict} (outcome : Outcome spot comes after v) :
    Outcome spot comes before v := by
  have after_tidy := move.tidy tidy
  -- A move that leaves what is null as it is, and shows what it has shown at live nodes.
  have through : after.draft.dataIsNull = before.draft.dataIsNull →
      (∀ v, before.draft.Alive Draft.root → Shows spot comes after (.node Draft.root) v →
        Shows spot comes before (.node Draft.root) v) → Outcome spot comes before v := by
    intro same back
    rcases outcome with ⟨null, rfl⟩ | ⟨kept, shows⟩
    · exact .inl ⟨same ▸ null, rfl⟩
    · exact .inr ⟨same ▸ kept, back v ((alive_root_iff tidy).mpr (same ▸ kept)) shows⟩
  cases move with
  | sort same => exact through rfl fun v _ shows => back_sort same shows
  | pass same backward => exact through rfl fun v _ shows => back_pass same backward shows
  | lose dead => exact through rfl fun v alive shows => back_lose tidy dead shows alive
  | @write draft task rest id key value nonNull here came =>
      rcases draft.setLeaf_cases id key value nonNull with
        ⟨dead, same⟩ | ⟨alive, ⟨rfl, rfl⟩, same⟩ | ⟨alive, allowed, same⟩
      · rw [same] at through
        refine through rfl fun v alive shows => back_lose tidy ?_ shows alive
        rw [here]
        simp [Draft.Alive, Spot.id, dead]
      · rw [same] at outcome
        exact back_null tidy here alive came outcome
      · rw [same] at through
        rw [Verdict.ofLeaf_eq_shown allowed] at came
        exact through rfl fun v root_alive shows => back_put tidy here alive came shows root_alive
  | @leaveOut draft task rest id key here came =>
      cases dead : draft.isDead id with
      | true =>
          have same : draft.skip id key = draft := if_pos dead
          rw [same] at through
          refine through rfl fun v alive shows => back_lose tidy ?_ shows alive
          rw [here]
          simp [Draft.Alive, Spot.id, dead]
      | false =>
          have alive : draft.Alive id := dead
          rw [Draft.skip_eq_edit alive] at through
          exact through rfl fun v root_alive shows =>
            back_leaveOut tidy here alive came shows root_alive
  | @openList draft task below rest id key size nonNull here alive slots assembles =>
      refine through rfl fun v root_alive shows => ?_
      have fresh : ∀ t ∈ below, ∃ slot, spot t = .slot draft.nodes.size slot := by
        intro t mem
        have mem' : spot t ∈ below.map spot := List.mem_map_of_mem mem
        rw [slots] at mem'
        obtain ⟨slot, -, same⟩ := List.mem_map.mp mem'
        exact ⟨slot, same.symm⟩
      refine back_allocate tidy (Content.held?_emptyList size) here alive ?_ ?_ shows
        root_alive
      · intro t mem
        obtain ⟨slot, same⟩ := fresh t mem
        rw [same]
        rfl
      · intro w shown
        have now : (draft.newList id key size nonNull).2.content? draft.nodes.size =
            some (.emptyList size) := by
          unfold Draft.newList
          rw [Draft.content?_allocate alive, if_pos rfl]
        have idle : ¬ TaskAt spot ⟨(draft.newList id key size nonNull).2, below ++ rest⟩
            (.node draft.nodes.size) := by
          rintro ⟨t, mem, at_s⟩
          rcases List.mem_append.mp mem with mem | mem
          · obtain ⟨slot, same⟩ := fresh t mem
            rw [same] at at_s
            cases at_s
          · have old := tidy.known t (List.mem_cons_of_mem _ mem)
            rw [at_s] at old
            exact absurd old (Nat.lt_irrefl _)
        have lives : (draft.newList id key size nonNull).2.Alive draft.nodes.size :=
          (Draft.alive_allocate alive _).mpr (.inl rfl)
        rw [← Content.shape_emptyList size] at slots assembles
        exact shown.assembled after_tidy assembles lives now (Content.held?_emptyList size)
          (fun t mem => List.mem_append_left _ mem) slots idle
  | @openObject draft task other rest id key value nonNull here alive there backward =>
      refine through rfl fun v root_alive shows => ?_
      change Shows spot comes ⟨(draft.newObject id key value nonNull).2, [other] ++ rest⟩
        (.node Draft.root) v at shows
      refine back_allocate tidy (fun key => by cases key <;> rfl) here alive ?_ ?_ shows
        root_alive
      · intro t mem
        rw [List.mem_singleton.mp mem, there]
        rfl
      · intro w shown
        have lives : (draft.newObject id key value nonNull).2.Alive draft.nodes.size :=
          (Draft.alive_allocate alive _).mpr (.inl rfl)
        exact backward w (shown.of_task after_tidy List.mem_cons_self there lives)
  | fill here alive distinct slots assembles =>
      refine through rfl fun v root_alive shows => ?_
      exact back_fill tidy after_tidy here alive slots assembles shows root_alive (by simp)
  | @nullRoot draft task rest here came =>
      rcases outcome with ⟨-, rfl⟩ | ⟨kept, -⟩
      · cases null : draft.dataIsNull with
        | true => exact .inl ⟨null, rfl⟩
        | false => exact .inr ⟨null, here ▸ .task List.mem_cons_self came⟩
      · cases kept

/-! ### Plans without tasks -/

/-- A plan from which nothing is left to do has come about by moves. -/
inductive Reaches (spot : T → Spot) (comes : T → Verdict → Prop) : Plan T → Plan T → Prop
  | refl (plan : Plan T) : Reaches spot comes plan plan
  | step {first second last : Plan T} (move : Move spot comes first second)
      (rest : Reaches spot comes second last) : Reaches spot comes first last

theorem Reaches.trans {first second last : Plan T} (one : Reaches spot comes first second)
    (two : Reaches spot comes second last) : Reaches spot comes first last := by
  induction one with
  | refl => exact two
  | step move _ ih => exact .step move (ih two)

theorem Reaches.tidy {first last : Plan T} (reaches : Reaches spot comes first last)
    (tidy : Tidy spot first) : Tidy spot last := by
  induction reaches with
  | refl => exact tidy
  | step move _ ih => exact ih (move.tidy tidy)

theorem Reaches.back {first last : Plan T} (reaches : Reaches spot comes first last)
    (tidy : Tidy spot first) {v : Verdict} (outcome : Outcome spot comes last v) :
    Outcome spot comes first v := by
  induction reaches with
  | refl => exact outcome
  | step move _ ih => exact move.back tidy (ih (move.tidy tidy) outcome)

end Plan

end GraphExec
