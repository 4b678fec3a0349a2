import GraphExec.Proofs.Draft.Growth
import GraphExec.Proofs.Run.Grouping
import GraphExec.Proofs.Run.Weave

/-!
# What tasks come to

`Comes` tells what a task comes to, following its step from transition to transition: one rule for
each way in which a transition may go on. It speaks of one task and those that it gives rise to,
not of the order in which the tasks of a run are done.
-/

namespace GraphExec

variable {σ : Type}

/-! ### Lists -/

/-- The number of places, if an outcome is a list. -/
def Outcome.size? : Outcome σ → Option Nat
  | refusals _ size => some size
  | items _ _ values => some values.length
  | _ => none

/-- What is to be done at the places of a list. -/
def Outcome.below (position : Position σ) (list : NodeId) : Outcome σ → List (Task σ)
  | refusals itemType size =>
    (List.range size).map fun n => .written list (.index n) .null itemType.isNonNull
  | items itemType cursor values =>
    (position.itemSteps list itemType cursor 0 values).map .awake
  | _ => []

/-- In the course of a run, a step completed a position at a stage, and left the draft so. -/
structure Step.Completed (job : Job σ) (seen : Sight σ → Prop) (step : Step σ)
    (position : Position σ) (stage : Stage σ) (value : ResolvedValue σ) (outcome : Outcome σ) :
    Prop where
  due : ∃ s progress t, seen (.advanced step s) ∧ step.Due job s position value stage ∧
    (step.advance job).Gives s progress t ∧
    t.run.draft = outcome.draft position stage.run.draft
  completes : position.Completes job stage value outcome

/-- In the course of a run, the fields of an object were gathered at a stage. -/
structure ObjectStep.Gathered (job : Job σ) (seen : Sight σ → Prop) (step : ObjectStep σ)
    (type : ObjectType σ) (node : NodeId) (stage : Stage σ) (groups : Groups)
    (below : List (Task σ)) : Prop where
  made : seen (.advanced (.object step) stage)
  state : step.state = .collect type node
  grouped : ∃ grouping t, grouping.groups = groups ∧
    ((step.grouper job type (stage.run.draft.path node)).group step.selections).Gives stage
      (.complete grouping) t
  launched : step.Launched job type node groups below

/-- What a task comes to, in the course of a run. -/
inductive Comes (job : Job σ) (seen : Sight σ → Prop) : Task σ → Verdict → Prop
  | passed {step next : Step σ} {s t : Stage σ} {progress : Progress σ} {task : Task σ}
      {v : Verdict} (made : seen (.advanced step s))
      (gives : (step.advance job).Gives s progress t) (goes : progress.next? = some next)
      (stays : step.Stays job next) (leaves : progress.task? = some task)
      (after : Comes job seen task v) : Comes job seen (.awake step) v
  | skipped {step : Step σ} {s t : Stage σ} {position : Position σ}
      (made : seen (.advanced step s)) (skips : step.Skips job s position t) :
      Comes job seen (.awake step) .omitted
  | leaf {step : Step σ} {s : Stage σ} {position : Position σ} {value : ResolvedValue σ}
      {written : Value} {checked : Bool}
      (completed : step.Completed job seen position s value (.leaf written checked)) :
      Comes job seen (.awake step) (.ofLeaf written (checked && position.nonNull))
  | omitted {step : Step σ} {s : Stage σ} {position : Position σ} {value : ResolvedValue σ}
      (completed : step.Completed job seen position s value .omitted) :
      Comes job seen (.awake step) .omitted
  | object {step : Step σ} {s : Stage σ} {position : Position σ} {value : ResolvedValue σ}
      {object : ObjectStep σ} {v : Verdict}
      (completed : step.Completed job seen position s value (.object object))
      (after : Comes job seen (.awake (.object object)) v) : Comes job seen (.awake step) v
  | listed {step : Step σ} {s : Stage σ} {position : Position σ} {value : ResolvedValue σ}
      {outcome : Outcome σ} {size : Nat}
      (completed : step.Completed job seen position s value outcome)
      (sized : outcome.size? = some size) (verdicts : PathSegment → Verdict)
      (each : ∀ task ∈ outcome.below position s.run.draft.nodes.size, ∀ id key,
        task.spot = .slot id key → Comes job seen task (verdicts key))
      (fine : ∀ task ∈ outcome.below position s.run.draft.nodes.size, ∀ id key,
        task.spot = .slot id key → verdicts key ≠ .invalid) :
      Comes job seen (.awake step)
        (.raise position.nonNull (.shown ((Shape.list size).json verdicts)))
  | listNulled {step : Step σ} {s : Stage σ} {position : Position σ} {value : ResolvedValue σ}
      {outcome : Outcome σ} {size : Nat} {task : Task σ}
      (completed : step.Completed job seen position s value outcome)
      (sized : outcome.size? = some size)
      (member : task ∈ outcome.below position s.run.draft.nodes.size)
      (invalid : Comes job seen task .invalid) :
      Comes job seen (.awake step) (.raise position.nonNull .invalid)
  | allocated {step : ObjectStep σ} {s t : Stage σ} {type : ObjectType σ} {position : Position σ}
      {progress : Progress σ} {v : Verdict} (made : seen (.advanced (.object step) s))
      (state : step.state = .allocate type) (target : step.target = .child position)
      (gives : (Step.advance (.object step) job).Gives s progress t)
      (left : t.run.draft = (s.run.draft.newObject position.parent position.key
        step.subject.value position.nonNull).2)
      (after : Comes job seen
        (.awake (.object { step with state := .collect type s.run.draft.nodes.size })) v) :
      Comes job seen (.awake (.object step)) (v.raise position.nonNull)
  | gathered {step : ObjectStep σ} {s : Stage σ} {type : ObjectType σ} {node : NodeId}
      {groups : Groups} {below : List (Task σ)}
      (gathered : step.Gathered job seen type node s groups below)
      (verdicts : PathSegment → Verdict)
      (each : ∀ task ∈ below, ∀ id key, task.spot = .slot id key →
        Comes job seen task (verdicts key))
      (fine : ∀ task ∈ below, ∀ id key, task.spot = .slot id key → verdicts key ≠ .invalid) :
      Comes job seen (.awake (.object step)) (.shown ((Shape.object groups.keys).json verdicts))
  | gatheredNulled {step : ObjectStep σ} {s : Stage σ} {type : ObjectType σ} {node : NodeId}
      {groups : Groups} {below : List (Task σ)} {task : Task σ}
      (gathered : step.Gathered job seen type node s groups below) (member : task ∈ below)
      (invalid : Comes job seen task .invalid) :
      Comes job seen (.awake (.object step)) .invalid
  | rootFailed {step : ObjectStep σ} {s t : Stage σ} {value : ResolvedValue σ}
      (made : seen (.advanced (.object step) s)) (target : step.target = .root)
      (fails : step.Fails job s value t) : Comes job seen (.awake (.object step)) .invalid
  | waited {step : Step σ} {wait rest : Wait σ} {s t : Stage σ} {v : Verdict}
      (heard : seen (.polled wait s)) (polled : wait.poll s = (.pending rest, t))
      (after : Comes job seen (.asleep step rest) v) : Comes job seen (.asleep step wait) v
  | answered {step : Step σ} {wait : Wait σ} {resumption : Resumption σ} {s t : Stage σ}
      {v : Verdict} (heard : seen (.polled wait s))
      (polled : wait.poll s = (.ready resumption, t))
      (after : Comes job seen (.called step resumption) v) : Comes job seen (.asleep step wait) v
  | resumed {step next : Step σ} {resumption : Resumption σ} {v : Verdict}
      (resumes : step.resume resumption = .ok next) (after : Comes job seen (.awake next) v) :
      Comes job seen (.called step resumption) v
  | written (node : NodeId) (key : PathSegment) (value : Value) (nonNull : Bool) :
      Comes job seen (.written node key value nonNull) (.ofLeaf value nonNull)

variable {job : Job σ} {seen : Sight σ → Prop}

/-! ### Moves of a plan -/

/-- A task that is there from the beginning: a step that is ready, or a value. -/
def Task.Fresh : Task σ → Prop
  | awake _ => True
  | written _ _ _ _ => True
  | _ => False

/-- The values among tasks are written. -/
theorem reaches_writes :
    ∀ (below : List (Task σ)) (draft : Draft) (rest : List (Task σ)), (∀ t ∈ below, t.Fresh) →
      Plan.Reaches Task.spot (Comes job seen) ⟨draft, below ++ rest⟩
        ⟨Task.writes below draft, (below.filterMap Task.step?).map .awake ++ rest⟩ := by
  intro below
  induction below with
  | nil => intro draft rest _; exact .refl _
  | cons task below ih =>
      intro draft rest fresh
      have behind := fun t mem => fresh t (List.mem_cons_of_mem task mem)
      cases task with
      | written node key value nonNull =>
          refine .step (.write rfl (.written node key value nonNull)) ?_
          exact ih _ rest behind
      | awake step =>
          -- The step is put aside while the values behind it are written.
          refine .step (.sort List.perm_middle.symm) ((ih draft _ behind).trans ?_)
          exact .step (.sort List.perm_middle) (.refl _)
      | asleep step wait => exact (fresh _ List.mem_cons_self).elim
      | called step resumption => exact (fresh _ List.mem_cons_self).elim

theorem Outcome.fresh_below {position : Position σ} {list : NodeId} {outcome : Outcome σ} :
    ∀ t ∈ outcome.below position list, t.Fresh := by
  intro t mem
  cases outcome with
  | refusals itemType size =>
      obtain ⟨n, -, rfl⟩ := List.mem_map.mp mem
      exact trivial
  | items itemType cursor values =>
      obtain ⟨step, -, rfl⟩ := List.mem_map.mp mem
      exact trivial
  | _ => cases mem

/-- The steps of the items of a list, each at its place. -/
theorem Position.mem_itemSteps {position : Position σ} {node : NodeId} {itemType : TypeRef}
    {cursor : DirectiveCursor σ} {step : Step σ} (values : List (ResolvedValue σ)) : ∀ first,
    step ∈ position.itemSteps node itemType cursor first values ↔
      ∃ n, ∃ bound : n < values.length, step =
        .item ⟨position.item node itemType (first + n), .runDirectives cursor values[n]⟩ := by
  induction values with
  | nil => intro first; simp [itemSteps]
  | cons value rest ih =>
      intro first
      rw [itemSteps, List.mem_cons, ih]
      constructor
      · rintro (rfl | ⟨n, bound, rfl⟩)
        · exact ⟨0, Nat.zero_lt_succ _, rfl⟩
        · refine ⟨n + 1, Nat.succ_lt_succ bound, ?_⟩
          rw [Nat.add_right_comm first 1 n]
          rfl
      · rintro ⟨n, bound, rfl⟩
        cases n with
        | zero => exact .inl rfl
        | succ n =>
            refine .inr ⟨n, Nat.lt_of_succ_lt_succ bound, ?_⟩
            rw [Nat.add_right_comm first 1 n]
            rfl

theorem Position.spots_itemSteps {position : Position σ} {list : NodeId} {itemType : TypeRef}
    {cursor : DirectiveCursor σ} (values : List (ResolvedValue σ)) : ∀ n,
    (position.itemSteps list itemType cursor n values).map Step.spot =
      (List.range' n values.length).map fun m => .slot list (.index m) := by
  induction values with
  | nil => intro n; rfl
  | cons value rest ih =>
      intro n
      simp only [itemSteps, List.map_cons, List.length_cons, List.range'_succ, ih]
      rfl

theorem Outcome.spots_below {position : Position σ} {list : NodeId} {outcome : Outcome σ}
    {size : Nat} (sized : outcome.size? = some size) :
    (outcome.below position list).map Task.spot = (Shape.list size).slots.map (.slot list) := by
  cases outcome with
  | refusals itemType count =>
      injection sized with sized
      subst sized
      simp [below, Shape.slots, Function.comp_def, Task.spot]
  | items itemType cursor values =>
      injection sized with sized
      subst sized
      have spots : (position.itemSteps list itemType cursor 0 values).map Step.spot = _ :=
        position.spots_itemSteps values 0
      rw [← List.range_eq_range'] at spots
      simpa [below, Shape.slots, Function.comp_def, Task.spot] using spots
  | _ => cases sized

theorem writes_nulls (list : NodeId) (nonNull : Bool) (size : Nat) : ∀ (start : Nat) (draft : Draft),
    Task.writes ((List.range' start size).map fun n =>
      (Task.written list (.index n) .null nonNull : Task σ)) draft =
      Draft.nullItems list nonNull start size draft := by
  induction size with
  | zero => intro start draft; rfl
  | succ size ih =>
      intro start draft
      rw [List.range'_succ, List.map_cons]
      exact ih (start + 1) _

/-- The values at the places of a list, and the steps. -/
theorem Outcome.draft_eq (position : Position σ) {outcome : Outcome σ} {size : Nat}
    (sized : outcome.size? = some size) (draft : Draft) :
    outcome.draft position draft =
        Task.writes (outcome.below position draft.nodes.size)
          (draft.newList position.parent position.key size position.nonNull).2 ∧
      outcome.steps position draft =
        (outcome.below position draft.nodes.size).filterMap Task.step? := by
  cases outcome with
  | refusals itemType count =>
      injection sized with sized
      subst sized
      constructor
      · show _ = Task.writes ((List.range count).map _) _
        rw [List.range_eq_range', writes_nulls]
        rfl
      · simp [steps, below, List.filterMap_map, Function.comp_def, Task.step?]
  | items itemType cursor values =>
      injection sized with sized
      subst sized
      constructor
      · have written : ∀ (items : List (Step σ)) (draft : Draft),
            Task.writes (items.map .awake) draft = draft := by
          intro items
          induction items with
          | nil => intro draft; rfl
          | cons item rest ih => intro draft; exact ih draft
        exact (written _ _).symm
      · simp [steps, below, List.filterMap_map, Function.comp_def, Task.step?]
  | _ => cases sized

theorem ObjectStep.spots_launched {step : ObjectStep σ} {type : ObjectType σ} {node : NodeId}
    {groups : Groups} {below : List (Task σ)} (launched : step.Launched job type node groups below) :
    below.map Task.spot = (Shape.object groups.keys).slots.map (.slot node) ∧
      ∀ t ∈ below, t.Fresh := by
  have one : ∀ {entry : String × FieldGroup} {task : Task σ},
      step.launched? job type node entry = some task →
      task.spot = .slot node (.field entry.1) ∧ task.Fresh := by
    intro entry task found
    unfold launched? at found
    split at found
    · injection found with found
      subst found
      exact ⟨rfl, trivial⟩
    · obtain ⟨field, -, rfl⟩ := Option.map_eq_some_iff.mp found
      exact ⟨rfl, trivial⟩
  induction launched with
  | nil => exact ⟨rfl, by simp⟩
  | @cons entry task groups below found _ ih =>
      constructor
      · rw [List.map_cons, (one found).1, ih.1]
        rfl
      · intro t mem
        rcases List.mem_cons.mp mem with rfl | mem
        · exact (one found).2
        · exact ih.2 t mem

/-- A null is written at each place of a list of refused items. -/
theorem Outcome.written_below {position : Position σ} {itemType : TypeRef} {size : Nat}
    {list : NodeId} {n : Nat} (bound : n < size) :
    Task.written list (.index n) .null itemType.isNonNull ∈
      (refusals itemType size : Outcome σ).below position list :=
  List.mem_map.mpr ⟨n, List.mem_range.mpr bound, rfl⟩

/-- A list of nulls that does not give way allows them. -/
theorem Shape.json_nulls {nonNull : Bool} {size : Nat} {verdicts : PathSegment → Verdict}
    (some_item : size ≠ 0) (null : ∀ n < size, verdicts (.index n) = .ofLeaf .null nonNull)
    (fine : ∀ n < size, verdicts (.index n) ≠ .invalid) :
    nonNull = false ∧ (Shape.list size).json verdicts = .array (List.replicate size .null) := by
  have allowed : nonNull = false := by
    have bound := Nat.pos_of_ne_zero some_item
    have valid := fine 0 bound
    rw [null 0 bound] at valid
    cases nonNull with
    | false => rfl
    | true => exact absurd rfl valid
  refine ⟨allowed, ?_⟩
  have shown : ∀ n ∈ List.range size, (verdicts (.index n)).json? = some Json.null := by
    intro n mem
    rw [null n (List.mem_range.mp mem), allowed]
    rfl
  unfold Shape.json
  simp only
  rw [List.filterMap_congr shown, List.filterMap_eq_map', List.map_const', List.length_range]

/-- What is launched is launched for the groups, each once. -/
theorem ObjectStep.launched_iff {step : ObjectStep σ} {type : ObjectType σ} {node : NodeId}
    {groups : Groups} {below : List (Task σ)} (launched : step.Launched job type node groups below) :
    (∀ entry ∈ groups, ∃ task ∈ below, step.launched? job type node entry = some task) ∧
      ∀ task ∈ below, ∃ entry ∈ groups, step.launched? job type node entry = some task := by
  induction launched with
  | nil => exact ⟨fun _ mem => absurd mem List.not_mem_nil, fun _ mem => absurd mem List.not_mem_nil⟩
  | cons found _ ih =>
      obtain ⟨forward, backward⟩ := ih
      constructor
      · intro entry mem
        rcases List.mem_cons.mp mem with rfl | mem
        · exact ⟨_, List.mem_cons_self, found⟩
        · obtain ⟨task, there, found⟩ := forward entry mem
          exact ⟨task, List.mem_cons_of_mem _ there, found⟩
      · intro task mem
        rcases List.mem_cons.mp mem with rfl | mem
        · exact ⟨_, List.mem_cons_self, found⟩
        · obtain ⟨entry, there, found⟩ := backward task mem
          exact ⟨entry, List.mem_cons_of_mem _ there, found⟩

/-! ### Transitions as moves -/

theorem Step.Due.spot {step : Step σ} {s t : Stage σ} {position : Position σ}
    {value : ResolvedValue σ} (due : step.Due job s position value t) :
    step.spot = .slot position.parent position.key := by
  cases due with
  | field _ _ => rfl
  | item _ => rfl
  | @object step position s t value target fails =>
      have early : step.Early := by
        apply ObjectStep.early_of_state
        cases fails with
        | mistyped state _ => rw [state]; rfl
        | refused state => rw [state]; rfl
        | unauthorized state _ => rw [state]; rfl
        | replaced state _ => rw [state]; rfl
      show step.spot = _
      rw [early, target]

theorem Step.Skips.spot {step : Step σ} {s t : Stage σ} {position : Position σ}
    (skips : step.Skips job s position t) :
    step.spot = .slot position.parent position.key := by
  cases skips with
  | field _ _ => rfl
  | item _ _ => rfl

def Task.Seated (draft : Draft) : Task σ → Prop
  | awake step => step.Seated draft
  | asleep step _ => step.Seated draft
  | called step _ => step.Seated draft
  | written _ _ _ _ => True

/-- What holds of the tasks of a run while it goes on. -/
structure Orderly (draft : Draft) (tasks : List (Task σ)) : Prop where
  tidy : Plan.Tidy Task.spot ⟨draft, tasks⟩
  anchored : Plan.Anchored Task.spot ⟨draft, tasks⟩
  seated : ∀ task ∈ tasks, task.Seated draft

/-- What is left to do after a transition: the step itself, if it goes on, and new steps. -/
def Progress.tasks (progress : Progress σ) (steps : List (Step σ)) : List (Task σ) :=
  progress.task?.toList ++ steps.map .awake

/-- A transition amounts to moves of the plan, with the steps that it adds. -/
def Realized (job : Job σ) (seen : Sight σ → Prop) (step : Step σ) (s t : Stage σ)
    (progress : Progress σ) (rest : List (Task σ)) : Prop :=
  ∃ steps, (t.run.ready ++ t.run.held).Perm (steps ++ (s.run.ready ++ s.run.held)) ∧
    Plan.Reaches Task.spot (Comes job seen) ⟨s.run.draft, .awake step :: rest⟩
      ⟨t.run.draft, progress.tasks steps ++ rest⟩ ∧
    ∀ task ∈ progress.tasks steps, task.Seated t.run.draft

variable {step : Step σ} {s t u : Stage σ} {progress : Progress σ} {rest : List (Task σ)}

theorem seated_none {draft : Draft} :
    ∀ task ∈ (Progress.finished : Progress σ).tasks [], task.Seated draft :=
  fun _ mem => absurd mem List.not_mem_nil

/-- The steps among tasks keep their seats. -/
theorem seated_steps {below : List (Task σ)} {draft : Draft}
    (seated : ∀ task ∈ below, task.Seated draft) :
    ∀ task ∈ (below.filterMap Task.step?).map Task.awake, task.Seated draft := by
  intro task mem
  obtain ⟨step, member, rfl⟩ := List.mem_map.mp mem
  obtain ⟨task, mem, found⟩ := List.mem_filterMap.mp member
  cases task with
  | awake step' =>
      injection found with found
      exact found ▸ seated _ mem
  | _ => cases found

theorem Outcome.seated_below {position : Position σ} {list : NodeId} {outcome : Outcome σ}
    {draft : Draft} : ∀ task ∈ outcome.below position list, task.Seated draft := by
  have items : ∀ (itemType : TypeRef) (cursor : DirectiveCursor σ)
      (values : List (ResolvedValue σ)) (n : Nat),
      ∀ step ∈ position.itemSteps list itemType cursor n values, step.Seated draft := by
    intro itemType cursor values
    induction values with
    | nil => intro n step mem; cases mem
    | cons value rest ih =>
        intro n step mem
        rcases List.mem_cons.mp mem with rfl | mem
        · exact trivial
        · exact ih _ step mem
  intro task mem
  cases outcome with
  | refusals itemType size =>
      obtain ⟨n, -, rfl⟩ := List.mem_map.mp mem
      exact trivial
  | items itemType cursor values =>
      obtain ⟨step, member, rfl⟩ := List.mem_map.mp mem
      exact items itemType cursor values 0 step member
  | _ => cases mem

theorem ObjectStep.seated_launched {step : ObjectStep σ} {type : ObjectType σ} {node : NodeId}
    {groups : Groups} {below : List (Task σ)} {draft : Draft}
    (launched : step.Launched job type node groups below) :
    ∀ task ∈ below, task.Seated draft := by
  induction launched with
  | nil => intro task mem; cases mem
  | cons found _ ih =>
      intro task mem
      rcases List.mem_cons.mp mem with rfl | mem
      · unfold launched? at found
        split at found
        · injection found with found
          exact found ▸ trivial
        · obtain ⟨field, -, rfl⟩ := Option.map_eq_some_iff.mp found
          exact trivial
      · exact ih task mem

theorem Realized.of_move {draft : Draft} {steps : List (Step σ)} {serial : Bool}
    (leaves : Leaves serial s t draft steps)
    (reaches : Plan.Reaches Task.spot (Comes job seen) ⟨s.run.draft, .awake step :: rest⟩
      ⟨draft, progress.tasks steps ++ rest⟩)
    (seated : ∀ task ∈ progress.tasks steps, task.Seated draft) :
    Realized job seen step s t progress rest :=
  ⟨steps, leaves.steps_perm, leaves.draft ▸ reaches, leaves.draft ▸ seated⟩

theorem Position.Completes.object_seated {position : Position σ} {value : ResolvedValue σ}
    {object : ObjectStep σ} (completes : position.Completes job s value (.object object))
    (draft : Draft) : (Step.object object).Seated draft := by
  cases completes with
  | @object value name type v subject _ _ _ _ _ _ _ =>
      intro node here
      cases type <;> cases here

theorem realized_completes {position : Position σ} {value : ResolvedValue σ}
    (gives : (step.advance job).Gives s progress t) (made : seen (.advanced step s)) (due : step.Due job s position value u) (same : SameTree s u)
    (alive : s.run.draft.Alive position.parent) (finishes : position.Finishes job u value t) :
    Realized job seen step s t .finished rest := by
  obtain ⟨outcome, completes, enters⟩ := finishes
  have completed : step.Completed job seen position u value outcome :=
    ⟨⟨s, progress, t, made, due, gives, enters.draft⟩, completes⟩
  have here : (Task.awake step).spot = .slot position.parent position.key := due.spot
  have leaves := Leaves.after_same same (.of_enters enters)
  rw [same.draft] at leaves
  have node : u.run.draft.nodes.size = s.run.draft.nodes.size := by rw [same.draft]
  cases sized : outcome.size? with
  | some size =>
      obtain ⟨draft_eq, steps_eq⟩ := Outcome.draft_eq position sized s.run.draft
      rw [draft_eq, steps_eq] at leaves
      have assembles : Plan.Assembles Task.spot (Comes job seen) (.awake step)
          (outcome.below position s.run.draft.nodes.size) (.list size)
          (.raise position.nonNull) := by
        constructor
        · exact fun task member invalid => .listNulled completed sized (node ▸ member) invalid
        · intro verdicts each
          refine .listed completed sized verdicts ?_ ?_
          · exact fun task member id key there => (each task (node ▸ member) id key there).1
          · exact fun task member id key there => (each task (node ▸ member) id key there).2
      exact .of_move leaves (.step
        (.openList here alive (outcome.spots_below sized) assembles)
        (reaches_writes _ _ rest Outcome.fresh_below)) (seated_steps Outcome.seated_below)
  | none =>
      cases outcome with
      | leaf written checked =>
          exact .of_move leaves (.step (.write here (.leaf completed)) (.refl _)) seated_none
      | omitted =>
          exact .of_move leaves (.step (.leaveOut here (.omitted completed)) (.refl _)) seated_none
      | refusals itemType size => cases sized
      | items itemType cursor values => cases sized
      | object object =>
          have there : (Task.awake (.object object)).spot = (Task.awake step).spot := by
            cases completes with
            | @object value name type v subject _ _ _ _ _ _ _ =>
                rw [here]
                cases type <;> rfl
          refine .of_move leaves (.step (.pass there fun v after => .object completed after)
            (.refl _)) fun task mem => ?_
          rw [List.mem_singleton.mp mem]
          exact completes.object_seated _

theorem Step.Due.alive {position : Position σ} {value : ResolvedValue σ} {draft : Draft}
    (due : step.Due job s position value t) (alive : step.isAlive draft = true) :
    draft.Alive position.parent := by
  cases due with
  | field _ _ => simpa [isAlive, Draft.Alive, FieldStep.position] using alive
  | item _ => simpa [isAlive, Draft.Alive] using alive
  | object target _ => simpa [isAlive, target, ObjectTarget.isAlive, Draft.Alive] using alive

/-- The node of an object that is still wanted is alive. -/
theorem Orderly.node_alive {step : ObjectStep σ} {draft : Draft} {node : NodeId}
    (orderly : Orderly draft (.awake (.object step) :: rest))
    (seated : (Step.object step).Seated draft) (here : step.state.node? = some node)
    (alive : step.target.isAlive draft = true) : draft.Alive node := by
  have there : (Task.awake (.object step)).spot = .node node := by
    show step.spot = _
    unfold ObjectStep.spot
    rw [here]
  refine orderly.anchored _ List.mem_cons_self node there fun parent key up => ?_
  have seat := seated node here
  cases target : step.target with
  | root =>
      rw [target] at seat
      subst seat
      exact absurd (orderly.tidy.wf_draft.rooted.above Draft.root parent key up)
        (Nat.not_lt_zero _)
  | child position =>
      rw [target] at seat alive
      rw [show draft.parent? node = some (position.parent, position.key) from seat] at up
      injection up with up
      injection up with up
      subst up
      simpa [ObjectTarget.isAlive, Draft.Alive] using alive

theorem realized_collects {step : ObjectStep σ} {type : ObjectType σ} {node : NodeId}
    {grouping : Grouping} {below : List (Task σ)} (made : seen (.advanced (.object step) s))
    (state : step.state = .collect type node)
    (grouped : ((step.grouper job type (s.run.draft.path node)).group step.selections).Gives s
      (.complete grouping) u)
    (same : SameTree s u) (launched : step.Launched job type node grouping.groups below)
    (leaves : Leaves step.serial u t
      (Task.writes below (u.run.draft.setKeys node grouping.groups.keys))
      (below.filterMap Task.step?))
    (alive : s.run.draft.Alive node) :
    Realized job seen (.object step) s t .finished rest := by
  have gathered : step.Gathered job seen type node s grouping.groups below :=
    ⟨made, state, ⟨grouping, u, rfl, grouped⟩, launched⟩
  have here : (Task.awake (.object step)).spot = .node node := by
    show step.spot = _
    unfold ObjectStep.spot
    rw [state]
    rfl
  have assembles : Plan.Assembles Task.spot (Comes job seen) (.awake (.object step)) below
      (.object grouping.groups.keys) fun verdict => verdict := by
    constructor
    · exact fun task member invalid => .gatheredNulled gathered member invalid
    · intro verdicts each
      refine .gathered gathered verdicts ?_ ?_
      · exact fun task member id key there => (each task member id key there).1
      · exact fun task member id key there => (each task member id key there).2
  rw [same.draft] at leaves
  obtain ⟨spots, fresh⟩ := step.spots_launched launched
  exact .of_move (.after_same same leaves) (.step
    (.fill here alive (Grouper.nodup_keys grouped) spots assembles)
    (reaches_writes _ _ rest fresh)) (seated_steps (step.seated_launched launched))

/-- A transition of a step amounts to moves of the plan. -/
theorem Step.Moves.realized (moves : step.Moves job s progress t)
    (gives : (step.advance job).Gives s progress t) (made : seen (.advanced step s))
    (alive : step.isAlive s.run.draft = true) (seated : step.Seated s.run.draft)
    (orderly : Orderly s.run.draft (.awake step :: rest)) :
    Realized job seen step s t progress rest := by
  cases moves with
  | @passes step next s t progress goes stays same =>
      have leaves := Leaves.of_enters (.of_same same)
      have seated := stays.seated seated
      cases progress with
      | again next' =>
          injection goes with goes
          subst goes
          have same_spot : (Task.awake next').spot = (Task.awake step).spot := stays.spot
          exact .of_move leaves (.step (.pass same_spot fun v after =>
            .passed made gives rfl stays rfl after) (.refl _)) fun task mem => by
              rw [List.mem_singleton.mp mem]
              exact seated
      | finished => cases goes
      | parked next' depth wait =>
          injection goes with goes
          subst goes
          have same_spot : (Task.asleep next' wait).spot = (Task.awake step).spot := stays.spot
          exact .of_move leaves (.step (.pass same_spot fun v after =>
            .passed made gives rfl stays rfl after) (.refl _)) fun task mem => by
              rw [List.mem_singleton.mp mem]
              exact seated
  | completes due same finishes =>
      exact realized_completes gives made due same (due.alive alive) finishes
  | @skips step s u t position skips same enters =>
      have leaves := Leaves.after_same same (.of_enters enters)
      rw [same.draft] at leaves
      exact .of_move leaves (.step (.leaveOut skips.spot (.skipped made skips)) (.refl _))
        seated_none
  | @allocates step s t type position state target enters =>
      have early : step.Early := ObjectStep.early_of_state (by rw [state]; rfl)
      have here : (Task.awake (.object step)).spot = .slot position.parent position.key := by
        show step.spot = _
        rw [early, target]
      have live : s.run.draft.Alive position.parent := by
        simpa [isAlive, target, ObjectTarget.isAlive, Draft.Alive] using alive
      refine .of_move (.of_enters enters) (.step (.openObject here live rfl fun v after =>
        .allocated made state target gives enters.draft after) (.refl _)) fun task mem => ?_
      rw [List.mem_singleton.mp mem]
      intro node is_new
      injection is_new with is_new
      subst is_new
      simp only [target]
      exact Draft.parent?_allocated
  | collects state grouped same launched leaves =>
      have live := orderly.node_alive seated (by rw [state]; rfl) alive
      exact realized_collects made state grouped same launched leaves live
  | fails target spot fails enters =>
      exact .of_move (.of_enters enters) (.step (.nullRoot spot (.rootFailed made target fails))
        (.refl _)) seated_none

end GraphExec
