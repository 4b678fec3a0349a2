import GraphExec.Proofs.Run.Log

/-!
# Nothing is reported twice

What is reported has an origin: what a position came to, the call of a resolver, the gathering of the
fields of an object, or the root object as a whole. A task may report of the origins that it may still
come to. Once an origin has been reported of no task may report of it any more, and no task that comes
up later may: tasks are left behind at their own spot, or at nodes that are new.
-/

namespace GraphExec

variable {σ : Type} {job : Job σ} {seen : Sight σ → Prop}

/-- Where reports come from. -/
inductive Origin where
  /-- What a position came to. -/
  | position (node : NodeId) (key : PathSegment)
  /-- The call of the resolver of a field. -/
  | resolver (node : NodeId) (key : PathSegment)
  /-- The gathering of the fields of an object. -/
  | gathering (node : NodeId)
  /-- The root object as a whole. -/
  | root
deriving DecidableEq

/-- The node that an origin is at. -/
def Origin.node : Origin → NodeId
  | position node _ => node
  | resolver node _ => node
  | gathering node => node
  | root => Draft.root

def Report.origin : Report → Origin
  | failed failure => .position failure.node failure.key
  | noted failure => .resolver failure.node failure.key
  | gathered node _ => .gathering node
  | refused _ => .root

/-- Whether the resolver of a field is still to be called. -/
def FieldState.uncalled : FieldState σ → Bool
  | resolved _ => false
  | awaitingValue => false
  | _ => true

def Step.uncalled : Step σ → Bool
  | field step => step.state.uncalled
  | _ => false

namespace Task

def uncalled : Task σ → Bool
  | awake step => step.uncalled
  | asleep step _ => step.uncalled
  | called step _ => step.uncalled
  | written _ _ _ _ => false

/-- A task may still come to report of an origin. -/
def MayTell (task : Task σ) : Origin → Prop
  | .position node key => task.spot = .slot node key ∨ task.spot = .node node
  | .resolver node key =>
    (task.spot = .slot node key ∧ task.uncalled = true) ∨ task.spot = .node node
  | .gathering node => task.spot = .node node
  | .root => task.spot = .node Draft.root

theorem MayTell.id {task : Task σ} {origin : Origin} (tells : task.MayTell origin) :
    task.spot.id = origin.node := by
  cases origin with
  | position node key => rcases tells with here | here <;> rw [here] <;> rfl
  | resolver node key => rcases tells with ⟨here, -⟩ | here <;> rw [here] <;> rfl
  | gathering node => rw [show task.spot = .node node from tells]; rfl
  | root => rw [show task.spot = .node Draft.root from tells]; rfl

/-- A task is what another one leaves behind: at its own spot, at a new node, or at a slot of the node
that it is at. -/
inductive From (before : Draft) (task next : Task σ) : Prop
  | here (spot : next.spot = task.spot) (later : next.uncalled = true → task.uncalled = true)
  | fresh (new : before.nodes.size ≤ next.spot.id)
  | below (node : NodeId) (key : PathSegment) (spot : task.spot = .node node)
      (there : next.spot = .slot node key)

/-- What a task may report of that is old, the one that left it behind might. -/
theorem From.tells {before : Draft} {task next : Task σ} (left : From before task next)
    {origin : Origin} (known : origin.node < before.nodes.size) (tells : next.MayTell origin) :
    task.MayTell origin := by
  cases left with
  | here spot later =>
      cases origin with
      | position node key => exact tells.imp (spot ▸ ·) (spot ▸ ·)
      | resolver node key =>
          exact tells.imp (fun both => ⟨spot ▸ both.1, later both.2⟩) (spot ▸ ·)
      | gathering node => exact (spot.symm.trans tells : task.spot = .node node)
      | root => exact (spot.symm.trans tells : task.spot = .node Draft.root)
  | fresh new =>
      rw [tells.id] at new
      exact absurd known (Nat.not_lt_of_le new)
  | below node key spot there =>
      cases origin with
      | position node' key' =>
          rcases tells with here | here
          · cases there.symm.trans here
            exact .inr spot
          · cases there.symm.trans here
      | resolver node' key' =>
          rcases tells with ⟨here, -⟩ | here
          · cases there.symm.trans here
            exact .inr spot
          · cases there.symm.trans here
      | gathering node' => cases there.symm.trans tells
      | root => cases there.symm.trans tells

end Task

/-! ### Transitions -/

open Engine

variable {step : Step σ} {s t u : Stage σ} {progress : Progress σ}

/-- A field whose resolver is still to be called has not called it. -/
theorem FieldStep.Way.uncalled {step next : FieldStep σ} (way : step.Way job s progress t)
    (goes : progress.next? = some (.field next)) (later : next.state.uncalled = true) :
    step.state.uncalled = true ∧ ∀ arguments, step.state ≠ .callResolver arguments := by
  have before {state : FieldState σ} (here : step.state = state)
      (uncalled : state.uncalled = true) (differs : ∀ arguments, state ≠ .callResolver arguments) :
      step.state.uncalled = true ∧ ∀ arguments, step.state ≠ .callResolver arguments := by
    rw [here]
    exact ⟨uncalled, differs⟩
  cases way with
  | directs state _ | passes state _ | skips state _ _ | stops state _ | awaits state _
  | finds state _ | asks state _ | takes state | fails state => exact before state rfl nofun
  | completes _ _ _ => cases goes
  -- From the call of the resolver on, what the field goes on with is no longer uncalled.
  | resolves _ _ | waits _ _ _ | replaces _ _ _ =>
      cases goes
      cases later

theorem FieldStep.advance_uncalled {step next : FieldStep σ}
    (gives : ((Step.field step).advance job).Gives s progress t)
    (goes : progress.next? = some (.field next)) (later : next.state.uncalled = true) :
    step.state.uncalled = true ∧ ∀ arguments, step.state ≠ .callResolver arguments := by
  cases Step.way gives with
  | dropped _ => cases goes
  | field _ way => exact way.uncalled goes later

theorem Step.advance_uncalled {next : Step σ} (gives : (step.advance job).Gives s progress t)
    (goes : progress.next? = some next) (stays : step.Stays job next)
    (later : next.uncalled = true) : step.uncalled = true := by
  cases stays with
  | field state => exact (FieldStep.advance_uncalled gives goes later).1
  | item state => cases later
  | object typed node => cases later
  | root state target => cases later

/-- What a step leaves behind when it goes on. -/
theorem Progress.task_of_next {next : Step σ} (goes : progress.next? = some next) :
    ∃ task, progress.task? = some task ∧ task.spot = next.spot ∧ task.uncalled = next.uncalled := by
  cases progress with
  | again step =>
      cases goes
      exact ⟨_, rfl, rfl, rfl⟩
  | finished => cases goes
  | parked step depth wait =>
      cases goes
      exact ⟨_, rfl, rfl, rfl⟩

/-- The steps that a transition adds; they and the step that goes on are what it leaves behind. -/
structure Step.Hands (step : Step σ) (s : Stage σ) (progress : Progress σ) (t : Stage σ)
    (steps : List (Step σ)) : Prop where
  perm : (t.run.ready ++ t.run.held).Perm (steps ++ (s.run.ready ++ s.run.held))
  left : ∀ task ∈ progress.tasks steps, Task.From s.run.draft (.awake step) task

theorem Progress.mem_tasks_finished {steps : List (Step σ)} {task : Task σ}
    (mem : task ∈ (Progress.finished : Progress σ).tasks steps) :
    ∃ step ∈ steps, task = .awake step := by
  obtain ⟨step, member, same⟩ := List.mem_map.mp mem
  exact ⟨step, member, same.symm⟩

/-- The steps that complete a position are at it, or at a new list. -/
theorem Position.Completes.from {position : Position σ} {value : ResolvedValue σ}
    {outcome : Outcome σ} (completes : position.Completes job u value outcome)
    (here : step.spot = .slot position.parent position.key) {draft : Draft} :
    ∀ next ∈ outcome.steps position draft, Task.From draft (.awake step) (.awake next) := by
  intro next mem
  cases outcome with
  | leaf value checked => cases mem
  | omitted => cases mem
  | refusals itemType size => cases mem
  | items itemType cursor values =>
      obtain ⟨n, bound, rfl⟩ := (Position.mem_itemSteps values 0).mp mem
      exact .fresh (Nat.le_refl _)
  | object object =>
      obtain rfl := List.mem_singleton.mp mem
      refine .here ?_ (fun later => by cases later)
      cases completes with
      | @object value name type v subject _ _ _ _ _ _ _ =>
          refine Eq.trans ?_ here.symm
          cases type <;> rfl

/-- The steps that are launched for an object are at slots of its node. -/
theorem ObjectStep.Launched.at_slot {step : ObjectStep σ} {type : ObjectType σ} {node : NodeId}
    {groups : Groups} {below : List (Task σ)} (launched : step.Launched job type node groups below) :
    ∀ next ∈ below.filterMap Task.step?, ∃ key, next.spot = .slot node key := by
  intro next mem
  obtain ⟨task, there, found⟩ := List.mem_filterMap.mp mem
  obtain ⟨spots, -⟩ := step.spots_launched launched
  have spot : task.spot ∈ (Shape.object groups.keys).slots.map (Spot.slot node) :=
    spots ▸ List.mem_map.mpr ⟨task, there, rfl⟩
  obtain ⟨key, -, at_key⟩ := List.mem_map.mp spot
  cases task with
  | awake step' =>
      cases found
      exact ⟨key, at_key.symm⟩
  | _ => cases found

theorem Step.advance_hands (gives : (step.advance job).Gives s progress t) :
    ∃ steps, step.Hands s progress t steps := by
  have none_left : ∀ task ∈ (Progress.finished : Progress σ).tasks [],
      Task.From s.run.draft (.awake step) task := fun task mem => absurd mem List.not_mem_nil
  have enters_perm {u : Stage σ} {draft : Draft} {steps : List (Step σ)} (same : SameTree s u)
      (enters : Enters u t draft steps) :
      (t.run.ready ++ t.run.held).Perm (steps ++ (s.run.ready ++ s.run.held)) :=
    (Leaves.after_same same (.of_enters enters)).steps_perm
  rcases step.advance_cases gives with ⟨-, rfl, rfl⟩ | ⟨-, moves⟩
  · exact ⟨[], .refl _, none_left⟩
  · cases moves with
    | @passes step next s t progress goes stays same =>
        obtain ⟨task, leaves, spot, uncalled⟩ := Progress.task_of_next goes
        refine ⟨[], enters_perm same (.of_same (.refl t)), fun other mem => ?_⟩
        have only : other = task := by
          simpa [Progress.tasks, leaves] using mem
        rw [only]
        refine .here (spot.trans stays.spot) fun later => ?_
        rw [uncalled] at later
        exact Step.advance_uncalled gives goes stays later
    | completes due same finishes =>
        obtain ⟨outcome, completes, enters⟩ := finishes
        refine ⟨_, enters_perm same enters, fun task mem => ?_⟩
        obtain ⟨next, member, rfl⟩ := Progress.mem_tasks_finished mem
        rw [← same.draft]
        exact completes.from due.spot next member
    | skips skips same enters => exact ⟨[], enters_perm same enters, none_left⟩
    | allocates state target enters =>
        refine ⟨[], enters_perm (.refl s) enters, fun task mem => ?_⟩
        rw [List.mem_singleton.mp mem]
        exact .fresh (Nat.le_refl _)
    | @collects step s u t type node grouping below state grouped same launched leaves =>
        refine ⟨_, (Leaves.after_same same leaves).steps_perm, fun task mem => ?_⟩
        obtain ⟨next, member, rfl⟩ := Progress.mem_tasks_finished mem
        obtain ⟨key, at_key⟩ := ObjectStep.Launched.at_slot launched next member
        exact .below node key (ObjectStep.spot_of_node (by rw [state]; rfl)) at_key
    | fails target spot fails enters => exact ⟨[], enters_perm (.refl s) enters, none_left⟩

/-! ### Origins of a transition -/

/-- What a transition reports is of what its step might report of, or of a new list. -/
theorem Step.Reports.origins {reports : List Report}
    (reported : step.Reports job s progress t reports) :
    ∀ report ∈ reports, (Task.awake step).MayTell report.origin ∨
      s.run.draft.nodes.size ≤ report.origin.node := by
  intro report mem
  cases reported with
  | dropped dead => cases mem
  | skipped skips => cases mem
  | goes goes other => cases mem
  | settled alive due same finishes fails =>
      obtain ⟨failure, failed, rfl⟩ := List.mem_map.mp mem
      cases fails.written with
      | mild none_failed _ =>
          subst none_failed
          cases failed
      | null _ here _ =>
          obtain ⟨node, key⟩ := here failure failed
          refine .inl (.inl ?_)
          rw [node, key]
          exact due.spot
      | places _ itemType size there _ =>
          obtain ⟨node, -⟩ := there failure failed
          refine .inr (Nat.le_of_eq ?_)
          rw [← same.draft]
          exact node.symm
  | collected alive state passes =>
      obtain ⟨error, -, rfl⟩ := List.mem_map.mp mem
      exact .inl (ObjectStep.spot_of_node (by rw [state]; rfl))
  | refused target fails _ =>
      obtain ⟨error, -, rfl⟩ := List.mem_map.mp mem
      exact .inl (fails.spot_root target)
  | resolved alive state notes =>
      obtain ⟨error, -, rfl⟩ := List.mem_map.mp mem
      refine .inl (.inl ⟨rfl, ?_⟩)
      show FieldState.uncalled _ = true
      rw [state]
      rfl

/-- Of what a transition reports no other task may report. -/
theorem Step.Reports.others {reports : List Report} {rest : List (Task σ)}
    (reported : step.Reports job s progress t reports)
    (orderly : Orderly s.run.draft (.awake step :: rest)) :
    ∀ report ∈ reports, ∀ task ∈ rest, ¬ task.MayTell report.origin := by
  intro report mem task other tells
  cases reported with
  | dropped dead => cases mem
  | skipped skips => cases mem
  | goes goes other => cases mem
  | settled alive due same finishes fails =>
      obtain ⟨failure, failed, rfl⟩ := List.mem_map.mp mem
      cases fails.written with
      | mild none_failed _ =>
          subst none_failed
          cases failed
      | null _ here _ =>
          obtain ⟨node, key⟩ := here failure failed
          obtain ⟨apart, above⟩ := orderly.tidy.alone due.spot alive other
          rcases tells with at_slot | at_node
          · exact apart (by rw [at_slot, node, key])
          · exact above (by rw [at_node, node])
      | places _ itemType size there _ =>
          obtain ⟨node, -⟩ := there failure failed
          have known := orderly.tidy.known task (List.mem_cons_of_mem _ other)
          rw [tells.id, show (Report.failed failure).origin.node = failure.node from rfl, node,
            same.draft] at known
          exact Nat.lt_irrefl _ known
  | @collected step s u t type node asked alive state passes =>
      obtain ⟨error, -, rfl⟩ := List.mem_map.mp mem
      have at_node : step.state.node? = some node := by rw [state]; rfl
      have here := ObjectStep.spot_of_node at_node
      have lives := orderly.node_alive (orderly.seated _ List.mem_cons_self) at_node alive
      exact orderly.tidy.differs (by rw [here]; exact lives) other (tells.trans here.symm)
  | refused target fails _ =>
      obtain ⟨error, -, rfl⟩ := List.mem_map.mp mem
      have here : (Task.awake (.object _)).spot = .node Draft.root := fails.spot_root target
      have alive := orderly.anchored.root_alive orderly.tidy List.mem_cons_self here
      exact orderly.tidy.differs (by rw [here]; exact alive) other (tells.trans here.symm)
  | @resolved step next s t arguments noted alive state notes =>
      obtain ⟨error, -, rfl⟩ := List.mem_map.mp mem
      have here : (Task.awake (.field step)).spot = .slot step.parent (.field step.key) := rfl
      obtain ⟨apart, above⟩ := orderly.tidy.alone here alive other
      rcases tells with ⟨there, -⟩ | there
      · exact apart there
      · exact above there

/-- A transition that leaves as many steps as there were adds none. -/
theorem Step.Hands.none_new {steps : List (Step σ)} (hands : step.Hands s progress t steps)
    (same : (t.run.ready ++ t.run.held).length = (s.run.ready ++ s.run.held).length) :
    steps = [] := by
  have length := hands.perm.length_eq
  simp only [List.length_append] at length same
  exact List.length_eq_zero_iff.mp (by omega)

/-- Once a transition has reported, what it leaves behind may not report of the same. -/
theorem Step.Hands.spent {steps : List (Step σ)} {reports : List Report}
    (hands : step.Hands s progress t steps) (gives : (step.advance job).Gives s progress t)
    (reported : step.Reports job s progress t reports) :
    ∀ report ∈ reports, ∀ task ∈ progress.tasks steps, ¬ task.MayTell report.origin := by
  intro report mem task left tells
  cases reported with
  | dropped dead => cases mem
  | skipped skips => cases mem
  | goes goes other => cases mem
  | settled alive due same finishes fails =>
      obtain ⟨failure, failed, rfl⟩ := List.mem_map.mp mem
      obtain ⟨outcome, completes, enters⟩ := finishes
      -- A position that has failed is written nulls, which leave nothing to be done below it.
      have empty : ∀ position draft, outcome.steps position draft = [] := by
        intro position draft
        cases fails.written with
        | mild none_failed _ =>
            subst none_failed
            cases failed
        | null _ _ only | places _ _ _ _ only =>
            rw [only outcome completes]
            rfl
      rw [empty] at enters
      have still := hands.none_new (by rw [enters.ready, enters.held, same.ready, same.held]; simp)
      rw [still] at left
      cases left
  | @collected step s u t type node asked alive state passes =>
      obtain ⟨error, -, rfl⟩ := List.mem_map.mp mem
      -- A pass leaves the fields of its object, which are at slots, while it has reported of the node.
      obtain ⟨next, member, rfl⟩ := Progress.mem_tasks_finished left
      have early : step.state.node? ≠ none := by rw [state]; intro absent; cases absent
      rcases Step.advance_cases gives with ⟨dead, -⟩ | ⟨-, moves⟩
      · exact absurd (dead.symm.trans alive) Bool.false_ne_true
      · cases moves with
        | passes goes stays same => cases goes
        | completes due same finishes =>
            cases due with
            | object target fails => exact early fails.no_node
        | skips skips same enters => cases skips
        | collects state' grouped same launched leaves =>
            cases state.symm.trans state'
            have both := hands.perm.symm.trans (Leaves.after_same same leaves).steps_perm
            have added := (List.perm_append_right_iff _).mp both
            obtain ⟨key, there⟩ := ObjectStep.Launched.at_slot launched next (added.mem_iff.mp member)
            cases there.symm.trans tells
        | fails target spot fails enters => exact early fails.no_node
  | @refused step s u t value errors target fails _ =>
      have still : steps = [] := by
        rcases Step.advance_cases gives with ⟨-, -, rfl⟩ | ⟨-, moves⟩
        · exact hands.none_new rfl
        · cases moves with
          | passes goes stays same => cases goes
          | completes due same finishes =>
              cases due with
              | object target' fails => cases target.symm.trans target'
          | skips skips same enters => cases skips
          | collects state grouped same launched leaves =>
              have early := fails.no_node
              rw [state] at early
              cases early
          | fails target spot fails enters =>
              exact hands.none_new (by rw [enters.ready, enters.held]; simp)
      rw [still] at left
      cases left
  | @resolved step next s t arguments noted alive state notes =>
      obtain ⟨error, -, rfl⟩ := List.mem_map.mp mem
      have still : steps = [] := by
        rcases Step.advance_cases gives with ⟨-, -, rfl⟩ | ⟨-, moves⟩
        · exact hands.none_new rfl
        · cases moves with
          | passes goes stays same => exact hands.none_new (by rw [same.ready, same.held])
      -- The step itself goes on, but it does not come to call its resolver again.
      rw [still] at left
      obtain rfl := List.mem_singleton.mp left
      rcases tells with ⟨-, later⟩ | there
      · exact (FieldStep.advance_uncalled gives rfl later).2 arguments state
      · cases there

/-! ### Runs -/

/-- A field that is resumed with its resolver still to be called had not called it before. -/
theorem Step.resume_uncalled {next : Step σ} {resumption : Resumption σ}
    (resumes : step.resume resumption = .ok next) (later : next.uncalled = true) :
    step.uncalled = true := by
  cases Step.resumed resumes with
  | @field step _ _ resumed =>
      show step.state.uncalled = true
      cases resumed with
      | directs state | arguments state =>
          rw [state]
          rfl
      | value => cases later
  | item => cases later
  | object => cases later

/-- The node of a report is there, and so is the root. -/
theorem Report.Upheld.known {report : Report} {draft : Draft} (upheld : report.Upheld draft)
    (rooted : draft.Rooted) : report.origin.node < draft.nodes.size := by
  cases report with
  | failed failure => exact upheld.1
  | noted failure => exact upheld
  | gathered node error => exact upheld
  | refused error =>
      obtain ⟨node, found, -⟩ := rooted.root
      exact (Array.getElem?_eq_some_iff.mp found).1

namespace Weave

variable {first second last weave : Weave σ} {log : List (Transition σ)} {origin : Origin}

/-- Nothing that is left to do may report of an origin. -/
def Spent (weave : Weave σ) (origin : Origin) : Prop :=
  ∀ task ∈ weave.tasks, ¬ task.MayTell origin

/-- What is left to do is as it was, but for one step that has stayed where it was. -/
theorem Spent.of_tasks (spent : first.Spent origin)
    (each : ∀ task ∈ last.tasks, ∃ before ∈ first.tasks, task.spot = before.spot ∧
      (task.uncalled = true → before.uncalled = true)) : last.Spent origin := by
  intro task mem tells
  obtain ⟨before, member, spot, later⟩ := each task mem
  refine spent before member ?_
  cases origin with
  | position node key => exact tells.imp (spot ▸ ·) (spot ▸ ·)
  | resolver node key => exact tells.imp (fun both => ⟨spot ▸ both.1, later both.2⟩) (spot ▸ ·)
  | gathering node => exact (spot.symm.trans tells : before.spot = .node node)
  | root => exact (spot.symm.trans tells : before.spot = .node Draft.root)

theorem Spent.of_swaps {task other : Task σ} (spent : first.Spent origin)
    (swaps : Swaps first last task other) (spot : other.spot = task.spot)
    (uncalled : other.uncalled = true → task.uncalled = true) : last.Spent origin := by
  refine spent.of_tasks fun t mem => ?_
  rcases swaps.left mem with rfl | mem
  · exact ⟨task, swaps.mem.1, spot, uncalled⟩
  · exact ⟨t, mem, rfl, id⟩

/-- What happens besides the transitions of steps leaves every step where it was. -/
theorem Move.spent {sight : Sight σ} (move : Move job first sight last)
    (other : ∀ step s, sight ≠ .advanced step s) (spent : first.Spent origin) :
    last.Spent origin := by
  cases move with
  | advance picked advanced => exact absurd rfl (other _ _)
  | @release step held idle top none_parked =>
      unfold Spent at spent ⊢
      rwa [tasks_release idle top]
  | wait picked polled =>
      exact spent.of_swaps (swaps_wait picked (Wait.sameTree_of_poll polled)) rfl id
  | answer picked polled =>
      exact spent.of_swaps (swaps_answer picked (Wait.sameTree_of_poll polled)) rfl id
  | @resume step next resumption others picked resumes =>
      have stays : step.Stays job next := Step.resume_stays resumes
      exact spent.of_swaps (swaps_resume picked) stays.spot (Step.resume_uncalled resumes)
  | change world => exact spent

/-- Two transitions report of different origins. -/
def Apart (one two : Transition σ) : Prop :=
  ∀ report ∈ one.reports, ∀ other ∈ two.reports, report.origin ≠ other.origin

/-- Nothing is left to do that may report of what a run has reported, and no origin has been reported of
by two transitions. -/
theorem Logs.apart (logs : Logs job seen first log last) (settled : first.Settled) :
    (∀ report ∈ reports log, last.Spent report.origin) ∧ log.Pairwise Apart := by
  induction logs with
  | refl => exact ⟨fun _ mem => absurd mem List.not_mem_nil, .nil⟩
  | @advance log second ready transition logs picked here allowed holds ih =>
      obtain ⟨spent, apart⟩ := ih
      obtain ⟨gives, reported, -⟩ := holds
      rw [here] at gives reported
      have between := (logs.path.leads settled).2
      have upheld := (logs.accounts settled).2
      have known : ∀ report ∈ reports log, report.origin.node < second.run.draft.nodes.size :=
        fun report mem => (upheld report mem).known between.tidy.wf.rooted
      have orderly := between.perm (tasks_picked picked)
      obtain ⟨steps, hands⟩ := Step.advance_hands gives
      have after := tasks_place hands.perm transition.progress
      have step_there : Task.awake transition.step ∈ second.tasks :=
        (tasks_picked picked).mem_iff.mpr List.mem_cons_self
      constructor
      · rw [reports_append]
        intro report mem task left tells
        rcases List.mem_append.mp mem with old | new
        · rcases List.mem_append.mp (after.mem_iff.mp left) with fresh | kept
          · exact spent report old _ step_there ((hands.left task fresh).tells (known report old) tells)
          · exact spent report old task
              ((tasks_picked picked).mem_iff.mpr (List.mem_cons_of_mem _ kept)) tells
        · rcases List.mem_append.mp (after.mem_iff.mp left) with fresh | kept
          · exact hands.spent gives reported report new task fresh tells
          · exact reported.others orderly report new task kept tells
      · refine List.pairwise_append.mpr ⟨apart, List.pairwise_singleton _ _, ?_⟩
        intro one mem two only report there other new same
        obtain rfl := List.mem_singleton.mp only
        have old : report ∈ reports log := List.mem_flatMap.mpr ⟨one, mem, there⟩
        rcases reported.origins other new with tells | fresh
        · exact spent report old _ step_there (same ▸ tells)
        · rw [← same] at fresh
          exact Nat.not_lt_of_le fresh (known report old)
  | aside logs allowed move other ih =>
      obtain ⟨spent, apart⟩ := ih
      exact ⟨fun report mem => move.spent other (spent report mem), apart⟩

end Weave

end GraphExec
