import GraphExec.Proofs.Draft.Lawful
import GraphExec.Proofs.Run.Course
import GraphExec.Proofs.Run.Effects

/-!
# Objects that may be shown

The hook of an object type is asked, for the value at hand, whether an object may be shown in a
place. It may answer at once, or with a lazy answer that is polled until it is there. Only when it
has answered true is the object allocated and are its selections collected, and every field and item
stems from an object of which that holds. This is kept by every move of a run.
-/

namespace GraphExec

open Engine

variable {σ : Type} {job : Job σ} {seen : Sight σ → Prop}

/-! ### What the hook of a type answers -/

/-- An object type is one of a schema. -/
def Schema.Lists (schema : Schema σ) (type : ObjectType σ) : Prop :=
  ∃ name, schema.objectType? name = some type

theorem Schema.lists_rootType? {schema : Schema σ} {kind : OperationKind} {type : ObjectType σ}
    (root : schema.rootType? kind = some type) : schema.Lists type := by
  cases kind with
  | query => exact ⟨_, root⟩
  | mutation | subscription =>
      obtain ⟨name, -, known⟩ := Option.bind_eq_some_iff.mp root
      exact ⟨name, known⟩

/-- What is to be shown in a place as an object of a type. -/
structure Candidate (σ : Type) where
  target : ObjectTarget σ
  subject : Subject
  type : ObjectType σ

def ObjectStep.candidate (step : ObjectStep σ) (type : ObjectType σ) : Candidate σ :=
  ⟨step.target, step.subject, type⟩

namespace Candidate

variable {candidate : Candidate σ}

/-- The hook of the type has been called for the value, on the way of building the object in its
place, and this is what it returned. -/
inductive Asked (job : Job σ) (seen : Sight σ → Prop) (candidate : Candidate σ) :
    Answer σ ResolverError Bool → Prop
  | call {step : ObjectStep σ} {s : Stage σ}
      {authorize : AppValue → QueryContext → Action σ (Answer σ ResolverError Bool)}
      (made : seen (.advanced (.object step) s)) (wanted : step.target.isAlive s.run.draft = true)
      (state : step.state = .authorize candidate.type)
      (same : step.candidate candidate.type = candidate)
      (known : job.schema.Lists candidate.type)
      (hook : candidate.type.authorize? = some authorize) :
      Asked job seen candidate ((authorize candidate.subject.value job.query).run
        (s.world.tell (.beginAuthorized candidate.type.name))).1

/-- What the polls have left of a lazy answer of the hook. -/
inductive Left (job : Job σ) (seen : Sight σ → Prop) (candidate : Candidate σ) :
    Pending σ (Except ResolverError Bool) → Prop
  | start {lazy : Lazy σ (Except ResolverError Bool)}
      (asked : candidate.Asked job seen (.later lazy)) : Left job seen candidate (.start lazy)
  | polled {rest next : Pending σ (Except ResolverError Bool)} {s : Stage σ}
      (left : Left job seen candidate rest) (heard : seen (.polled (.authorization rest) s))
      (goes_on : (rest.poll.run s.world).1 = .pending next) : Left job seen candidate next

/-- What the hook has answered, at once or in the end. -/
inductive Answered (job : Job σ) (seen : Sight σ → Prop) (candidate : Candidate σ) :
    Except ResolverError Bool → Prop
  | at_once {allowed : Bool} (asked : candidate.Asked job seen (.ready allowed)) :
      Answered job seen candidate (.ok allowed)
  | later {rest : Pending σ (Except ResolverError Bool)} {result : Except ResolverError Bool}
      {s : Stage σ} (left : candidate.Left job seen rest)
      (heard : seen (.polled (.authorization rest) s))
      (answers : (rest.poll.run s.world).1 = .ready result) : Answered job seen candidate result

/-- The object may be shown: there is no hook to ask, or it has answered true. -/
def Cleared (job : Job σ) (seen : Sight σ → Prop) (candidate : Candidate σ) : Prop :=
  job.schema.Lists candidate.type ∧
    (candidate.type.authorize? = none ∨ candidate.Answered job seen (.ok true))

theorem Asked.known {answer : Answer σ ResolverError Bool}
    (asked : candidate.Asked job seen answer) : job.schema.Lists candidate.type := by
  cases asked with
  | call _ _ _ _ known _ => exact known

theorem Left.known {rest : Pending σ (Except ResolverError Bool)}
    (left : candidate.Left job seen rest) : job.schema.Lists candidate.type := by
  induction left with
  | start asked => exact asked.known
  | polled _ _ _ ih => exact ih

theorem Answered.known {result : Except ResolverError Bool}
    (answered : candidate.Answered job seen result) : job.schema.Lists candidate.type := by
  cases answered with
  | at_once asked => exact asked.known
  | later left _ _ => exact left.known

end Candidate

/-! ### Steps on the way of an object -/

/-- A node of a draft is where an object is built. -/
def ObjectTarget.At (target : ObjectTarget σ) (draft : Draft) (node : NodeId) : Prop :=
  match target with
  | .root => node = Draft.root
  | .child position => draft.parent? node = some (position.parent, position.key)

theorem ObjectTarget.At.grows {target : ObjectTarget σ} {before after : Draft} {node : NodeId}
    (here : target.At before node) (grows : before.Grows after) : target.At after node := by
  cases target with
  | root => exact here
  | child position => exact (grows.parent node (Draft.lt_size_of_parent? here)).trans here

/-- A field belongs to an object at a node that may be shown. -/
structure FieldSite.Shown (job : Job σ) (seen : Sight σ → Prop) (draft : Draft)
    (site : FieldSite σ) (node : NodeId) (candidate : Candidate σ) : Prop where
  place : candidate.target.At draft node
  owner : site.owner = candidate.subject
  typeName : site.typeName = candidate.type.name
  field : Fields.get? candidate.type.fields site.group.first.name = some site.field
  cleared : candidate.Cleared job seen

theorem FieldSite.Shown.grows {before after : Draft} {site : FieldSite σ} {node : NodeId}
    {candidate : Candidate σ} (shown : site.Shown job seen before node candidate)
    (grows : before.Grows after) : site.Shown job seen after node candidate :=
  { shown with place := shown.place.grows grows }

theorem Draft.Below.grows {before after : Draft} {top id : NodeId} (below : before.Below top id)
    (grows : before.Grows after) : after.Below top id := by
  induction below with
  | refl => exact .refl
  | up step _ ih => exact .up ((grows.parent _ (Draft.lt_size_of_parent? step)).trans step) ih

/-- A field belongs to an object that may be shown, and the object stands above a node, or there. -/
def FieldSite.Belongs (job : Job σ) (seen : Sight σ → Prop) (draft : Draft) (site : FieldSite σ)
    (id : NodeId) : Prop :=
  ∃ node candidate, site.Shown job seen draft node candidate ∧ draft.Below node id

theorem FieldSite.Belongs.grows {before after : Draft} {site : FieldSite σ} {id : NodeId}
    (belongs : site.Belongs job seen before id) (grows : before.Grows after) :
    site.Belongs job seen after id := by
  obtain ⟨node, candidate, shown, below⟩ := belongs
  exact ⟨node, candidate, shown.grows grows, below.grows grows⟩

/-- An object that is allocated, or about to be, may be shown. -/
def ObjectStep.Cleared (job : Job σ) (seen : Sight σ → Prop) (step : ObjectStep σ) : Prop :=
  match step.state with
  | .authorize type => job.schema.Lists type
  | .authorized type result => (step.candidate type).Answered job seen result
  | .allocate type => (step.candidate type).Cleared job seen
  | .collect type _ => (step.candidate type).Cleared job seen
  | .awaitingArguments type _ => (step.candidate type).Cleared job seen
  | _ => True

/-- A step that is no root object belongs to a field of an object that may be shown. -/
def Step.Cleared (job : Job σ) (seen : Sight σ → Prop) (draft : Draft) : Step σ → Prop
  | .object step => step.Cleared job seen ∧
      ∀ position, step.target = .child position →
        position.site.Belongs job seen draft position.parent
  | .field step => ∃ candidate, step.site.Shown job seen draft step.parent candidate
  | .item step => step.position.site.Belongs job seen draft step.position.parent

theorem Step.Cleared.grows {before after : Draft} {step : Step σ}
    (cleared : step.Cleared job seen before) (grows : before.Grows after) :
    step.Cleared job seen after := by
  cases step with
  | object step =>
      exact ⟨cleared.1, fun position target => (cleared.2 position target).grows grows⟩
  | field step =>
      obtain ⟨candidate, shown⟩ := cleared
      exact ⟨candidate, shown.grows grows⟩
  | item step => exact FieldSite.Belongs.grows cleared grows

namespace Task

/-- An object that waits to be authorized does so for what is left of the answer of its hook, and
when it is called, that has answered. -/
def Cleared (job : Job σ) (seen : Sight σ → Prop) (draft : Draft) : Task σ → Prop
  | awake step => step.Cleared job seen draft
  | asleep step wait => step.Cleared job seen draft ∧ ∀ object type rest, step = .object object →
      object.state = .awaitingAuthorization type → wait = .authorization rest →
      (object.candidate type).Left job seen rest
  | called step resumption => step.Cleared job seen draft ∧ ∀ object type result,
      step = .object object → object.state = .awaitingAuthorization type →
      resumption = .authorization result → (object.candidate type).Answered job seen result
  | written _ _ _ _ => True

theorem Cleared.grows {before after : Draft} {task : Task σ}
    (cleared : task.Cleared job seen before) (grows : before.Grows after) :
    task.Cleared job seen after := by
  cases task with
  | awake step => exact Step.Cleared.grows cleared grows
  | asleep step wait => exact ⟨Step.Cleared.grows cleared.1 grows, cleared.2⟩
  | called step resumption => exact ⟨Step.Cleared.grows cleared.1 grows, cleared.2⟩
  | written node key value nonNull => trivial

end Task

/-! ### Polls -/

namespace Wait

theorem pollBy_ready {α : Type} {rest : Pending σ α} {answer : α → Resumption σ}
    {wait : Pending σ α → Wait σ} {s t : Stage σ} {resumption : Resumption σ}
    (polls : pollBy rest answer wait s = (.ready resumption, t)) :
    ∃ result, resumption = answer result ∧ (rest.poll.run s.world).1 = .ready result := by
  unfold pollBy at polls
  split at polls
  · rename_i result world polled
    injection polls with polls
    injection polls with polls
    exact ⟨result, polls.symm, congrArg Prod.fst polled⟩
  · cases polls

theorem pollBy_pending {α : Type} {rest : Pending σ α} {answer : α → Resumption σ}
    {wait : Pending σ α → Wait σ} {s t : Stage σ} {left : Wait σ}
    (polls : pollBy rest answer wait s = (.pending left, t)) :
    ∃ next, left = wait next ∧ (rest.poll.run s.world).1 = .pending next := by
  unfold pollBy at polls
  split at polls
  · cases polls
  · rename_i next world polled
    injection polls with polls
    injection polls with polls
    exact ⟨next, polls.symm, congrArg Prod.fst polled⟩

variable {wait : Wait σ} {s t : Stage σ}

/-- A poll leaves an authorization to be waited for only of one. -/
theorem poll_authorization_pending {next : Pending σ (Except ResolverError Bool)}
    (polls : wait.poll s = (.pending (.authorization next), t)) :
    ∃ rest, wait = .authorization rest ∧ (rest.poll.run s.world).1 = .pending next := by
  cases wait with
  | authorization rest =>
      obtain ⟨other, same, goes_on⟩ := pollBy_pending polls
      injection same with same
      exact ⟨rest, rfl, same ▸ goes_on⟩
  | arguments key =>
      have bag : pollBag key s = _ := polls
      unfold pollBag at bag
      split at bag
      · cases bag
      · dsimp only at bag
        split at bag
        split at bag <;> cases bag
  | value rest =>
      obtain ⟨other, same, -⟩ := pollBy_pending polls
      cases same
  | type rest =>
      obtain ⟨other, same, -⟩ := pollBy_pending polls
      cases same
  | directive rest =>
      obtain ⟨other, same, -⟩ := pollBy_pending polls
      cases same

/-- A poll answers an authorization only for one that is waited for. -/
theorem poll_authorization_ready {result : Except ResolverError Bool}
    (polls : wait.poll s = (.ready (.authorization result), t)) :
    ∃ rest, wait = .authorization rest ∧ (rest.poll.run s.world).1 = .ready result := by
  cases wait with
  | authorization rest =>
      obtain ⟨other, same, answers⟩ := pollBy_ready polls
      injection same with same
      exact ⟨rest, rfl, same ▸ answers⟩
  | arguments key =>
      have bag : pollBag key s = _ := polls
      unfold pollBag at bag
      split at bag
      · cases bag
      · dsimp only at bag
        split at bag
        split at bag <;> cases bag
  | value rest =>
      obtain ⟨other, same, -⟩ := pollBy_ready polls
      cases same
  | type rest =>
      obtain ⟨other, same, -⟩ := pollBy_ready polls
      cases same
  | directive rest =>
      obtain ⟨other, same, -⟩ := pollBy_ready polls
      cases same

end Wait

namespace Task.Cleared

variable {draft : Draft} {step : Step σ} {wait : Wait σ} {s t : Stage σ}

theorem polled {rest : Wait σ} (cleared : (Task.asleep step wait).Cleared job seen draft)
    (heard : seen (.polled wait s)) (polls : wait.poll s = (.pending rest, t)) :
    (Task.asleep step rest).Cleared job seen draft := by
  refine ⟨cleared.1, fun object type next one state same => ?_⟩
  subst same
  obtain ⟨before, rfl, goes_on⟩ := Wait.poll_authorization_pending polls
  exact .polled (cleared.2 object type before one state rfl) heard goes_on

theorem answered {resumption : Resumption σ}
    (cleared : (Task.asleep step wait).Cleared job seen draft) (heard : seen (.polled wait s))
    (polls : wait.poll s = (.ready resumption, t)) :
    (Task.called step resumption).Cleared job seen draft := by
  refine ⟨cleared.1, fun object type result one state same => ?_⟩
  subst same
  obtain ⟨before, rfl, answers⟩ := Wait.poll_authorization_ready polls
  exact .later (cleared.2 object type before one state rfl) heard answers

end Task.Cleared

/-! ### Transitions of objects -/

namespace ObjectStep

variable {step : ObjectStep σ} {s t : Stage σ} {progress : Progress σ} {draft : Draft}

/-- What a step goes on with is cleared. -/
def Clears (job : Job σ) (seen : Sight σ → Prop) (draft : Draft) (progress : Progress σ) : Prop :=
  ∀ task, progress.task? = some task → task.Cleared job seen draft

theorem clears_finished : Clears job seen draft (.finished : Progress σ) :=
  fun _ goes => by cases goes

section
variable (placed : ∀ position, step.target = .child position →
  position.site.Belongs job seen draft position.parent)
include placed

theorem clears_goTo {state : ObjectState σ}
    (cleared : Cleared job seen { step with state }) : Clears job seen draft (step.goTo state) := by
  intro task goes
  injection goes with goes
  subst goes
  exact ⟨cleared, placed⟩

theorem clears_parkedAt {state : ObjectState σ} {wait : Wait σ}
    (cleared : Cleared job seen { step with state })
    (waits : ∀ type rest, state = .awaitingAuthorization type → wait = .authorization rest →
      (step.candidate type).Left job seen rest) :
    Clears job seen draft (step.parkedAt state wait s) := by
  intro task goes
  injection goes with goes
  subst goes
  refine ⟨⟨cleared, placed⟩, ?_⟩
  intro object type rest one state' same
  injection one with one
  subst one
  exact waits type rest state' same

/-- What an object gives way to is not shown as it is. -/
theorem GivesWay.clears {value : ResolvedValue σ} (way : step.GivesWay job value s progress t) :
    Clears job seen draft progress := by
  cases way with
  | root _ _ | completes _ _ => exact clears_finished
  | waits _ _ => exact clears_parkedAt placed trivial nofun
  | replaces _ _ => exact clears_goTo placed trivial

theorem Way.clears (cleared : step.Cleared job seen) (made : seen (.advanced (.object step) s))
    (alive : step.target.isAlive s.run.draft = true) (way : step.Way job s progress t) :
    Clears job seen draft progress := by
  have asked {type : ObjectType σ} {answer : Answer σ ResolverError Bool} {u : Stage σ}
      {authorize : AppValue → QueryContext → Action σ (Answer σ ResolverError Bool)}
      (state : step.state = .authorize type) (hook : type.authorize? = some authorize)
      (known : job.schema.Lists type)
      (answered : (call (authorize step.subject.value job.query)).Gives
        ⟨s.run, s.world.tell (.beginAuthorized type.name)⟩ answer u) :
      (step.candidate type).Asked job seen answer := by
    rw [← (gives_call.mp answered).1]
    exact .call made alive state rfl known hook
  unfold Cleared at cleared
  cases way with
  | types _ _ => exact clears_goTo placed trivial
  | asksType _ _ => exact clears_parkedAt placed trivial nofun
  | takesType _ possible =>
      exact clears_goTo placed ⟨_, (Option.filter_eq_some_iff.mp possible).1⟩
  | permits state no_hook =>
      rw [state] at cleared
      exact clears_goTo placed ⟨cleared, .inl no_hook⟩
  | decides state hook answered =>
      rw [state] at cleared
      exact clears_goTo placed (.at_once (asked state hook cleared answered))
  | asksPermission state hook answered =>
      rw [state] at cleared
      refine clears_parkedAt placed trivial fun other rest waits same => ?_
      injection waits with waits
      injection same with same
      subst waits same
      exact .start (asked state hook cleared answered)
  | allows state =>
      rw [state] at cleared
      exact clears_goTo placed ⟨cleared.known, .inr cleared⟩
  | fails _ gives_way => exact gives_way.clears placed
  | allocates state _ =>
      rw [state] at cleared
      exact clears_goTo placed cleared
  | asks state _ =>
      rw [state] at cleared
      exact clears_parkedAt placed cleared nofun
  | collects _ _ _ => exact clears_finished

/-- Nothing but the answer of the hook lets an object pass from being asked for to being there. -/
theorem advance_clears (cleared : step.Cleared job seen) (made : seen (.advanced (.object step) s))
    (h : (Step.advance (.object step) job).Gives s progress t) : Clears job seen draft progress := by
  cases Step.way h with
  | dropped _ => exact clears_finished
  | object alive way => exact way.clears placed cleared made alive

end

/-- An object that is called goes on as what it was called with says. -/
theorem Resumed.cleared {next : ObjectStep σ} {resumption : Resumption σ}
    (resumed : step.Resumed resumption next)
    (cleared : (Task.called (.object step) resumption).Cleared job seen draft) :
    next.Cleared job seen := by
  obtain ⟨itself, answered⟩ := cleared
  cases resumed with
  | type | value => trivial
  | authorization state => exact answered step _ _ rfl state rfl
  | arguments state =>
      have waiting : step.Cleared job seen := itself.1
      unfold Cleared at waiting
      rw [state] at waiting
      exact waiting

end ObjectStep

/-! ### Transitions of steps -/

namespace Step

variable {step next : Step σ} {s t : Stage σ} {progress : Progress σ} {draft : Draft}

/-- A transition that completes a position does so for a field of an object that may be shown. -/
theorem Due.belongs {position : Position σ} {value : ResolvedValue σ} {u : Stage σ}
    (due : step.Due job s position value u) (cleared : step.Cleared job seen draft) :
    position.site.Belongs job seen draft position.parent := by
  cases due with
  | field state settled =>
      obtain ⟨candidate, shown⟩ := cleared
      exact ⟨_, candidate, shown, .refl⟩
  | item state => exact cleared
  | object target fails => exact cleared.2 _ target

/-- The steps that complete a position belong to the field that it belongs to. -/
theorem cleared_of_completes {position : Position σ} {value : ResolvedValue σ} {outcome : Outcome σ}
    {u : Stage σ} (completes : position.Completes job u value outcome)
    (belongs : position.site.Belongs job seen draft position.parent) {before : Draft}
    (left : draft = outcome.draft position before) :
    ∀ next ∈ outcome.steps position before, next.Cleared job seen draft := by
  intro next mem
  cases outcome with
  | leaf value checked => cases mem
  | omitted => cases mem
  | refusals itemType size => cases mem
  | items itemType cursor values =>
      obtain ⟨n, bound, rfl⟩ := (Position.mem_itemSteps values 0).mp mem
      obtain ⟨node, candidate, shown, below⟩ := belongs
      have hangs : draft.parent? before.nodes.size = some (position.parent, position.key) := by
        rw [left]
        exact Draft.parent?_allocated
      exact ⟨node, candidate, shown, .up hangs below⟩
  | object object =>
      obtain rfl := List.mem_singleton.mp mem
      cases completes with
      | @object value name type v subject _ _ _ _ _ _ _ =>
          refine ⟨?_, fun other target => ?_⟩
          · cases type with
            | object type => exact ⟨name, by simp [Schema.objectType?, ‹job.schema.type? name = _›]⟩
            | _ => trivial
          · injection target with target
            exact target ▸ belongs

/-- The fields that are launched for an object belong to it. -/
theorem cleared_of_launched {object : ObjectStep σ} {type : ObjectType σ} {node : NodeId}
    {groups : Groups} {below : List (Task σ)} (launched : object.Launched job type node groups below)
    (place : object.target.At draft node) (cleared : (object.candidate type).Cleared job seen) :
    ∀ next ∈ below.filterMap Task.step?, next.Cleared job seen draft := by
  intro next mem
  obtain ⟨task, there, found⟩ := List.mem_filterMap.mp mem
  obtain ⟨entry, -, same⟩ := (ObjectStep.launched_iff launched).2 task there
  rcases ObjectStep.launched?_eq same with ⟨-, rfl⟩ | ⟨-, field, known, rfl⟩
  · cases found
  · injection found with found
    subst found
    exact ⟨object.candidate type, place, rfl, rfl, known, cleared⟩

/-- What a field or an item goes on with, at once or after a wait. -/
theorem Stays.cleared_task (stays : step.Stays job next) (goes : progress.next? = some next)
    (cleared : step.Cleared job seen draft) (no_object : ∀ object, step ≠ .object object) :
    ∀ task, progress.task? = some task → task.Cleared job seen draft := by
  have same : next.Cleared job seen draft ∧ ∀ object, next ≠ .object object := by
    cases stays with
    | field state => exact ⟨cleared, fun _ other => by cases other⟩
    | item state => exact ⟨cleared, fun _ other => by cases other⟩
    | object _ _ => exact absurd rfl (no_object _)
    | root _ _ => exact absurd rfl (no_object _)
  intro task there
  cases progress with
  | again other =>
      injection goes with goes
      injection there with there
      subst goes there
      exact same.1
  | finished => cases goes
  | parked other depth wait =>
      injection goes with goes
      injection there with there
      subst goes there
      exact ⟨same.1, fun object _ _ one => absurd one (same.2 object)⟩

theorem advance_clears (cleared : step.Cleared job seen draft) (made : seen (.advanced step s))
    (gives : (step.advance job).Gives s progress t) :
    ∀ task, progress.task? = some task → task.Cleared job seen draft := by
  have by_move (no_object : ∀ object, step ≠ .object object) :
      ∀ task, progress.task? = some task → task.Cleared job seen draft := by
    intro task there
    rcases step.advance_cases gives with ⟨-, rfl, -⟩ | ⟨-, moves⟩
    · cases there
    · cases moves with
      | passes goes stays same => exact stays.cleared_task goes cleared no_object task there
      | completes due same finishes => cases there
      | skips skips same enters => cases there
      | allocates state target enters => exact absurd rfl (no_object _)
      | collects state grouped same launched leaves => cases there
      | fails target spot fails enters => cases there
  cases step with
  | object object => exact ObjectStep.advance_clears cleared.2 cleared.1 made gives
  | field field => exact by_move fun _ other => by cases other
  | item item => exact by_move fun _ other => by cases other

/-- Whatever a transition leaves to be done belongs to objects that may be shown. -/
theorem advance_cleared (cleared : step.Cleared job seen s.run.draft)
    (seated : step.Seated s.run.draft) (made : seen (.advanced step s))
    (gives : (step.advance job).Gives s progress t) (grows : s.run.draft.Grows t.run.draft) :
    ∃ steps, (t.run.ready ++ t.run.held).Perm (steps ++ (s.run.ready ++ s.run.held)) ∧
      ∀ task ∈ progress.tasks steps, task.Cleared job seen t.run.draft := by
  have passes := advance_clears (cleared.grows grows) made gives
  have leaves {steps : List (Step σ)}
      (each : ∀ next ∈ steps, next.Cleared job seen t.run.draft) :
      ∀ task ∈ progress.tasks steps, task.Cleared job seen t.run.draft := by
    intro task mem
    rcases List.mem_append.mp mem with own | added
    · exact passes task (Option.mem_toList.mp own)
    · obtain ⟨next, member, rfl⟩ := List.mem_map.mp added
      exact each next member
  have none_added : ∀ next ∈ ([] : List (Step σ)), next.Cleared job seen t.run.draft :=
    fun _ mem => absurd mem List.not_mem_nil
  have enters_perm {u : Stage σ} {draft : Draft} {steps : List (Step σ)} (same : SameTree s u)
      (enters : Enters u t draft steps) :
      (t.run.ready ++ t.run.held).Perm (steps ++ (s.run.ready ++ s.run.held)) :=
    (Leaves.after_same same (.of_enters enters)).steps_perm
  rcases step.advance_cases gives with ⟨-, rfl, rfl⟩ | ⟨-, moves⟩
  · exact ⟨[], .refl _, leaves none_added⟩
  · cases moves with
    | passes goes stays same => exact ⟨[], enters_perm same (.of_same (.refl t)), leaves none_added⟩
    | completes due same finishes =>
        obtain ⟨outcome, completes, enters⟩ := finishes
        have belongs := due.belongs (cleared.grows grows)
        exact ⟨_, enters_perm same enters, leaves (cleared_of_completes completes belongs enters.draft)⟩
    | skips skips same enters => exact ⟨[], enters_perm same enters, leaves none_added⟩
    | allocates state target enters =>
        exact ⟨[], enters_perm (.refl s) enters, leaves none_added⟩
    | @collects object s u t type node grouping below state grouped same launched left =>
        have shown := cleared.1
        unfold ObjectStep.Cleared at shown
        rw [state] at shown
        have place : object.target.At s.run.draft node := seated node (by rw [state]; rfl)
        exact ⟨_, (Leaves.after_same same left).steps_perm,
          leaves (cleared_of_launched launched (place.grows grows) shown)⟩
    | fails target spot fails enters =>
        exact ⟨[], enters_perm (.refl s) enters, leaves none_added⟩

theorem resume_cleared {resumption : Resumption σ}
    (cleared : (Task.called step resumption).Cleared job seen draft)
    (resumes : step.resume resumption = .ok next) : next.Cleared job seen draft := by
  have stays : step.Stays job next := Step.resume_stays resumes
  cases Step.resumed resumes with
  | field => cases stays; exact cleared.1
  | item => cases stays; exact cleared.1
  | object resumed => cases stays <;> exact ⟨resumed.cleared cleared, cleared.1.2⟩

end Step

/-! ### Runs -/

namespace Weave

/-- All that is left to be done belongs to objects that may be shown. -/
def Cleared (job : Job σ) (seen : Sight σ → Prop) (weave : Weave σ) : Prop :=
  ∀ task ∈ weave.tasks, task.Cleared job seen weave.run.draft

variable {first last : Weave σ} {sight : Sight σ}

theorem cleared_start {type : ObjectType σ} (world : World σ)
    (root : job.schema.rootType? job.operation.kind = some type) :
    (start job type world).Cleared job seen := by
  obtain ⟨subject, -, plan_eq⟩ := plan_start job type world
  intro task mem
  have among : task ∈ (start job type world).plan.tasks := mem
  rw [plan_eq] at among
  obtain rfl := List.mem_singleton.mp among
  exact ⟨Schema.lists_rootType? root, nofun⟩

/-- Tasks that are kept stay cleared as the draft grows. -/
theorem Cleared.of_tasks (gone fresh : List (Task σ)) {kept : List (Task σ)}
    (cleared : first.Cleared job seen) (before : first.tasks.Perm (gone ++ kept))
    (after : last.tasks.Perm (fresh ++ kept)) (grows : first.run.draft.Grows last.run.draft)
    (each : ∀ task ∈ fresh, task.Cleared job seen last.run.draft) : last.Cleared job seen := by
  intro task mem
  rcases List.mem_append.mp (after.mem_iff.mp mem) with mem | mem
  · exact each task mem
  · exact (cleared task (before.mem_iff.mpr (List.mem_append_right _ mem))).grows grows

theorem Cleared.of_swaps {task other : Task σ} (cleared : first.Cleared job seen)
    (swaps : Swaps first last task other) (grows : first.run.draft.Grows last.run.draft)
    (passes : task.Cleared job seen last.run.draft → other.Cleared job seen last.run.draft) :
    last.Cleared job seen := by
  obtain ⟨kept, before, after⟩ := swaps
  have itself := cleared task (before.mem_iff.mpr List.mem_cons_self)
  refine cleared.of_tasks [task] [other] before after grows ?_
  intro t mem
  rw [List.mem_singleton.mp mem]
  exact passes (itself.grows grows)

/-- No move leads past the hook of a type. -/
theorem Move.cleared (move : Move job first sight last) (allowed : seen sight)
    (settled : first.Settled) (cleared : first.Cleared job seen) : last.Cleared job seen := by
  have grows := (move.leads allowed settled).1.grows
  cases move with
  | @advance step ready progress s picked advanced =>
      have before := tasks_picked picked
      have mem : Task.awake step ∈ first.tasks := before.mem_iff.mpr List.mem_cons_self
      have onward : first.run.draft.Grows s.run.draft := by
        rw [← draft_place { first with run := s.run, world := s.world } progress]
        exact grows
      have before_it : step.Cleared job seen first.run.draft := cleared _ mem
      have seated : step.Seated first.run.draft := settled.seated _ mem
      obtain ⟨steps, added, each⟩ :=
        Step.advance_cleared before_it seated allowed advanced onward
      refine cleared.of_tasks [.awake step] (progress.tasks steps) before
        (tasks_place added progress) grows ?_
      rw [draft_place]
      exact each
  | @release step held idle top none_parked =>
      intro task mem
      rw [tasks_release idle top] at mem
      exact cleared task mem
  | @wait step wait rest others s picked polled =>
      have same := Wait.sameTree_of_poll polled
      exact cleared.of_swaps (swaps_wait picked same) grows fun waits => waits.polled allowed polled
  | @answer step wait resumption others s picked polled =>
      have same := Wait.sameTree_of_poll polled
      exact cleared.of_swaps (swaps_answer picked same) grows fun waits =>
        waits.answered allowed polled
  | resume picked resumes =>
      exact cleared.of_swaps (swaps_resume picked) grows fun called =>
        Step.resume_cleared called resumes
  | change world => exact cleared

/-- Whatever happens in a run, all that is left to be done in it belongs to objects that may be
shown. -/
theorem Path.cleared (path : Path job seen first last) (settled : first.Settled)
    (cleared : first.Cleared job seen) : last.Cleared job seen := by
  induction path with
  | refl => exact cleared
  | step path allowed move ih => exact move.cleared allowed (path.leads settled).2 ih

end Weave

end GraphExec
