import GraphExec.Proofs.Run.Clearance
import GraphExec.Proofs.Run.Fatal
import GraphExec.Proofs.Run.Refusals
import GraphExec.Proofs.Run.Written

/-!
# Steps stay sound

A step that goes on at once waits for nothing. One that is parked waits for an answer of the kind
that it is parked for, takes such answers only, and waits for nothing any more when it has taken
one. A step that is done leaves nothing behind but steps that have not been begun. All of them work
at positions of proper types, if the types of the schema are proper.
-/

namespace GraphExec

variable {σ : Type} {job : Job σ} {s t : Stage σ}

open Engine

/-! ### Answers of a kind -/

/-- The kind of the answer that a wait is for. -/
def Wait.kind : Wait σ → String
  | .value _ => "value"
  | .arguments _ => "arguments"
  | .type _ => "type"
  | .authorization _ => "authorization"
  | .directive _ => "directive"

theorem Wait.Admits.kind {wait : Wait σ} {answer : Resumption σ} (admits : wait.Admits answer) :
    answer.kind = wait.kind := by
  cases wait <;> obtain ⟨result, rfl⟩ := admits <;> rfl

theorem Wait.exists_admits (wait : Wait σ) : ∃ answer, wait.Admits answer := by
  cases wait with
  | value rest => exact ⟨_, .ok .null, rfl⟩
  | arguments key => exact ⟨_, .ok .empty, rfl⟩
  | type rest => exact ⟨_, .ok "", rfl⟩
  | authorization rest => exact ⟨_, .ok true, rfl⟩
  | directive rest => exact ⟨_, .ok .proceed, rfl⟩

theorem DirectiveCursor.Resumed.awaited {cursor next : DirectiveCursor σ} {answer : Resumption σ}
    (resumed : cursor.Resumed answer next) :
    cursor.stage.awaited? = some answer.kind ∧ next.stage.awaited? = none := by
  cases resumed with
  | arguments stage | answer stage => exact ⟨stage ▸ rfl, rfl⟩

theorem FieldStep.Resumed.awaited {step next : FieldStep σ} {answer : Resumption σ}
    (resumed : step.Resumed answer next) :
    step.state.awaited? = some answer.kind ∧ next.state.awaited? = none := by
  cases resumed with
  | directs state resumed => exact ⟨state ▸ resumed.awaited.1, resumed.awaited.2⟩
  | arguments state | value state => exact ⟨state ▸ rfl, rfl⟩

theorem ItemStep.Resumed.awaited {step next : ItemStep σ} {answer : Resumption σ}
    (resumed : step.Resumed answer next) :
    step.state.awaited? = some answer.kind ∧ next.state.awaited? = none := by
  cases resumed with
  | directs state resumed => exact ⟨state ▸ resumed.awaited.1, resumed.awaited.2⟩
  | value state => exact ⟨state ▸ rfl, rfl⟩

theorem ObjectStep.Resumed.awaited {step next : ObjectStep σ} {answer : Resumption σ}
    (resumed : step.Resumed answer next) :
    step.state.awaited? = some answer.kind ∧ next.state.awaited? = none := by
  cases resumed with
  | type state | authorization state | value state | arguments state =>
      exact ⟨state ▸ rfl, rfl⟩

/-- A step that takes an answer has waited for one of that kind, and waits for nothing after. -/
theorem Step.Resumed.awaited {step next : Step σ} {answer : Resumption σ}
    (resumed : step.Resumed answer next) :
    step.awaited? = some answer.kind ∧ next.awaited? = none := by
  cases resumed with
  | object resumed => exact resumed.awaited
  | field resumed => exact resumed.awaited
  | item resumed => exact resumed.awaited

/-- A step that takes whatever it may be answered waits for an answer of that kind. -/
theorem Step.Expects.awaited {step : Step σ} {wait : Wait σ} (expects : step.Expects wait) :
    step.awaited? = some wait.kind := by
  obtain ⟨answer, admits⟩ := wait.exists_admits
  obtain ⟨next, resumes⟩ := expects answer admits
  exact admits.kind ▸ (Step.resumed resumes).awaited.1

/-! ### Steps that have not been begun -/

/-- Nothing of a step has been done. -/
def Step.IsUnbegun : Step σ → Prop
  | .object step => ∃ type, step.state = .ofType type
  | .field step => ∃ uses, step.state = .runDirectives ⟨uses, .unstarted⟩
  | .item step => ∃ uses item, step.state = .runDirectives ⟨uses, .unstarted⟩ item

theorem Step.IsUnbegun.awaited {step : Step σ} (unbegun : step.IsUnbegun) :
    step.awaited? = none := by
  cases step with
  | object step =>
      obtain ⟨type, state⟩ := unbegun
      show step.state.awaited? = none
      rw [state]
      cases type <;> rfl
  | field step =>
      obtain ⟨uses, state⟩ := unbegun
      show step.state.awaited? = none
      rw [state]
      rfl
  | item step =>
      obtain ⟨uses, item, state⟩ := unbegun
      show step.state.awaited? = none
      rw [state]
      rfl

/-- Whatever is left besides the step itself has not been begun. -/
theorem Step.Begets.unbegun {step new : Step σ} (begets : step.Begets job new) :
    new.IsUnbegun := by
  cases begets with
  | completes due completes mem =>
      cases completes with
      | items other type list =>
          obtain ⟨n, bound, rfl⟩ := (Position.mem_itemSteps _ 0).mp mem
          exact ⟨_, _, rfl⟩
      | object other named known composite output made same =>
          obtain rfl := List.mem_singleton.mp mem
          exact ⟨_, rfl⟩
      | _ => cases mem
  | collects state gathers launches mem =>
      obtain ⟨task, there, found⟩ := List.mem_filterMap.mp mem
      obtain ⟨entry, -, made⟩ := (ObjectStep.launched_iff launches).2 task there
      rcases ObjectStep.launched?_eq made with ⟨-, rfl⟩ | ⟨-, field, -, rfl⟩
      · cases found
      · obtain rfl := Option.some.inj found
        exact ⟨_, rfl⟩

/-! ### Steps that go on at once -/

theorem DirectiveCursor.Way.awake {cursor next : DirectiveCursor σ} {owner : Subject} {path : Path}
    (way : cursor.Way job owner path s (.again next) t) : next.stage.awaited? = none := by
  cases way <;> rfl

theorem FieldStep.Way.awake {step : FieldStep σ} {next : Step σ}
    (way : step.Way job s (.again next) t) : next.awaited? = none := by
  cases way with
  | directs state directed => exact (DirectiveCursor.way directed).awake
  | _ => rfl

theorem ItemStep.Way.awake {step : ItemStep σ} {next : Step σ}
    (way : step.Way job s (.again next) t) : next.awaited? = none := by
  cases way with
  | directs state directed => exact (DirectiveCursor.way directed).awake
  | _ => rfl

theorem ObjectStep.Way.awake {step : ObjectStep σ} {next : Step σ}
    (way : step.Way job s (.again next) t) : next.awaited? = none := by
  cases way with
  | fails _ gives_way => cases gives_way; rfl
  | _ => rfl

/-- A step that goes on at once waits for nothing. -/
theorem Step.advance_awake {step next : Step σ}
    (gives : (step.advance job).Gives s (.again next) t) : next.awaited? = none := by
  cases Step.way gives with
  | object _ way => exact way.awake
  | field _ way => exact way.awake
  | item _ way => exact way.awake

/-! ### Proper steps -/

theorem ObjectState.proper_ofType (schema : job.schema.Proper) {target : ObjectTarget σ}
    {name : String} {type : TypeDefinition σ} (known : job.schema.type? name = some type) :
    (ObjectState.ofType type).Proper job.schema target := by
  cases type with
  | object t =>
      have found : job.schema.objectType? name = some t := by
        unfold Schema.objectType?
        rw [known]
      exact schema name t found
  | _ => trivial

/-- The position that a step completes is of a proper type. -/
theorem Step.Due.proper {step : Step σ} {position : Position σ} {value : ResolvedValue σ}
    (due : step.Due job s position value t) (proper : step.Proper job.schema) :
    position.type.Proper job.schema := by
  cases due with
  | field state settled => exact proper
  | item state => exact proper
  | object target fails => exact proper.1 _ target

theorem Step.Begets.proper {step new : Step σ} (begets : step.Begets job new)
    (schema : job.schema.Proper) (proper : step.Proper job.schema) : new.Proper job.schema := by
  cases begets with
  | completes due completes mem =>
      have here := due.proper proper
      cases completes with
      | items other type list =>
          obtain ⟨n, bound, rfl⟩ := (Position.mem_itemSteps _ 0).mp mem
          exact here.item type
      | object other named known composite output made same =>
          obtain rfl := List.mem_singleton.mp mem
          refine ⟨fun position at_ => ?_, ObjectState.proper_ofType schema known⟩
          injection at_ with at_
          exact at_ ▸ here
      | _ => cases mem
  | collects state gathers launches mem =>
      obtain ⟨task, there, found⟩ := List.mem_filterMap.mp mem
      obtain ⟨entry, -, made⟩ := (ObjectStep.launched_iff launches).2 task there
      rcases ObjectStep.launched?_eq made with ⟨-, rfl⟩ | ⟨-, field, known, rfl⟩
      · cases found
      · obtain rfl := Option.some.inj found
        have type := proper.2
        rw [state] at type
        exact type _ field known

theorem ObjectStep.Way.proper {step : ObjectStep σ} {progress : Progress σ} {next : Step σ}
    (way : step.Way job s progress t) (goes : progress.next? = some next)
    (schema : job.schema.Proper) (proper : (Step.object step).Proper job.schema) :
    next.Proper job.schema := by
  obtain ⟨target, type⟩ := proper
  have stays {state : ObjectState σ} (same : some (.object { step with state }) = some next)
      (fine : state.Proper job.schema step.target) : next.Proper job.schema :=
    Option.some.inj same ▸ ⟨target, fine⟩
  cases way with
  | types state _ | asksType state _ => exact stays goes trivial
  | takesType state possible =>
      obtain ⟨known, -⟩ := Option.filter_eq_some_iff.mp possible
      exact stays goes (schema _ _ known)
  | permits state _ | decides state _ _ | asksPermission state _ _ | allows state
  | allocates state _ | asks state _ =>
      rw [state] at type
      exact stays goes type
  | fails _ gives_way =>
      -- only a position is given something else
      have child {position : Position σ} (at_ : step.target = .child position) :
          step.target ≠ .root := by
        rw [at_]
        exact nofun
      cases gives_way with
      | root at_ _ => cases goes
      | completes at_ _ => cases goes
      | waits at_ _ | replaces at_ _ => exact stays goes (child at_)
  | collects state _ _ => cases goes

/-- A step goes on at the same position, with a proper type. -/
theorem Step.advance_proper {step next : Step σ} {progress : Progress σ}
    (gives : (step.advance job).Gives s progress t) (goes : progress.next? = some next)
    (schema : job.schema.Proper) (proper : step.Proper job.schema) : next.Proper job.schema := by
  cases step with
  | object step =>
      cases Step.way gives with
      | dropped _ => cases goes
      | object _ way => exact way.proper goes schema proper
  | field step | item step =>
      rcases Step.advance_cases gives with ⟨-, rfl, -⟩ | ⟨-, moves⟩
      · cases goes
      · cases moves with
        | passes goes' stays same =>
            obtain rfl := Option.some.inj (goes'.symm.trans goes)
            cases stays
            exact proper
        | _ => cases goes

theorem ObjectStep.Resumed.proper {step next : ObjectStep σ} {answer : Resumption σ}
    (resumed : step.Resumed answer next) {schema : Schema σ}
    (proper : (Step.object step).Proper schema) : (Step.object next).Proper schema := by
  obtain ⟨target, type⟩ := proper
  cases resumed with
  | type state => exact ⟨target, trivial⟩
  | authorization state | value state | arguments state =>
      rw [state] at type
      exact ⟨target, type⟩

theorem Step.Resumed.proper {step next : Step σ} {answer : Resumption σ}
    (resumed : step.Resumed answer next) {schema : Schema σ} (proper : step.Proper schema) :
    next.Proper schema := by
  cases resumed with
  | object resumed => exact resumed.proper proper
  | field resumed => cases resumed <;> exact proper
  | item resumed => cases resumed <;> exact proper

/-! ### Runs -/

/-- A step that may go on: it waits for nothing, and its types are proper. -/
structure Step.Able (schema : Schema σ) (step : Step σ) : Prop where
  awake : step.awaited? = none
  proper : step.Proper schema

namespace Weave

/-- Steps that may go on, and proper ones that wait, turn into such steps. -/
theorem closed_able (schema : job.schema.Proper) :
    Closed job (Step.Able job.schema) (Step.Proper job.schema) where
  again able gives := ⟨Step.advance_awake gives, Step.advance_proper gives rfl schema able.proper⟩
  parked able gives := Step.advance_proper gives rfl schema able.proper
  left able gives := by
    obtain ⟨steps, added, begets⟩ := Step.advance_begets gives
    exact ⟨steps, added, fun new mem =>
      ⟨(begets new mem).unbegun.awaited, (begets new mem).proper schema able.proper⟩⟩
  resume proper resumes := by
    have resumed := Step.resumed resumes
    exact ⟨resumed.awaited.2, resumed.proper proper⟩

/-- Whatever a run of the root type comes to, its steps may go on or wait properly. -/
theorem Path.able {seen : Sight σ → Prop} {type : ObjectType σ} {world : World σ} {last : Weave σ}
    (path : Path job seen (.start job type world) last)
    (root : job.schema.rootType? job.operation.kind = some type) (schema : job.schema.Proper) :
    last.All (Step.Able job.schema) (Step.Proper job.schema) := by
  have proper : type.Proper job.schema := by
    obtain ⟨name, known⟩ := Schema.lists_rootType? root
    exact schema name type known
  exact path.all (closed_able schema) (all_start fun subject => ⟨rfl, nofun, proper⟩)

end Weave

end GraphExec
