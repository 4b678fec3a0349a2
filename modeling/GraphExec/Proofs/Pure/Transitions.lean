import GraphExec.Proofs.Pure.Programs

/-!
# Transitions of a pure run

Every transition of a pure step agrees: at alike stages it comes to the same, and leaves a pure step
or none, and pure new steps.
-/

namespace GraphExec

variable {σ : Type} {loads : Loads} {good : ArgumentKey → ArgumentsResult → Prop} {job : Job σ}

open Engine

/-! ### Grouping -/

/-- The nodes of groups are written in the document. -/
def Groups.Known (job : Job σ) (groups : Groups) : Prop :=
  ∀ entry ∈ groups, ∀ node ∈ entry.2.nodes, job.Has (.field node)

theorem Groups.Known.add {groups : Groups} (known : groups.Known job) {node : FieldNode}
    (has : job.Has (.field node)) : (groups.add node).Known job := by
  intro entry mem other member
  unfold Groups.add at mem
  split at mem
  · rename_i group found
    rcases Fields.mem_of_mem_insert mem with mem | rfl
    · exact known entry mem other member
    · rcases List.mem_cons.mp member with rfl | member
      · exact known _ (Fields.mem_of_get? found) _ List.mem_cons_self
      · rcases List.mem_append.mp member with member | member
        · exact known _ (Fields.mem_of_get? found) other (List.mem_cons_of_mem _ member)
        · exact List.mem_singleton.mp member ▸ has
  · rcases Fields.mem_of_mem_insert mem with mem | rfl
    · exact known entry mem other member
    · exact List.mem_singleton.mp member ▸ has

namespace Grouper

variable {grouper : Grouper σ}

theorem agrees_argumentError (fine : grouper.job.Fine loads good) (error : ArgumentError) :
    Agrees loads good grouper.job (fun _ => True) (grouper.argumentError error) := by
  cases error with
  | unexpected message => exact agrees_rescue fine _ _
  | execution error => exact agrees_pure trivial
  | unauthorized refusal => exact agrees_pure trivial

/-- The directives of a selection say alike whether it counts. -/
theorem agrees_inclusion (fine : grouper.job.Fine loads good) {selection : Selection}
    (has : grouper.job.Has selection) (directives : List Directive)
    (written : ∀ directive ∈ directives, directive ∈ selection.directives) :
    Agrees loads good grouper.job
      (fun inclusion => ∀ key, inclusion = .waiting key →
        (Wait.arguments key : Wait σ).Pure loads good)
      (grouper.inclusion directives) := by
  induction directives with
  | nil => exact agrees_pure fun key same => by cases same
  | cons directive rest ih =>
      have behind := ih fun other mem => written other (List.mem_cons_of_mem _ mem)
      unfold inclusion
      split
      · exact behind
      · rename_i definition found
        split
        · exact behind
        · rename_i keeps includes
          have asks := Job.Asks.directive has (written directive List.mem_cons_self) found
            grouper.identity
          refine (Directive.agrees_lookUp fine asks).bind fun found known => ?_
          split
          · refine agrees_pure fun key same => ?_
            injection same with same
            obtain rfl := known.1
            exact same ▸ asks.wait_pure fine
          · rename_i arguments
            have settled := (fine.pure.directives _ _ found).includes keeps includes arguments
              grouper.job.query
            refine (agrees_call settled).bind fun kept _ => ?_
            split
            · exact behind
            · exact agrees_pure fun key same => by cases same
          · exact (agrees_argumentError fine _).bind fun _ _ => agrees_pure fun key same => by cases same

/-- What a grouping comes to is known to the document, or is waited for. -/
def Knows (loads : Loads) (good : ArgumentKey → ArgumentsResult → Prop) (job : Job σ) :
    GroupingResult → Prop
  | .complete grouping => grouping.groups.Known job
  | .waiting key => (Wait.arguments key : Wait σ).Pure loads good

theorem agrees_groupFrom (fine : grouper.job.Fine loads good) (available : Fields Fragment)
    (selections : List Selection) : ∀ found : Grouping,
    (∀ fragment ∈ available.values, fragment ∈ grouper.job.fragments.values) →
    (∀ selection ∈ selections, grouper.job.Has selection) → found.groups.Known grouper.job →
    Agrees loads good grouper.job (Knows loads good grouper.job)
      (grouper.groupFrom available selections found) := by
  induction available, selections using grouper.descent with
  | nil available =>
      intro found _ _ known
      rw [groupFrom_nil]
      exact agrees_pure known
  | cons available selection rest tail inside =>
      intro found fewer has known
      have own := has selection List.mem_cons_self
      have others := fun other mem => has other (List.mem_cons_of_mem selection mem)
      obtain ⟨next, same, goes_on⟩ := grouper.groupFrom_cons available selection rest found
      rw [same]
      refine (agrees_inclusion fine own _ fun _ mem => mem).bind fun inclusion waits => ?_
      have onward := goes_on inclusion
      generalize next inclusion = program at onward ⊢
      cases onward with
      | waiting key => exact agrees_pure (waits key rfl)
      | failed error => exact tail _ fewer others known
      | excluded => exact tail _ fewer others known
      | field node same =>
          subst same
          exact tail _ fewer others (known.add own)
      | past _ _ => exact tail _ fewer others known
      | enters inner selections within =>
          obtain ⟨has, fewer'⟩ := has_inside own fewer within
          refine (inside inner selections within found fewer' has known).bind fun result knows => ?_
          cases result with
          | waiting key => exact agrees_pure knows
          | complete found => exact tail found fewer others knows

theorem agrees_group (fine : grouper.job.Fine loads good) {selections : List Selection}
    (has : ∀ selection ∈ selections, grouper.job.Has selection) :
    Agrees loads good grouper.job (Knows loads good grouper.job) (grouper.group selections) :=
  agrees_groupFrom fine _ _ _ (fun _ mem => mem) has fun _ mem => absurd mem List.not_mem_nil

end Grouper

/-! ### Fields -/

namespace FieldStep

variable {step : FieldStep σ}

theorem agrees_park (known : step.site.Known job) {state : FieldState σ} {wait : Wait σ}
    (pure : state.Pure loads job) (waits : wait.Pure loads good) :
    Agrees loads good job (·.Pure loads good job) (step.park state wait) :=
  agrees_draft.bind fun _ _ => agrees_pure ⟨⟨known, pure⟩, waits⟩

theorem agrees_goTo (known : step.site.Known job) {state : FieldState σ}
    (fine : state.Pure loads job) :
    Agrees loads good job (·.Pure loads good job)
      (pure (step.goTo state) : Engine σ (Progress σ)) :=
  agrees_pure ⟨known, fine⟩

theorem agrees_advanceAlive (fine : job.Fine loads good)
    (pure_step : (Step.field step).Pure loads job) :
    Agrees loads good job (·.Pure loads good job) (step.advanceAlive job) := by
  obtain ⟨known, pure_state⟩ := pure_step
  unfold advanceAlive
  refine agrees_draft.bind fun draft _ => ?_
  simp only
  split
  · rename_i cursor state
    rw [state] at pure_state
    refine (cursor.agrees_advance fine pure_state _ _).bind fun progress pure_progress => ?_
    cases progress with
    | again cursor => exact agrees_goTo known pure_progress
    | passed => exact agrees_goTo known trivial
    | skipped => exact (agrees_modifyDraft _).bind fun _ _ => agrees_pure trivial
    | stopped result => exact agrees_goTo known pure_progress
    | waiting cursor wait => exact agrees_park known pure_progress.1 pure_progress.2
  · refine (FieldSite.agrees_lookUpArguments fine known).bind fun result? _ => ?_
    cases result? with
    | some result => exact agrees_goTo known trivial
    | none => exact agrees_park known trivial (known.asks.wait_pure fine)
  · exact agrees_goTo known trivial
  · exact agrees_goTo known (ArgumentError.pure_outcome _)
  · exact (FieldSite.agrees_resolve fine known _ _ _).bind fun _ pure_result =>
      agrees_goTo known pure_result
  · rename_i result state
    rw [state] at pure_state
    refine (agrees_settle fine pure_state).bind fun value pure_value => ?_
    refine (Position.agrees_complete fine known pure_value).bind fun completion pure_completion => ?_
    cases completion with
    | done => exact agrees_pure trivial
    | waiting lazy =>
        obtain ⟨result, answers, pure_result⟩ := pure_completion
        exact agrees_park known trivial (Wait.pure_value answers pure_result)
    | replaced value => exact agrees_goTo known (FieldResult.pure_ok pure_completion)
  · exact agrees_throw _
  · exact agrees_throw _

end FieldStep

/-! ### Items -/

namespace ItemStep

variable {step : ItemStep σ}

theorem agrees_park (known : step.position.site.Known job) {state : ItemState σ} {wait : Wait σ}
    (pure : state.Pure loads job) (waits : wait.Pure loads good) :
    Agrees loads good job (·.Pure loads good job) (step.park state wait) :=
  agrees_draft.bind fun _ _ => agrees_pure ⟨⟨known, pure⟩, waits⟩

theorem agrees_goTo (known : step.position.site.Known job) {state : ItemState σ}
    (fine : state.Pure loads job) :
    Agrees loads good job (·.Pure loads good job)
      (pure (step.goTo state) : Engine σ (Progress σ)) :=
  agrees_pure ⟨known, fine⟩

theorem agrees_advanceAlive (fine : job.Fine loads good)
    (pure_step : (Step.item step).Pure loads job) :
    Agrees loads good job (·.Pure loads good job) (step.advanceAlive job) := by
  obtain ⟨known, pure_state⟩ := pure_step
  unfold advanceAlive
  refine agrees_draft.bind fun draft _ => ?_
  simp only
  split
  · rename_i cursor item state
    rw [state] at pure_state
    refine (cursor.agrees_advance fine pure_state.1 _ _).bind fun progress pure_progress => ?_
    cases progress with
    | again cursor => exact agrees_goTo known ⟨pure_progress, pure_state.2⟩
    | passed => exact agrees_goTo known (FieldResult.pure_ok pure_state.2)
    | skipped => exact (agrees_modifyDraft _).bind fun _ _ => agrees_pure trivial
    | stopped result => exact agrees_goTo known pure_progress
    | waiting cursor wait =>
        exact agrees_park known ⟨pure_progress.1, pure_state.2⟩ pure_progress.2
  · rename_i result state
    rw [state] at pure_state
    refine (agrees_settle fine pure_state).bind fun value pure_value => ?_
    split
    · cases pure_value with
      | lazy answers pure_result =>
          exact agrees_park known trivial (Wait.pure_value answers pure_result)
    · exact agrees_goTo known pure_value
  · rename_i value state
    rw [state] at pure_state
    refine (Position.agrees_complete fine known pure_state).bind fun completion pure_completion => ?_
    cases completion with
    | done => exact agrees_pure trivial
    | waiting lazy =>
        obtain ⟨result, answers, pure_result⟩ := pure_completion
        exact agrees_park known trivial (Wait.pure_value answers pure_result)
    | replaced value => exact agrees_goTo known pure_completion
  · exact agrees_throw _

end ItemStep

/-! ### Objects -/

namespace ObjectStep

variable {step : ObjectStep σ}

theorem agrees_park (own : step.Pure loads job) {state : ObjectState σ} {wait : Wait σ}
    (pure : state.Pure loads job) (waits : wait.Pure loads good) :
    Agrees loads good job (·.Pure loads good job) (step.park state wait) :=
  agrees_draft.bind fun _ _ => agrees_pure ⟨⟨own.target, own.selections, pure⟩, waits⟩

theorem agrees_goTo (own : step.Pure loads job) {state : ObjectState σ}
    (fine : state.Pure loads job) :
    Agrees loads good job (·.Pure loads good job)
      (pure (step.goTo state) : Engine σ (Progress σ)) :=
  agrees_pure ⟨own.target, own.selections, fine⟩

theorem agrees_failRoot (fine : job.Fine loads good) (value : ResolvedValue σ) :
    Agrees loads good job (fun _ => True) (failRoot job value) := by
  have nulls : Agrees loads good job (fun _ => True)
      (modifyDraft Draft.nullData : Engine σ Unit) := agrees_modifyDraft _
  have quiet : Agrees loads good job (fun _ => True) (pure () : Engine σ Unit) :=
    agrees_pure trivial
  unfold failRoot
  cases value with
  | error error => exact (agrees_report error).bind fun _ _ => nulls
  | lazy later =>
      have thrown : Agrees loads good job (fun _ => True)
          (throw (.invariant .lazyRoot) : Engine σ Unit) := agrees_throw _
      exact thrown.bind fun _ _ => nulls
  | unauthorized refusal =>
      refine (agrees_call (fine.pure.unauthorized refusal job.query)).bind fun result _ => ?_
      split
      · exact (agrees_report _).bind fun _ _ => nulls
      · exact (agrees_report _).bind fun _ _ => nulls
      · exact quiet.bind fun _ _ => nulls
  | value v => exact quiet.bind fun _ _ => nulls
  | object o => exact quiet.bind fun _ _ => nulls
  | list items => exact quiet.bind fun _ _ => nulls
  | skip => exact quiet.bind fun _ _ => nulls
  | raw v => exact quiet.bind fun _ _ => nulls

theorem agrees_fail (fine : job.Fine loads good) (own : step.Pure loads job)
    {value : ResolvedValue σ} (pure_value : value.Pure loads) :
    Agrees loads good job (·.Pure loads good job) (step.fail job value) := by
  unfold fail
  split
  · exact (agrees_failRoot fine value).bind fun _ _ => agrees_pure trivial
  · rename_i position target
    have known : position.site.Known job := by
      have known := own.target
      rwa [target] at known
    refine (Position.agrees_complete fine known pure_value).bind fun completion pure_completion => ?_
    cases completion with
    | done => exact agrees_pure trivial
    | waiting lazy =>
        obtain ⟨result, answers, pure_result⟩ := pure_completion
        exact agrees_park own trivial (Wait.pure_value answers pure_result)
    | replaced value => exact agrees_goTo own (FieldResult.pure_ok pure_completion)

theorem agrees_failWith (fine : job.Fine loads good) (own : step.Pure loads job)
    {result : FieldResult σ} (pure_result : result.Pure loads) :
    Agrees loads good job (·.Pure loads good job) (step.failWith job result) :=
  agrees_draft.bind fun _ _ => (agrees_settle fine pure_result).bind fun _ pure_value =>
    agrees_fail fine own pure_value

theorem agrees_askType (fine : job.Fine loads good) (own : step.Pure loads job)
    {declared : TypeDefinition σ} (knows : job.schema.Knows declared) :
    Agrees loads good job (·.Pure loads good job) (step.askType job declared) := by
  obtain ⟨name, found⟩ := knows
  unfold askType
  refine (agrees_tell _).bind fun _ _ => ?_
  refine (agrees_call (fine.pure.resolveType found _ _)).bind fun told known => ?_
  split
  · exact agrees_goTo own ⟨name, found⟩
  · obtain ⟨answer, answers, -⟩ := known _ rfl
    exact agrees_park own ⟨name, found⟩ ⟨.type answer, .type answers⟩
  · exact (agrees_tell _).bind fun _ _ => agrees_throw _

theorem known_possible (fine : job.Fine loads good) {declared : TypeDefinition σ} {name : String}
    {type : ObjectType σ} (found : possibleType? job declared name = some type) :
    job.schema.objectType? type.name = some type :=
  fine.own (Option.mem_filter_iff.mp found).1

theorem agrees_takeType (fine : job.Fine loads good) (own : step.Pure loads job)
    {declared : TypeDefinition σ} (result : Except ResolverError String) :
    Agrees loads good job (·.Pure loads good job) (step.takeType job declared result) := by
  unfold takeType
  split
  · exact (agrees_tell _).bind fun _ _ => agrees_failWith fine own (FieldResult.pure_error _)
  · refine (agrees_tell _).bind fun _ _ => ?_
    split
    · rename_i type found
      exact agrees_goTo own (known_possible fine found)
    · exact agrees_throw _

theorem agrees_askAuthorization (fine : job.Fine loads good) (own : step.Pure loads job)
    {type : ObjectType σ} (known : job.schema.objectType? type.name = some type) :
    Agrees loads good job (·.Pure loads good job) (step.askAuthorization job type) := by
  unfold askAuthorization
  split
  · exact agrees_goTo own known
  · rename_i authorize found
    refine (agrees_tell _).bind fun _ _ => ?_
    have settled := (fine.objectType known).authorizes authorize found step.subject.value job.query
    refine (agrees_call settled).bind fun answer later => ?_
    split
    · exact agrees_goTo own known
    · obtain ⟨allowed, answers, -⟩ := later
      exact agrees_park own known ⟨.authorization allowed, .authorization answers⟩

theorem agrees_takeAuthorization (fine : job.Fine loads good) (own : step.Pure loads job)
    {type : ObjectType σ} (known : job.schema.objectType? type.name = some type)
    (result : Except ResolverError Bool) :
    Agrees loads good job (·.Pure loads good job) (step.takeAuthorization job type result) := by
  unfold takeAuthorization
  refine (agrees_tell _).bind fun _ _ => ?_
  split
  · exact agrees_goTo own known
  · exact agrees_fail fine own (.unauthorized _)
  · exact agrees_failWith fine own (FieldResult.pure_error _)

theorem agrees_launch (fine : job.Fine loads good) {type : ObjectType σ}
    (known : job.schema.objectType? type.name = some type) (node : NodeId) (key : String)
    {group : FieldGroup} (has : ∀ node ∈ group.nodes, job.Has (.field node)) :
    Agrees loads good job (fun _ => True) (step.launch job type node key group) := by
  unfold launch
  simp only
  split
  · exact agrees_modifyDraft _
  · split
    · exact agrees_throw _
    · rename_i field found
      have site : FieldSite.Known job
          { typeName := type.name, field, group, owner := step.subject } :=
        ⟨has, type, known, rfl, found⟩
      have cursor := DirectiveCursor.pure_new fine (fun _ _ pure => pure.resolves _)
        site.directives
      have fresh : (Step.field (FieldStep.new job.schema node key
          { typeName := type.name, field, group, owner := step.subject })).Pure loads job :=
        ⟨site, cursor⟩
      split
      · exact agrees_hold fresh
      · exact agrees_enqueue fresh

theorem agrees_launchAll (fine : job.Fine loads good) {type : ObjectType σ}
    (known : job.schema.objectType? type.name = some type) (node : NodeId) {groups : Groups}
    (has : groups.Known job) :
    Agrees loads good job (fun _ => True) (step.launchAll job type node groups) := by
  induction groups with
  | nil => exact agrees_pure trivial
  | cons entry rest ih =>
      obtain ⟨key, group⟩ := entry
      have first : Agrees loads good job (fun _ => True) (step.launch job type node key group) :=
        agrees_launch fine known node key (has _ List.mem_cons_self)
      exact first.bind fun _ _ => ih fun other mem => has other (List.mem_cons_of_mem _ mem)

theorem agrees_collect (fine : job.Fine loads good) (own : step.Pure loads job)
    {type : ObjectType σ} (known : job.schema.objectType? type.name = some type) (node : NodeId) :
    Agrees loads good job (·.Pure loads good job) (step.collect job type node) := by
  unfold collect
  refine agrees_draft.bind fun draft _ => ?_
  have grouped : ∀ grouper : Grouper σ, grouper.job = job → Agrees loads good job
      (Grouper.Knows loads good job) (grouper.group step.selections) := by
    rintro grouper rfl
    exact Grouper.agrees_group fine own.selections
  refine (grouped _ rfl).bind fun result knows => ?_
  cases result with
  | waiting key => exact agrees_park own known knows
  | complete grouping =>
      have reported : Agrees loads good job (fun _ => True)
          (modifyRun fun run => { run with errors := run.errors ++ grouping.errors }) :=
        agrees_modifyRun (fun _ _ => rfl) fun _ pure => pure
      refine reported.bind fun _ _ => (agrees_modifyDraft _).bind fun _ _ => ?_
      exact (agrees_launchAll fine known node knows).bind fun _ _ => agrees_pure trivial

theorem agrees_advanceAlive (fine : job.Fine loads good) (own : step.Pure loads job) :
    Agrees loads good job (·.Pure loads good job) (step.advanceAlive job) := by
  have pure_state := own.state
  unfold advanceAlive
  split
  all_goals
    rename_i state
    rw [state] at pure_state
  · exact agrees_askType fine own pure_state
  · exact agrees_takeType fine own _
  · exact agrees_askAuthorization fine own pure_state
  · exact agrees_takeAuthorization fine own pure_state _
  · exact agrees_failWith fine own pure_state
  · have allocated : Agrees loads good job (fun _ => True) step.allocate := by
      unfold allocate
      split
      · exact agrees_pure trivial
      · exact agrees_allocate _
    exact allocated.bind fun node _ => agrees_goTo own pure_state
  · exact agrees_collect fine own pure_state _
  · exact agrees_throw _
  · exact agrees_throw _
  · exact agrees_throw _
  · exact agrees_throw _

end ObjectStep

/-- A transition of a pure step comes to the same at alike stages, and leaves pure steps. -/
theorem Step.agrees_advance (fine : job.Fine loads good) {step : Step σ}
    (own : step.Pure loads job) :
    Agrees loads good job (·.Pure loads good job) (step.advance job) := by
  have unless_dead : ∀ {program : Engine σ (Progress σ)} (dead : Draft → Bool),
      Agrees loads good job (·.Pure loads good job) program →
      Agrees loads good job (·.Pure loads good job) (do
        if dead (← Engine.draft) then return .finished else program : Engine σ (Progress σ)) := by
    intro program dead agrees
    refine agrees_draft.bind fun draft _ => ?_
    split
    · exact agrees_pure trivial
    · exact agrees
  cases step with
  | field step => exact unless_dead (·.isDead step.parent) (step.agrees_advanceAlive fine own)
  | item step => exact unless_dead (·.isDead step.position.parent) (step.agrees_advanceAlive fine own)
  | object step =>
      refine agrees_draft.bind fun draft _ => ?_
      split
      · exact step.agrees_advanceAlive fine own
      · exact agrees_pure trivial

end GraphExec
