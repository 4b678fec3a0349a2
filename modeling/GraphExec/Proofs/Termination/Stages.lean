import GraphExec.Proofs.Execution
import GraphExec.Proofs.Run.Written
import GraphExec.Proofs.Termination.Chains

/-!
# From which state a step comes to which

A transition leaves a step in another state, at once or when it is resumed. The states follow each
other in an order that is nearly fixed: directives, arguments, resolver and result of a field;
type, authorization and selections of an object. A step goes back for two reasons only: what a lazy
answers, and what replaces a refusal, are results anew.
-/

namespace GraphExec

variable {σ : Type} {job : Job σ} {s t : Stage σ}

open Engine

/-- Refusals are replaced by nothing but values that are written as they are. -/
def Schema.RefusesFinally (schema : Schema σ) : Prop :=
  ∀ refusal query, (schema.unauthorized refusal query).Always fun answer =>
    ∀ value, answer = .ok value → value.isFinal = true

/-- The value that a result stands for is its own, or an error. -/
theorem Engine.settle_cases {path : Path} {result : FieldResult σ} {value : ResolvedValue σ}
    (settled : (settle job path result).Gives s value t) :
    result = .ok value ∨ ∃ error, value = .error error := by
  cases result with
  | ok own =>
      obtain ⟨rfl, -⟩ := gives_pure.mp settled
      exact .inl rfl
  | error failure =>
      cases failure with
      | execution error =>
          obtain ⟨rfl, -⟩ := gives_pure.mp settled
          exact .inr ⟨_, rfl⟩
      | unexpected message =>
          obtain ⟨error, u, -, settled⟩ := gives_bind.mp settled
          obtain ⟨rfl, -⟩ := gives_pure.mp settled
          exact .inr ⟨_, rfl⟩

/-! ### Directives -/

/-- The state of a cursor that follows another one, and what is waited for in it. -/
inductive DirectiveCursor.Leads :
    DirectiveCursor σ → DirectiveCursor σ → Option (Wait σ) → Prop
  | finds {use : DirectiveUse σ} {rest : List (DirectiveUse σ)} (result : ArgumentsResult) :
    Leads ⟨use :: rest, .unstarted⟩ ⟨use :: rest, .called result⟩ none
  | asks {use : DirectiveUse σ} {rest : List (DirectiveUse σ)} (key : ArgumentKey) :
    Leads ⟨use :: rest, .unstarted⟩ ⟨use :: rest, .awaitingArguments⟩ (some (.arguments key))
  | answers {use : DirectiveUse σ} {rest : List (DirectiveUse σ)} (arguments : Arguments)
      (flow : Except ResolverError DirectiveFlow) :
    Leads ⟨use :: rest, .called (.ok arguments)⟩ ⟨use :: rest, .answered flow⟩ none
  | waits {use : DirectiveUse σ} {rest : List (DirectiveUse σ)} (arguments : Arguments)
      (lazy : Lazy σ (Except ResolverError DirectiveFlow)) :
    Leads ⟨use :: rest, .called (.ok arguments)⟩ ⟨use :: rest, .awaitingAnswer⟩
      (some (.directive (.start lazy)))
  | proceeds {use : DirectiveUse σ} {rest : List (DirectiveUse σ)} :
    Leads ⟨use :: rest, .answered (.ok .proceed)⟩ (.next rest) none

/-- The cursor that goes on, and what it waits for. -/
def CursorProgress.onward? : CursorProgress σ → Option (DirectiveCursor σ × Option (Wait σ))
  | .again cursor => some (cursor, none)
  | .waiting cursor wait => some (cursor, some wait)
  | _ => none

theorem DirectiveCursor.Way.leads {cursor next : DirectiveCursor σ} {owner : Subject} {path : Path}
    {progress : CursorProgress σ} {wait? : Option (Wait σ)}
    (way : cursor.Way job owner path s progress t)
    (goes : progress.onward? = some (next, wait?)) : cursor.Leads next wait? := by
  cases way with
  | finds =>
      cases goes
      exact .finds _
  | asks =>
      cases goes
      exact .asks _
  | answers | raises =>
      cases goes
      exact .answers _ _
  | waits =>
      cases goes
      exact .waits _ _
  | proceeds =>
      cases goes
      exact .proceeds
  | _ => cases goes

/-! ### Fields -/

/-- The state of a field that follows another one, and what is waited for in it. -/
inductive FieldState.Leads : FieldState σ → FieldState σ → Option (Wait σ) → Prop
  | directive {cursor next : DirectiveCursor σ} {wait? : Option (Wait σ)}
      (leads : cursor.Leads next wait?) : Leads (.runDirectives cursor) (.runDirectives next) wait?
  | passes (cursor : DirectiveCursor σ) : Leads (.runDirectives cursor) .loadArguments none
  | stops (cursor : DirectiveCursor σ) (result : FieldResult σ) :
    Leads (.runDirectives cursor) (.resolved result) none
  | finds (result : ArgumentsResult) : Leads .loadArguments (.argumentsLoaded result) none
  | asks (key : ArgumentKey) : Leads .loadArguments .awaitingArguments (some (.arguments key))
  | takes (arguments : Arguments) :
    Leads (.argumentsLoaded (.ok arguments)) (.callResolver arguments) none
  | fails (error : ArgumentError) :
    Leads (.argumentsLoaded (.error error)) (.resolved error.outcome) none
  | resolves (arguments : Arguments) (result : FieldResult σ) :
    Leads (.callResolver arguments) (.resolved result) none
  | waits (later : Lazy σ (FieldResult σ)) :
    Leads (.resolved (.ok (.lazy later))) .awaitingValue (some (.value (.start later)))
  | replaces (refusal : UnauthorizedError) {value : ResolvedValue σ}
      (final : value.isFinal = true) :
    Leads (.resolved (.ok (.unauthorized refusal))) (.resolved (.ok value)) none

/-! ### Items -/

/-- The state of an item that follows another one, and what is waited for in it. -/
inductive ItemState.Leads : ItemState σ → ItemState σ → Option (Wait σ) → Prop
  | directive {cursor next : DirectiveCursor σ} {item : ResolvedValue σ} {wait? : Option (Wait σ)}
      (leads : cursor.Leads next wait?) :
    Leads (.runDirectives cursor item) (.runDirectives next item) wait?
  | passes (cursor : DirectiveCursor σ) (item : ResolvedValue σ) :
    Leads (.runDirectives cursor item) (.resolved (.ok item)) none
  | stops (cursor : DirectiveCursor σ) (item : ResolvedValue σ) (result : FieldResult σ) :
    Leads (.runDirectives cursor item) (.resolved result) none
  | settles (value : ResolvedValue σ) : Leads (.resolved (.ok value)) (.settled value) none
  | fails (result : FieldResult σ) (error : ExecutionError) :
    Leads (.resolved result) (.settled (.error error)) none
  | waits (later : Lazy σ (FieldResult σ)) :
    Leads (.resolved (.ok (.lazy later))) .awaitingValue (some (.value (.start later)))
  | defers (later : Lazy σ (FieldResult σ)) :
    Leads (.settled (.lazy later)) .awaitingValue (some (.value (.start later)))
  | replaces (refusal : UnauthorizedError) {value : ResolvedValue σ}
      (final : value.isFinal = true) : Leads (.settled (.unauthorized refusal)) (.settled value) none

/-! ### Objects -/

/-- The state of an object that follows another one, and what is waited for in it. -/
inductive ObjectState.Leads : ObjectState σ → ObjectState σ → Option (Wait σ) → Prop
  | types (abstractType : TypeDefinition σ) (name : String) :
    Leads (.resolveType abstractType) (.typeResolved abstractType (.ok name)) none
  | asksType (abstractType : TypeDefinition σ) (later : Lazy σ (Except ResolverError String)) :
    Leads (.resolveType abstractType) (.awaitingType abstractType) (some (.type (.start later)))
  | takesType (abstractType : TypeDefinition σ) (name : String) (type : ObjectType σ) :
    Leads (.typeResolved abstractType (.ok name)) (.authorize type) none
  | permits (type : ObjectType σ) : Leads (.authorize type) (.allocate type) none
  | decides (type : ObjectType σ) (allowed : Bool) :
    Leads (.authorize type) (.authorized type (.ok allowed)) none
  | asksPermission (type : ObjectType σ) (later : Lazy σ (Except ResolverError Bool)) :
    Leads (.authorize type) (.awaitingAuthorization type) (some (.authorization (.start later)))
  | allows (type : ObjectType σ) : Leads (.authorized type (.ok true)) (.allocate type) none
  | refuses (type : ObjectType σ) {value : ResolvedValue σ} (final : value.isFinal = true) :
    Leads (.authorized type (.ok false)) (.replaced (.ok value)) none
  | waits (later : Lazy σ (FieldResult σ)) :
    Leads (.replaced (.ok (.lazy later))) .awaitingReplacement (some (.value (.start later)))
  | replaces (refusal : UnauthorizedError) {value : ResolvedValue σ}
      (final : value.isFinal = true) :
    Leads (.replaced (.ok (.unauthorized refusal))) (.replaced (.ok value)) none
  | allocates (type : ObjectType σ) (node : NodeId) :
    Leads (.allocate type) (.collect type node) none
  | asks (type : ObjectType σ) (node : NodeId) (key : ArgumentKey) :
    Leads (.collect type node) (.awaitingArguments type node) (some (.arguments key))

/-! ### Steps -/

/-- A step goes on in another state, at once or after a wait. -/
inductive Step.Leads : Step σ → Step σ → Option (Wait σ) → Prop
  | field {step : FieldStep σ} {state : FieldState σ} {wait? : Option (Wait σ)}
      (leads : step.state.Leads state wait?) : Leads (.field step) (.field { step with state }) wait?
  | item {step : ItemStep σ} {state : ItemState σ} {wait? : Option (Wait σ)}
      (leads : step.state.Leads state wait?) : Leads (.item step) (.item { step with state }) wait?
  | object {step : ObjectStep σ} {state : ObjectState σ} {wait? : Option (Wait σ)}
      (leads : step.state.Leads state wait?) :
    Leads (.object step) (.object { step with state }) wait?

/-- The step that goes on, and what it waits for. -/
def Progress.onward? : Progress σ → Option (Step σ × Option (Wait σ))
  | .again step => some (step, none)
  | .finished => none
  | .parked step _ wait => some (step, some wait)

variable {progress : Progress σ} {next : Step σ} {wait? : Option (Wait σ)}

/-- What replaces a refused value is written as it is. -/
theorem Position.final_of_refused (refuses : job.schema.RefusesFinally)
    {refusal : UnauthorizedError} {answer : Except ExecutionError (ResolvedValue σ)}
    (answered : (call (job.schema.unauthorized refusal job.query)).Gives s answer t) :
    (match answer with
      | .ok replacement => replacement
      | .error error => .error error).isFinal = true := by
  obtain ⟨rfl, -⟩ := gives_call.mp answered
  have always := (refuses refusal job.query).run s.world
  cases answer : ((job.schema.unauthorized refusal job.query).run s.world).1 with
  | ok value => exact always value answer
  | error error => rfl

/-- A field that goes on does so in a state that follows its own. -/
theorem FieldStep.Way.leads {step : FieldStep σ} (refuses : job.schema.RefusesFinally)
    (way : step.Way job s progress t) (goes : progress.onward? = some (next, wait?)) :
    (Step.field step).Leads next wait? := by
  cases way with
  | directs state directed | awaits state directed =>
      cases goes
      exact .field (state ▸ .directive (DirectiveCursor.way directed |>.leads rfl))
  | passes state =>
      cases goes
      exact .field (state ▸ .passes _)
  | stops state =>
      cases goes
      exact .field (state ▸ .stops _ _)
  | finds state =>
      cases goes
      exact .field (state ▸ .finds _)
  | asks state =>
      cases goes
      exact .field (state ▸ .asks _)
  | takes state =>
      cases goes
      exact .field (state ▸ .takes _)
  | fails state =>
      cases goes
      exact .field (state ▸ .fails _)
  | resolves state =>
      cases goes
      exact .field (state ▸ .resolves _ _)
  | waits state settled completed =>
      obtain ⟨rfl, -⟩ := Position.complete_waiting completed
      obtain rfl | ⟨error, same⟩ := settle_cases settled
      · cases goes
        exact .field (state ▸ .waits _)
      · cases same
  | replaces state settled completed =>
      obtain ⟨refusal, answer, rfl, answered, rfl⟩ := Position.complete_replaced completed
      obtain rfl | ⟨error, same⟩ := settle_cases settled
      · cases goes
        exact .field (state ▸ .replaces refusal (Position.final_of_refused refuses answered))
      · cases same
  | skips | completes => cases goes

/-- An item that goes on does so in a state that follows its own. -/
theorem ItemStep.Way.leads {step : ItemStep σ} (refuses : job.schema.RefusesFinally)
    (way : step.Way job s progress t) (goes : progress.onward? = some (next, wait?)) :
    (Step.item step).Leads next wait? := by
  cases way with
  | directs state directed | awaits state directed =>
      cases goes
      exact .item (state ▸ .directive (DirectiveCursor.way directed |>.leads rfl))
  | passes state =>
      cases goes
      exact .item (state ▸ .passes _ _)
  | stops state =>
      cases goes
      exact .item (state ▸ .stops _ _ _)
  | waits state settled =>
      obtain rfl | ⟨error, same⟩ := settle_cases settled
      · cases goes
        exact .item (state ▸ .waits _)
      · cases same
  | settles state settled =>
      cases goes
      obtain rfl | ⟨error, rfl⟩ := settle_cases settled
      · exact .item (state ▸ .settles _)
      · exact .item (state ▸ .fails _ error)
  | defers state completed =>
      obtain ⟨rfl, -⟩ := Position.complete_waiting completed
      cases goes
      exact .item (state ▸ .defers _)
  | replaces state completed =>
      obtain ⟨refusal, answer, rfl, answered, rfl⟩ := Position.complete_replaced completed
      cases goes
      exact .item (state ▸ .replaces refusal (Position.final_of_refused refuses answered))
  | skips | completes => cases goes

namespace ObjectStep

variable {step : ObjectStep σ}

/-- An object that gives way to a value goes on only if that is a lazy or a refusal. -/
theorem GivesWay.leads (refuses : job.schema.RefusesFinally) {value : ResolvedValue σ}
    (gives_way : step.GivesWay job value s progress t)
    (waits : ∀ later, value = .lazy later →
      step.state.Leads .awaitingReplacement (some (.value (.start later))))
    (replaces : ∀ refusal, value = .unauthorized refusal → ∀ final : ResolvedValue σ,
      final.isFinal = true → step.state.Leads (.replaced (.ok final)) none)
    (goes : progress.onward? = some (next, wait?)) : (Step.object step).Leads next wait? := by
  cases gives_way with
  | waits _ completed =>
      cases goes
      exact .object (waits _ (Position.complete_waiting completed).1)
  | replaces _ completed =>
      obtain ⟨refusal, answer, refused, answered, rfl⟩ := Position.complete_replaced completed
      cases goes
      exact .object (replaces refusal refused _ (Position.final_of_refused refuses answered))
  | root | completes => cases goes

/-- An object that gives way to an error does not go on. -/
theorem GivesWay.error_leads (refuses : job.schema.RefusesFinally) {error : ExecutionError}
    (gives_way : step.GivesWay job (.error error) s progress t)
    (goes : progress.onward? = some (next, wait?)) : (Step.object step).Leads next wait? := by
  refine gives_way.leads refuses ?_ ?_ goes
  · intro later same
    cases same
  · intro refusal same
    cases same

/-- An object that fails goes on only if it fails with a refusal, or with what has replaced one. -/
theorem Fails.leads (refuses : job.schema.RefusesFinally) {value : ResolvedValue σ} {u : Stage σ}
    (fails : step.Fails job s value u) (gives_way : step.GivesWay job value u progress t)
    (goes : progress.onward? = some (next, wait?)) : (Step.object step).Leads next wait? := by
  cases fails with
  | mistyped _ settled | unauthorized _ settled =>
      obtain same | ⟨error, rfl⟩ := settle_cases settled
      · cases same
      · exact gives_way.error_leads refuses goes
  | refused state =>
      refine gives_way.leads refuses ?_ ?_ goes
      · intro later same
        cases same
      · exact fun _ _ value final => state ▸ .refuses _ final
  | replaced state settled =>
      obtain rfl | ⟨error, rfl⟩ := settle_cases settled
      · refine gives_way.leads refuses ?_ ?_ goes
        · rintro later rfl
          exact state ▸ .waits later
        · rintro refusal rfl value final
          exact state ▸ .replaces refusal final
      · exact gives_way.error_leads refuses goes

/-- An object that goes on does so in a state that follows its own. -/
theorem Way.leads (refuses : job.schema.RefusesFinally) (way : step.Way job s progress t)
    (goes : progress.onward? = some (next, wait?)) : (Step.object step).Leads next wait? := by
  cases way with
  | types state =>
      cases goes
      exact .object (state ▸ .types _ _)
  | asksType state =>
      cases goes
      exact .object (state ▸ .asksType _ _)
  | takesType state =>
      cases goes
      exact .object (state ▸ .takesType _ _ _)
  | permits state =>
      cases goes
      exact .object (state ▸ .permits _)
  | decides state =>
      cases goes
      exact .object (state ▸ .decides _ _)
  | asksPermission state =>
      cases goes
      exact .object (state ▸ .asksPermission _ _)
  | allows state =>
      cases goes
      exact .object (state ▸ .allows _)
  | fails fails gives_way => exact fails.leads refuses gives_way goes
  | allocates state =>
      cases goes
      exact .object (state ▸ .allocates _ _)
  | asks state =>
      cases goes
      exact .object (state ▸ .asks _ _ _)
  | collects => cases goes

end ObjectStep

/-- A step that goes on does so in a state that follows its own. -/
theorem Step.advance_leads {step : Step σ} (refuses : job.schema.RefusesFinally)
    (gives : (step.advance job).Gives s progress t)
    (goes : progress.onward? = some (next, wait?)) : step.Leads next wait? := by
  cases Step.way gives with
  | dropped => cases goes
  | object _ way => exact way.leads refuses goes
  | field _ way => exact way.leads refuses goes
  | item _ way => exact way.leads refuses goes

end GraphExec
