import GraphExec.Proofs.Run.Transitions
import GraphExec.Proofs.TypeSyntax

/-!
# The fatal errors of transitions

A transition ends in a fatal error for few reasons: the application fails unexpectedly, names a type
that is none, or answers what no list or object can be made from; an input type is declared for an
output; a field is selected that there is not. It ends in no other one if the step waits for nothing,
if the root object is not about to be replaced, and if the types that it comes to are known and rule
out null once at most.
-/

namespace GraphExec

variable {σ α β : Type} {job : Job σ} {s t : Stage σ}

/-- The fatal errors that a run may end in. -/
inductive FatalError.Arises : FatalError → Prop
  | unhandled (path : Path) (message : String) : Arises (.unhandled path message)
  | unresolvedType (abstractType resolved : String) :
    Arises (.unresolvedType abstractType resolved)
  | listExpected (path : Path) (found : String) : Arises (.listExpected path found)
  | unknownField (typeName fieldName : String) : Arises (.unknownField typeName fieldName)
  | unbuildable (typeName found : String) : Arises (.invariant (.unbuildable typeName found))
  | inputTypeAsOutput (typeName : String) : Arises (.invariant (.inputTypeAsOutput typeName))

/-! ### What is waited for -/

/-- The kind of the answer that a directive waits for. -/
def DirectiveStage.awaited? : DirectiveStage → Option String
  | awaitingArguments => some "arguments"
  | awaitingAnswer => some "directive"
  | _ => none

def FieldState.awaited? : FieldState σ → Option String
  | runDirectives cursor => cursor.stage.awaited?
  | awaitingArguments => some "arguments"
  | awaitingValue => some "value"
  | _ => none

def ItemState.awaited? : ItemState σ → Option String
  | runDirectives cursor _ => cursor.stage.awaited?
  | awaitingValue => some "value"
  | _ => none

def ObjectState.awaited? : ObjectState σ → Option String
  | awaitingType _ => some "type"
  | awaitingAuthorization _ => some "authorization"
  | awaitingReplacement => some "value"
  | awaitingArguments _ _ => some "arguments"
  | _ => none

/-- The kind of the answer that a step waits for, if it waits. -/
def Step.awaited? : Step σ → Option String
  | .object step => step.state.awaited?
  | .field step => step.state.awaited?
  | .item step => step.state.awaited?

/-! ### Types that are known -/

/-- A type that a position may have: it rules out null nowhere twice, and its name is known. -/
structure TypeRef.Proper (schema : Schema σ) (type : TypeRef) : Prop where
  separated : type.Separated
  known : ∃ definition, schema.type? type.namedType = some definition

/-- The fields of an object type have proper types. -/
def ObjectType.Proper (schema : Schema σ) (type : ObjectType σ) : Prop :=
  ∀ name field, Fields.get? type.fields name = some field → field.type.Proper schema

/-- All object types of a schema are proper. -/
def Schema.Proper (schema : Schema σ) : Prop :=
  ∀ name type, schema.objectType? name = some type → type.Proper schema

/-- The type that the building of an object has come to is proper, and the root is never replaced. -/
def ObjectState.Proper (schema : Schema σ) (target : ObjectTarget σ) : ObjectState σ → Prop
  | authorize type => type.Proper schema
  | awaitingAuthorization type => type.Proper schema
  | authorized type _ => type.Proper schema
  | allocate type => type.Proper schema
  | collect type _ => type.Proper schema
  | awaitingArguments type _ => type.Proper schema
  | awaitingReplacement => target ≠ .root
  | replaced _ => target ≠ .root
  | _ => True

/-- An object is built at the root or at a position of a proper type. -/
def ObjectTarget.Proper (schema : Schema σ) (target : ObjectTarget σ) : Prop :=
  ∀ position, target = .child position → position.type.Proper schema

/-- A step works at a position of a proper type. -/
def Step.Proper (schema : Schema σ) : Step σ → Prop
  | .object step => step.target.Proper schema ∧ step.state.Proper schema step.target
  | .field step => step.site.field.type.Proper schema
  | .item step => step.position.type.Proper schema

theorem TypeRef.Proper.item {schema : Schema σ} {type itemType : TypeRef}
    (proper : type.Proper schema) (list : type.nullable = .list itemType) :
    itemType.Proper schema := by
  obtain ⟨separated, known⟩ := proper
  cases type with
  | named name => cases list
  | list item =>
      cases list
      exact ⟨separated, known⟩
  | nonNull inner =>
      obtain rfl : inner = .list itemType := list
      exact ⟨separated.2, known⟩

theorem TypeRef.Proper.named {schema : Schema σ} {type : TypeRef} {name : String}
    (proper : type.Proper schema) (named : type.nullable = .named name) :
    ∃ definition, schema.type? name = some definition := by
  obtain ⟨-, known⟩ := proper
  cases type with
  | named other =>
      cases named
      exact known
  | list item => cases named
  | nonNull inner =>
      obtain rfl : inner = .named name := named
      exact known

theorem TypeRef.Separated.nullable_ne {type : TypeRef} (separated : type.Separated)
    (inner : TypeRef) : type.nullable ≠ .nonNull inner := by
  intro doubly
  cases type with
  | named name => cases doubly
  | list item => cases doubly
  | nonNull other =>
      obtain rfl : other = .nonNull inner := doubly
      cases separated.1

namespace Engine

/-! ### Programs -/

/-- A program ends in no other fatal error than one that may arise. -/
def Tame (program : Engine σ α) : Prop :=
  ∀ s error, program.Fails s error → error.Arises

theorem tame_of_gives {program : Engine σ α} (gives : ∀ s, ∃ a t, program.Gives s a t) :
    Tame program := by
  intro s error fails
  obtain ⟨a, t, answered⟩ := gives s
  exact absurd fails (answered.not_fails error)

theorem tame_pure (a : α) : Tame (pure a : Engine σ α) :=
  tame_of_gives fun s => ⟨a, s, gives_pure.mpr ⟨rfl, rfl⟩⟩

theorem tame_throw {error : FatalError} (arises : error.Arises) :
    Tame (throw error : Engine σ α) := by
  intro s other fails
  have same : Except.error (α := α) error = .error other := fails
  injection same with same
  exact same ▸ arises

/-- A program goes on with what another one has answered. -/
theorem tame_bind_of {x : Engine σ α} {f : α → Engine σ β} (first : Tame x)
    (then_ : ∀ s a t, x.Gives s a t → Tame (f a)) : Tame (x >>= f) := by
  intro s error fails
  rcases fails_bind.mp fails with fails | ⟨a, t, answered, fails⟩
  · exact first s error fails
  · exact then_ s a t answered t error fails

theorem tame_bind {x : Engine σ α} {f : α → Engine σ β} (first : Tame x)
    (then_ : ∀ a, Tame (f a)) : Tame (x >>= f) :=
  tame_bind_of first fun _ a _ _ => then_ a

theorem tame_call (action : Action σ α) : Tame (call action) :=
  tame_of_gives fun _ => ⟨_, _, gives_call.mpr ⟨rfl, rfl⟩⟩

theorem tame_tell (event : Event) : Tame (tell event : Engine σ Unit) :=
  tame_of_gives fun _ => ⟨(), _, gives_tell.mpr rfl⟩

theorem tame_draft : Tame (draft : Engine σ Draft) :=
  tame_of_gives fun _ => ⟨_, _, gives_draft.mpr ⟨rfl, rfl⟩⟩

theorem tame_modifyRun (f : Run σ → Run σ) : Tame (modifyRun f : Engine σ Unit) :=
  tame_of_gives fun _ => ⟨(), _, gives_modifyRun.mpr rfl⟩

theorem tame_allocate (f : Draft → NodeId × Draft) : Tame (allocate f : Engine σ NodeId) :=
  tame_of_gives fun _ => ⟨_, _, gives_allocate.mpr ⟨rfl, rfl⟩⟩

theorem tame_get : Tame (get : Engine σ (Stage σ)) :=
  tame_of_gives fun s => ⟨s, s, rfl⟩

theorem tame_identify (value : AppValue) : Tame (identify value : Engine σ Subject) := by
  cases value with
  | object o => exact tame_pure _
  | data v => exact tame_bind tame_get fun _ => tame_bind (tame_modifyRun _) fun _ => tame_pure _

theorem tame_lookUp (key : ArgumentKey) (coerce : Action σ (Coercion σ)) :
    Tame (lookUp key coerce) := by
  refine tame_bind tame_get fun stage => ?_
  split
  · exact tame_pure _
  · exact tame_bind (tame_call _) fun _ => tame_bind (tame_modifyRun _) fun _ => tame_pure _

theorem tame_rescue (job : Job σ) (message : String) (path : Path) :
    Tame (rescue job message path) := by
  refine tame_bind (tame_call _) fun error => ?_
  cases error with
  | none => exact tame_throw (.unhandled path message)
  | some error => exact tame_pure _

theorem tame_settle (job : Job σ) (path : Path) (result : FieldResult σ) :
    Tame (settle job path result) := by
  cases result with
  | ok value => exact tame_pure _
  | error error =>
      cases error with
      | execution error => exact tame_pure _
      | unexpected message => exact tame_bind (tame_rescue _ _ _) fun _ => tame_pure _

end Engine

open Engine

/-! ### Directives -/

theorem Directive.tame_lookUp (directive : Directive) (job : Job σ)
    (definition : DirectiveDefinition σ) (parent : Identity) :
    Tame (directive.lookUp job definition parent) :=
  tame_bind (Engine.tame_lookUp _ _) fun _ => tame_pure _

theorem DirectiveCursor.tame_advance {cursor : DirectiveCursor σ} (awake : cursor.stage.awaited? = none)
    (job : Job σ) (owner : Subject) (path : Path) : Tame (cursor.advance job owner path) := by
  obtain ⟨uses, stage⟩ := cursor
  cases uses with
  | nil => exact tame_pure _
  | cons use rest =>
      cases stage with
      | unstarted =>
          refine tame_bind (Directive.tame_lookUp _ _ _ _) fun found => ?_
          obtain ⟨key, result?⟩ := found
          cases result? <;> exact tame_pure _
      | called result =>
          cases result with
          | error error => exact tame_pure _
          | ok arguments =>
              refine tame_bind (tame_call _) fun answer => ?_
              split <;> exact tame_pure _
      | answered flow =>
          cases flow with
          | error error => exact tame_pure _
          | ok flow => cases flow <;> exact tame_pure _
      | awaitingArguments => cases awake
      | awaitingAnswer => cases awake

/-! ### Fields -/

namespace FieldSite

theorem tame_lookUpArguments (site : FieldSite σ) (job : Job σ) :
    Tame (site.lookUpArguments job) := by
  unfold lookUpArguments
  split
  · exact tame_pure _
  · exact Engine.tame_lookUp _ _

theorem tame_provide (site : FieldSite σ) (job : Job σ) (values : Fields Value)
    (extras : List Extra) : Tame (site.provide job values extras) := by
  induction extras generalizing values with
  | nil => exact tame_pure _
  | cons extra rest ih =>
      cases extra with
      | custom name =>
          unfold provide
          cases site.field.provide? with
          | some provide => exact tame_bind (tame_call _) fun value => ih _
          | none => exact tame_bind (tame_pure _) fun value => ih _
      | _ => exact ih values

theorem tame_reportAll (site : FieldSite σ) (path : Path) (errors : List ExecutionError) :
    Tame (site.reportAll path errors : Engine σ Unit) := by
  induction errors with
  | nil => exact tame_pure _
  | cons error rest ih => exact tame_bind (tame_modifyRun _) fun _ => ih

theorem tame_callResolver (site : FieldSite σ) (path : Path) (context : ResolverContext σ) :
    Tame (site.callResolver path context) := by
  unfold callResolver
  refine tame_bind (tame_tell _) fun _ => ?_
  have answer (program : Engine σ (Resolution σ)) (tame : Tame program) : Tame (do
      let resolution ← program
      tell (.endField site.typeName site.field.name path)
      return resolution) :=
    tame_bind tame fun _ => tame_bind (tame_tell _) fun _ => tame_pure _
  cases site.field.resolve? with
  | some resolve => exact answer _ (tame_call _)
  | none => exact answer _ (tame_pure _)

theorem tame_resolve (site : FieldSite σ) (job : Job σ) (parent : NodeId) (path : Path)
    (arguments : Arguments) : Tame (site.resolve job parent path arguments) := by
  unfold resolve
  refine tame_bind (tame_bind tame_draft fun _ => tame_bind (tame_provide _ _ _ _)
    fun _ => tame_pure _) fun extras => ?_
  have answer : ∀ allowed, Tame (if allowed = true then do
      let resolution ← site.callResolver path
        ⟨site.owner.value, arguments, job.query, site.typeName, site.field.name, extras⟩
      if extras.reporting = true then site.reportAll path resolution.reported
      return resolution.result
    else return .ok (.unauthorized (.field site.typeName site.field.name))) := by
    intro allowed
    split
    · refine tame_bind (tame_callResolver _ _ _) fun resolution => ?_
      split
      · exact tame_bind (tame_reportAll _ _ _) fun _ => tame_pure _
      · exact tame_pure _
    · exact tame_pure _
  cases site.field.authorize? with
  | some authorize => exact tame_bind (tame_call _) answer
  | none => exact tame_bind (tame_pure _) answer

end FieldSite

/-! ### Selections -/

namespace Grouper

theorem tame_argumentError (grouper : Grouper σ) (error : ArgumentError) :
    Tame (grouper.argumentError error) := by
  cases error with
  | unexpected message => exact tame_rescue _ _ _
  | _ => exact tame_pure _

theorem tame_inclusion (grouper : Grouper σ) (directives : List Directive) :
    Tame (grouper.inclusion directives) := by
  induction directives with
  | nil => exact tame_pure _
  | cons directive rest ih =>
      unfold inclusion
      split
      · exact ih
      · split
        · exact ih
        · refine tame_bind (Directive.tame_lookUp _ _ _ _) fun found => ?_
          split
          · exact tame_pure _
          · refine tame_bind (tame_call _) fun kept => ?_
            split
            · exact ih
            · exact tame_pure _
          · exact tame_bind (tame_argumentError _ _) fun _ => tame_pure _

theorem tame_groupFrom (grouper : Grouper σ) (available : Fields Fragment)
    (selections : List Selection) :
    ∀ found, Tame (grouper.groupFrom available selections found) := by
  induction available, selections using grouper.descent with
  | nil available =>
      intro found
      rw [groupFrom_nil]
      exact tame_pure _
  | cons available selection rest tail inside =>
      intro found
      obtain ⟨next, same, goes_on⟩ := grouper.groupFrom_cons available selection rest found
      rw [same]
      refine tame_bind (tame_inclusion _ _) fun inclusion => ?_
      have onward := goes_on inclusion
      generalize next inclusion = program at onward ⊢
      cases onward with
      | waiting key => exact tame_pure _
      | enters inner selections within =>
          refine tame_bind (inside inner selections within found) fun result => ?_
          cases result with
          | waiting key => exact tame_pure _
          | complete found => exact tail _
      | _ => exact tail _

theorem tame_group (grouper : Grouper σ) (selections : List Selection) :
    Tame (grouper.group selections) :=
  tame_groupFrom grouper _ _ _

end Grouper

/-! ### Positions -/

namespace Position

theorem tame_write (position : Position σ) (value : Value) :
    Tame (position.write value : Engine σ Unit) :=
  tame_modifyRun _

theorem tame_writeRaw (position : Position σ) (value : Value) :
    Tame (position.writeRaw value : Engine σ Unit) :=
  tame_modifyRun _

theorem tame_skip (position : Position σ) : Tame (position.skip : Engine σ Unit) :=
  tame_modifyRun _

theorem tame_report (position : Position σ) (error : ExecutionError) :
    Tame (position.report error : Engine σ Unit) :=
  tame_bind tame_draft fun _ => tame_modifyRun _

theorem tame_writeNull (position : Position σ) : Tame (position.writeNull : Engine σ Unit) := by
  unfold writeNull
  split
  · exact tame_bind (tame_report _ _) fun _ => tame_write _ _
  · exact tame_write _ _

theorem tame_writeError (position : Position σ) (error : ExecutionError) :
    Tame (position.writeError error : Engine σ Unit) :=
  tame_bind (tame_report _ _) fun _ => tame_write _ _

theorem tame_writeLeaf (position : Position σ) (coerced : Except String Value) :
    Tame (position.writeLeaf coerced : Engine σ Unit) := by
  cases coerced with
  | error message => exact tame_writeError _ _
  | ok value =>
      unfold writeLeaf
      simp only
      split
      · exact tame_writeNull _
      · exact tame_write _ _

theorem tame_openList (position : Position σ) (size : Nat) :
    Tame (position.openList size : Engine σ NodeId) :=
  tame_allocate _

theorem tame_writeErrorItems (position : Position σ) (list : NodeId) (itemType : TypeRef)
    (errors : List ExecutionError) :
    ∀ n, Tame (position.writeErrorItems list itemType n errors : Engine σ Unit) := by
  induction errors with
  | nil => exact fun _ => tame_pure _
  | cons error rest ih => exact fun _ => tame_bind (tame_writeError _ _) fun _ => ih _

theorem tame_reportAll (position : Position σ) (errors : List ExecutionError) :
    Tame (position.reportAll errors : Engine σ Unit) := by
  induction errors with
  | nil => exact tame_pure _
  | cons error rest ih => exact tame_bind (tame_report _ _) fun _ => ih

theorem tame_completeErrors (position : Position σ) (errors : List ExecutionError) :
    Tame (position.completeErrors errors : Engine σ Unit) := by
  unfold completeErrors
  split
  · exact tame_bind (tame_openList _ _) fun _ => tame_writeErrorItems _ _ _ _ _
  · exact tame_bind (tame_reportAll _ _) fun _ => tame_write _ _

theorem tame_enqueueItems (position : Position σ) (list : NodeId) (itemType : TypeRef)
    (cursor : DirectiveCursor σ) (items : List (ResolvedValue σ)) :
    ∀ n, Tame (position.enqueueItems list itemType cursor n items) := by
  induction items with
  | nil => exact fun _ => tame_pure _
  | cons item rest ih => exact fun _ => tame_bind (tame_modifyRun _) fun _ => ih _

theorem tame_completeList (position : Position σ) (job : Job σ) (itemType : TypeRef)
    (items : List (ResolvedValue σ)) : Tame (position.completeList job itemType items) :=
  tame_bind (tame_openList _ _) fun _ => tame_enqueueItems _ _ _ _ _ _

theorem tame_completeLeaf (position : Position σ) (typeName : String)
    (coerce : Value → Action σ (Except String Value)) (value : ResolvedValue σ) :
    Tame (position.completeLeaf typeName coerce value) := by
  cases value with
  | value v => exact tame_bind (tame_call _) fun _ => tame_writeLeaf _ _
  | _ => exact tame_writeLeaf _ _

theorem tame_completeObject (position : Position σ) (type : TypeDefinition σ)
    (value : ResolvedValue σ) : Tame (position.completeObject type value) := by
  unfold completeObject
  split
  · exact tame_throw (.unbuildable _ _)
  · exact tame_bind (tame_identify _) fun _ => tame_modifyRun _

/-- A position of a proper type is completed by it: it rules out null once at most, and its name is
known. -/
theorem tame_completeByType {position : Position σ} (proper : position.type.Proper job.schema)
    (value : ResolvedValue σ) : Tame (position.completeByType job value) := by
  unfold completeByType
  split
  · split
    · exact tame_completeList _ _ _ _
    · exact tame_completeList _ _ _ _
    · exact tame_bind tame_draft fun _ => tame_throw (.listExpected _ _)
  · rename_i name named
    obtain ⟨definition, known⟩ := proper.named named
    rw [known]
    cases definition with
    | scalar t => exact tame_completeLeaf _ _ _ _
    | enum t => exact tame_completeLeaf _ _ _ _
    | inputObject t => exact tame_throw (.inputTypeAsOutput _)
    | _ => exact tame_completeObject _ _ _
  · rename_i inner doubly
    exact absurd doubly (proper.separated.nullable_ne inner)

theorem tame_complete {position : Position σ} (proper : position.type.Proper job.schema)
    (value : ResolvedValue σ) : Tame (position.complete job value) := by
  have byType : Tame (position.completeByType job value) := tame_completeByType proper value
  have done (program : Engine σ Unit) (tame : Tame program) : Tame (do
      program
      return (.done : Completion σ)) :=
    tame_bind tame fun _ => tame_pure _
  cases value with
  | lazy later => exact tame_pure _
  | unauthorized refusal =>
      refine tame_bind (tame_call _) fun replacement => ?_
      cases replacement <;> exact tame_pure _
  | value v =>
      cases v with
      | null => exact done _ (tame_writeNull _)
      | _ => exact done _ byType
  | error error => exact done _ (tame_writeError _ _)
  | skip => exact done _ (tame_skip _)
  | raw v => exact done _ (tame_writeRaw _ _)
  | list items =>
      cases items with
      | nil => exact done _ byType
      | cons first rest =>
          unfold complete
          simp only
          split
          · exact done _ (tame_completeErrors _ _)
          · exact done _ byType
  | _ => exact done _ byType

end Position

/-! ### Steps -/

namespace FieldStep

theorem tame_park (step : FieldStep σ) (state : FieldState σ) (wait : Wait σ) :
    Tame (step.park state wait) :=
  tame_bind tame_draft fun _ => tame_pure _

theorem tame_advanceAlive {step : FieldStep σ} (awake : step.state.awaited? = none)
    (proper : step.site.field.type.Proper job.schema) : Tame (step.advanceAlive job) := by
  obtain ⟨parent, key, site, state⟩ := step
  refine tame_bind tame_draft fun draft => ?_
  cases state with
  | runDirectives cursor =>
      refine tame_bind (DirectiveCursor.tame_advance awake _ _ _) fun progress => ?_
      cases progress with
      | skipped => exact tame_bind (Position.tame_skip _) fun _ => tame_pure _
      | waiting cursor wait => exact tame_park _ _ _
      | _ => exact tame_pure _
  | loadArguments =>
      refine tame_bind (FieldSite.tame_lookUpArguments _ _) fun result? => ?_
      cases result? with
      | some result => exact tame_pure _
      | none => exact tame_park _ _ _
  | argumentsLoaded result => cases result <;> exact tame_pure _
  | callResolver arguments =>
      exact tame_bind (FieldSite.tame_resolve _ _ _ _ _) fun _ => tame_pure _
  | resolved result =>
      refine tame_bind (tame_settle _ _ _) fun value => ?_
      refine tame_bind (Position.tame_complete proper _) fun completion => ?_
      cases completion with
      | waiting lazy => exact tame_park _ _ _
      | _ => exact tame_pure _
  | awaitingArguments => cases awake
  | awaitingValue => cases awake

end FieldStep

namespace ItemStep

theorem tame_park (step : ItemStep σ) (state : ItemState σ) (wait : Wait σ) :
    Tame (step.park state wait) :=
  tame_bind tame_draft fun _ => tame_pure _

theorem tame_advanceAlive {step : ItemStep σ} (awake : step.state.awaited? = none)
    (proper : step.position.type.Proper job.schema) : Tame (step.advanceAlive job) := by
  obtain ⟨position, state⟩ := step
  refine tame_bind tame_draft fun draft => ?_
  cases state with
  | runDirectives cursor item =>
      refine tame_bind (DirectiveCursor.tame_advance awake _ _ _) fun progress => ?_
      cases progress with
      | skipped => exact tame_bind (Position.tame_skip _) fun _ => tame_pure _
      | waiting cursor wait => exact tame_park _ _ _
      | _ => exact tame_pure _
  | resolved result =>
      refine tame_bind (tame_settle _ _ _) fun value => ?_
      cases value with
      | lazy lazy => exact tame_park _ _ _
      | _ => exact tame_pure _
  | settled value =>
      refine tame_bind (Position.tame_complete proper _) fun completion => ?_
      cases completion with
      | waiting lazy => exact tame_park _ _ _
      | _ => exact tame_pure _
  | awaitingValue => cases awake

end ItemStep

namespace ObjectStep

variable {step : ObjectStep σ}

theorem tame_park (step : ObjectStep σ) (state : ObjectState σ) (wait : Wait σ) :
    Tame (step.park state wait) :=
  tame_bind tame_draft fun _ => tame_pure _

/-- The root object is given up unless what it failed with takes time. -/
theorem tame_failRoot {value : ResolvedValue σ} (ready : ∀ later, value ≠ .lazy later) :
    Tame (failRoot job value) := by
  have clear : Tame (modifyDraft Draft.nullData : Engine σ Unit) := tame_modifyRun _
  have report (error : ExecutionError) : Tame (do
      Engine.report error
      modifyDraft Draft.nullData : Engine σ Unit) :=
    tame_bind (tame_modifyRun _) fun _ => clear
  cases value with
  | lazy later => exact absurd rfl (ready later)
  | error error => exact report error
  | unauthorized refusal =>
      refine tame_bind (tame_call _) fun replacement => ?_
      split
      · exact report _
      · exact report _
      · exact clear
  | _ => exact clear

theorem tame_fail {value : ResolvedValue σ} (proper : step.target.Proper job.schema)
    (ready : step.target = .root → ∀ later, value ≠ .lazy later) :
    Tame (step.fail job value) := by
  obtain ⟨target, subject, selections, serial, state⟩ := step
  cases target with
  | root => exact tame_bind (tame_failRoot (ready rfl)) fun _ => tame_pure _
  | child position =>
      refine tame_bind (Position.tame_complete (proper position rfl) _) fun completion => ?_
      cases completion with
      | waiting lazy => exact tame_park _ _ _
      | _ => exact tame_pure _

/-- What has failed stands for an error, so that even the root object can be given up with it. -/
theorem tame_failWith {result : FieldResult σ} (proper : step.target.Proper job.schema)
    (failed : step.target = .root → ∃ failure, result = .error failure) :
    Tame (step.failWith job result) := by
  refine tame_bind tame_draft fun draft => ?_
  refine tame_bind_of (tame_settle _ _ _) fun s value t settled => ?_
  refine tame_fail proper fun root later => ?_
  obtain ⟨failure, rfl⟩ := failed root
  obtain ⟨error, rfl⟩ := settle_error settled
  exact nofun

theorem tame_askType (step : ObjectStep σ) (job : Job σ) (abstractType : TypeDefinition σ) :
    Tame (step.askType job abstractType) := by
  refine tame_bind (tame_tell _) fun _ => tame_bind (tame_call _) fun answer => ?_
  cases answer with
  | none => exact tame_bind (tame_tell _) fun _ => tame_throw (.unresolvedType _ _)
  | some answer =>
      cases answer with
      | ready name => exact tame_pure _
      | later lazy => exact tame_park _ _ _

theorem tame_takeType (proper : step.target.Proper job.schema)
    (abstractType : TypeDefinition σ) (result : Except ResolverError String) :
    Tame (step.takeType job abstractType result) := by
  cases result with
  | error error =>
      exact tame_bind (tame_tell _) fun _ => tame_failWith proper fun _ => ⟨error, rfl⟩
  | ok name =>
      refine tame_bind (tame_tell _) fun _ => ?_
      split
      · exact tame_pure _
      · exact tame_throw (.unresolvedType _ _)

theorem tame_askAuthorization (step : ObjectStep σ) (job : Job σ) (type : ObjectType σ) :
    Tame (step.askAuthorization job type) := by
  unfold askAuthorization
  split
  · exact tame_pure _
  · refine tame_bind (tame_tell _) fun _ => tame_bind (tame_call _) fun answer => ?_
    cases answer with
    | ready allowed => exact tame_pure _
    | later lazy => exact tame_park _ _ _

theorem tame_takeAuthorization (proper : step.target.Proper job.schema) (type : ObjectType σ)
    (result : Except ResolverError Bool) : Tame (step.takeAuthorization job type result) := by
  refine tame_bind (tame_tell _) fun _ => ?_
  cases result with
  | error error => exact tame_failWith proper fun _ => ⟨error, rfl⟩
  | ok allowed =>
      cases allowed with
      | true => exact tame_pure _
      | false => exact tame_fail proper fun _ => nofun

theorem tame_build (step : ObjectStep σ) : Tame (step.allocate : Engine σ NodeId) := by
  unfold allocate
  split
  · exact tame_pure _
  · exact tame_allocate _

theorem tame_launch (step : ObjectStep σ) (job : Job σ) (type : ObjectType σ) (node : NodeId)
    (key : String) (group : FieldGroup) : Tame (step.launch job type node key group) := by
  unfold launch
  simp only
  split
  · exact tame_modifyRun _
  · split
    · exact tame_throw (.unknownField _ _)
    · split
      · exact tame_modifyRun _
      · exact tame_modifyRun _

theorem tame_launchAll (step : ObjectStep σ) (job : Job σ) (type : ObjectType σ) (node : NodeId)
    (groups : Groups) : Tame (step.launchAll job type node groups) := by
  induction groups with
  | nil => exact tame_pure _
  | cons entry rest ih => exact tame_bind (tame_launch _ _ _ _ _ _) fun _ => ih

theorem tame_collect (step : ObjectStep σ) (job : Job σ) (type : ObjectType σ) (node : NodeId) :
    Tame (step.collect job type node) := by
  refine tame_bind tame_draft fun draft => ?_
  refine tame_bind (Grouper.tame_group _ _) fun result => ?_
  cases result with
  | waiting key => exact tame_park _ _ _
  | complete grouping =>
      exact tame_bind (tame_modifyRun _) fun _ => tame_bind (tame_modifyRun _) fun _ =>
        tame_bind (tame_launchAll _ _ _ _ _) fun _ => tame_pure _

theorem tame_advanceAlive (awake : step.state.awaited? = none)
    (proper : step.target.Proper job.schema)
    (stateProper : step.state.Proper job.schema step.target) : Tame (step.advanceAlive job) := by
  unfold advanceAlive
  cases atState : step.state with
  | resolveType abstractType => exact tame_askType _ _ _
  | typeResolved abstractType result => exact tame_takeType proper _ _
  | authorize type => exact tame_askAuthorization _ _ _
  | authorized type result => exact tame_takeAuthorization proper _ _
  | replaced result =>
      rw [atState] at stateProper
      exact tame_failWith proper fun root => absurd root stateProper
  | allocate type => exact tame_bind (tame_build _) fun _ => tame_pure _
  | collect type node => exact tame_collect _ _ _ _
  | _ =>
      -- the other states wait
      rw [atState] at awake
      cases awake

end ObjectStep

/-- A step that waits for nothing, at a position of a proper type, ends in no other fatal error than
one that may arise. -/
theorem Step.tame_advance {step : Step σ} (awake : step.awaited? = none)
    (proper : step.Proper job.schema) : Tame (step.advance job) := by
  cases step with
  | object step =>
      refine tame_bind tame_draft fun draft => ?_
      split
      · exact ObjectStep.tame_advanceAlive awake proper.1 proper.2
      · exact tame_pure _
  | field step =>
      refine tame_bind tame_draft fun draft => ?_
      split
      · exact tame_pure _
      · exact FieldStep.tame_advanceAlive awake proper
  | item step =>
      refine tame_bind tame_draft fun draft => ?_
      split
      · exact tame_pure _
      · exact ItemStep.tame_advanceAlive awake proper

end GraphExec
