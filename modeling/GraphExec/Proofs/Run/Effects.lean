import GraphExec.Proofs.Loading.Traffic
import GraphExec.Proofs.Run.Transitions

/-!
# What transitions do to what surrounds a run

Whatever a transition does, it does by running application code, telling of events, starting bags
of arguments and changing the response and the steps of its run. A relation between stages that all
these keep is kept by every transition. What a transition waits for has not been polled before, and
the step takes whatever it is answered.
-/

namespace GraphExec

variable {σ α β : Type} {job : Job σ} {s t : Stage σ}

/-- A relation between stages that holds whatever is done by a run, be it to the response, but for
reporting errors and starting bags of arguments. -/
class Silent (R : Stage σ → Stage σ → Prop) : Prop extends Aside R where
  draft (draft : Draft) (s : Stage σ) : R s { s with run := { s.run with draft } }
  steps (ready held : List (Step σ)) (s : Stage σ) :
    R s { s with run := { s.run with ready, held } }

/-- A relation between stages that holds whatever is done by a run, be it to the response, but for
starting bags of arguments. -/
class Throughout (R : Stage σ → Stage σ → Prop) : Prop extends Silent R, Outside R

open Engine

/-! ### What is kept -/

section Quiet

variable {R : Stage σ → Stage σ → Prop} [Silent R]

namespace Engine

theorem keeps_modifyDraft (f : Draft → Draft) : Keeps R (modifyDraft f : Engine σ Unit) := by
  intro s a t h
  obtain rfl := gives_modifyDraft.mp h
  exact Silent.draft _ s

theorem keeps_allocate (f : Draft → NodeId × Draft) : Keeps R (allocate f : Engine σ NodeId) := by
  intro s a t h
  obtain ⟨-, rfl⟩ := gives_allocate.mp h
  exact Silent.draft _ s

theorem keeps_enqueue (step : Step σ) : Keeps R (enqueue step) := by
  intro s a t h
  obtain rfl := gives_enqueue.mp h
  exact Silent.steps _ s.run.held s

theorem keeps_hold (step : Step σ) : Keeps R (hold step) := by
  intro s a t h
  obtain rfl := gives_hold.mp h
  exact Silent.steps s.run.ready _ s

end Engine

namespace Position

variable (position : Position σ)

theorem keeps_write (value : Value) : Keeps R (position.write value : Engine σ Unit) :=
  keeps_modifyDraft _

theorem keeps_enqueueItems (list : NodeId) (itemType : TypeRef) (cursor : DirectiveCursor σ)
    (items : List (ResolvedValue σ)) :
    ∀ n, Keeps R (position.enqueueItems list itemType cursor n items) := by
  induction items with
  | nil => exact fun n => keeps_pure _
  | cons item rest ih => exact fun n => keeps_bind (keeps_enqueue _) fun _ => ih _

theorem keeps_completeList (itemType : TypeRef) (items : List (ResolvedValue σ)) :
    Keeps R (position.completeList job itemType items) :=
  keeps_bind (keeps_allocate _) fun _ => position.keeps_enqueueItems _ _ _ _ _

theorem keeps_completeObject (type : TypeDefinition σ) (value : ResolvedValue σ) :
    Keeps R (position.completeObject type value) := by
  unfold completeObject
  split
  · exact keeps_throw _
  · exact keeps_bind (keeps_identify _) fun _ => keeps_enqueue _

end Position

theorem FieldStep.keeps_park (step : FieldStep σ) (state : FieldState σ) (wait : Wait σ) :
    Keeps R (step.park state wait) :=
  keeps_bind keeps_draft fun _ => keeps_pure _

theorem ItemStep.keeps_park (step : ItemStep σ) (state : ItemState σ) (wait : Wait σ) :
    Keeps R (step.park state wait) :=
  keeps_bind keeps_draft fun _ => keeps_pure _

namespace ObjectStep

variable (step : ObjectStep σ)

theorem keeps_park (state : ObjectState σ) (wait : Wait σ) : Keeps R (step.park state wait) :=
  keeps_bind keeps_draft fun _ => keeps_pure _

theorem keeps_askType (declared : TypeDefinition σ) : Keeps R (step.askType job declared) := by
  refine keeps_bind (keeps_tell _) fun _ => keeps_bind (keeps_call _) fun answer => ?_
  split
  · exact keeps_pure _
  · exact step.keeps_park _ _
  · exact keeps_bind (keeps_tell _) fun _ => keeps_throw _

theorem keeps_askAuthorization (type : ObjectType σ) :
    Keeps R (step.askAuthorization job type) := by
  unfold askAuthorization
  split
  · exact keeps_pure _
  · refine keeps_bind (keeps_tell _) fun _ => keeps_bind (keeps_call _) fun answer => ?_
    split
    · exact keeps_pure _
    · exact step.keeps_park _ _

theorem keeps_allocate : Keeps R step.allocate := by
  unfold allocate
  split
  · exact keeps_pure _
  · exact Engine.keeps_allocate _

theorem keeps_launch (type : ObjectType σ) (node : NodeId) (key : String) (group : FieldGroup) :
    Keeps R (step.launch job type node key group) := by
  unfold launch
  dsimp only
  split
  · exact keeps_modifyDraft _
  · split
    · exact keeps_throw _
    · split
      · exact keeps_hold _
      · exact keeps_enqueue _

theorem keeps_launchAll (type : ObjectType σ) (node : NodeId) (groups : Groups) :
    Keeps R (step.launchAll job type node groups) := by
  induction groups with
  | nil => exact keeps_pure _
  | cons entry rest ih => exact keeps_bind (step.keeps_launch _ _ _ _) fun _ => ih

end ObjectStep

end Quiet

section Kept

variable {R : Stage σ → Stage σ → Prop} [Throughout R]

/-! ### Completion -/

namespace Position

variable (position : Position σ)

theorem keeps_writeNull : Keeps R (position.writeNull : Engine σ Unit) := by
  unfold writeNull
  split
  · exact keeps_bind (keeps_report _ _) fun _ => position.keeps_write _
  · exact position.keeps_write _

theorem keeps_writeError (error : ExecutionError) :
    Keeps R (position.writeError error : Engine σ Unit) :=
  keeps_bind (keeps_report _ _) fun _ => position.keeps_write _

theorem keeps_writeLeaf (coerced : Except String Value) :
    Keeps R (position.writeLeaf coerced : Engine σ Unit) := by
  unfold writeLeaf
  split
  · exact position.keeps_writeError _
  · split
    · exact position.keeps_writeNull
    · exact position.keeps_write _

theorem keeps_writeErrorItems (list : NodeId) (itemType : TypeRef) (errors : List ExecutionError) :
    ∀ n, Keeps R (position.writeErrorItems list itemType n errors : Engine σ Unit) := by
  induction errors with
  | nil => exact fun n => keeps_pure _
  | cons error rest ih => exact fun n => keeps_bind (keeps_writeError _ _) fun _ => ih _

theorem keeps_completeErrors (errors : List ExecutionError) :
    Keeps R (position.completeErrors errors : Engine σ Unit) := by
  unfold completeErrors
  split
  · exact keeps_bind (keeps_allocate _) fun _ => position.keeps_writeErrorItems _ _ _ _
  · exact keeps_bind (position.keeps_reportAll _) fun _ => position.keeps_write _

theorem keeps_completeLeaf (typeName : String) (coerce : Value → Action σ (Except String Value))
    (value : ResolvedValue σ) : Keeps R (position.completeLeaf typeName coerce value) := by
  unfold completeLeaf
  split
  · exact keeps_bind (keeps_call _) fun _ => position.keeps_writeLeaf _
  · exact position.keeps_writeLeaf _

theorem keeps_completeByType (value : ResolvedValue σ) :
    Keeps R (position.completeByType job value) := by
  unfold completeByType
  split
  · split
    · exact position.keeps_completeList _ _
    · exact position.keeps_completeList _ _
    · exact keeps_bind keeps_draft fun _ => keeps_throw _
  · split
    · exact position.keeps_completeLeaf _ _ _
    · exact position.keeps_completeLeaf _ _ _
    · exact keeps_throw _
    · exact position.keeps_completeObject _ _
    · exact keeps_throw _
  · exact keeps_throw _

theorem keeps_complete (value : ResolvedValue σ) : Keeps R (position.complete job value) := by
  have then_done : ∀ {program : Engine σ Unit}, Keeps R program →
      Keeps R (program >>= fun _ => pure (.done : Completion σ)) :=
    fun program => keeps_bind program fun _ => keeps_pure _
  unfold complete
  split
  · exact keeps_pure _
  · refine keeps_bind (keeps_call _) fun answer => ?_
    cases answer <;> exact keeps_pure _
  · exact then_done position.keeps_writeNull
  · exact then_done (position.keeps_writeError _)
  · exact then_done (keeps_modifyDraft _)
  · exact then_done (keeps_modifyDraft _)
  · split
    · exact then_done (position.keeps_completeErrors _)
    · exact then_done (position.keeps_completeByType _)
  · exact then_done (position.keeps_completeByType _)

end Position

/-! ### Steps -/

namespace FieldStep

/-- Whether a field is about to look up arguments, its own or those of a directive. -/
def isAsking (step : FieldStep σ) : Bool :=
  match step.state with
  | .runDirectives cursor => cursor.isAsking
  | .loadArguments => !step.site.field.arguments.isEmpty
  | _ => false

/-- A field starts bags of arguments only if it asks for some. -/
theorem keeps_advance_of (step : FieldStep σ) (starts : step.isAsking = true → Starts R) :
    Keeps R (step.advance job) := by
  unfold isAsking at starts
  refine keeps_bind keeps_draft fun draft => ?_
  split
  · exact keeps_pure _
  · refine keeps_bind keeps_draft fun draft => ?_
    split
    · rename_i cursor state
      rw [state] at starts
      refine keeps_bind (cursor.keeps_advance_of _ _ _ starts) fun progress => ?_
      cases progress with
      | skipped => exact keeps_bind (keeps_modifyDraft _) fun _ => keeps_pure _
      | waiting cursor wait => exact step.keeps_park _ _
      | _ => exact keeps_pure _
    · rename_i state
      rw [state] at starts
      refine keeps_bind (step.site.keeps_lookUpArguments_of _ fun some_arguments =>
        starts (by simp [some_arguments])) fun result? => ?_
      cases result? with
      | some result => exact keeps_pure _
      | none => exact step.keeps_park _ _
    · exact keeps_pure _
    · exact keeps_pure _
    · exact keeps_bind (FieldSite.keeps_resolve _ _ _ _ _) fun _ => keeps_pure _
    · refine keeps_bind (keeps_settle _ _ _) fun value => ?_
      refine keeps_bind (Position.keeps_complete _ _) fun completion => ?_
      cases completion with
      | waiting lazy => exact step.keeps_park _ _
      | _ => exact keeps_pure _
    · exact keeps_throw _
    · exact keeps_throw _

end FieldStep

namespace ItemStep

/-- Whether an item is about to look up the arguments of a directive. -/
def isAsking (step : ItemStep σ) : Bool :=
  match step.state with
  | .runDirectives cursor _ => cursor.isAsking
  | _ => false

/-- An item starts bags of arguments only if it asks for some. -/
theorem keeps_advance_of (step : ItemStep σ) (starts : step.isAsking = true → Starts R) :
    Keeps R (step.advance job) := by
  unfold isAsking at starts
  refine keeps_bind keeps_draft fun draft => ?_
  split
  · exact keeps_pure _
  · refine keeps_bind keeps_draft fun draft => ?_
    split
    · rename_i cursor item state
      rw [state] at starts
      refine keeps_bind (cursor.keeps_advance_of _ _ _ starts) fun progress => ?_
      cases progress with
      | skipped => exact keeps_bind (keeps_modifyDraft _) fun _ => keeps_pure _
      | waiting cursor wait => exact step.keeps_park _ _
      | _ => exact keeps_pure _
    · refine keeps_bind (keeps_settle _ _ _) fun value => ?_
      cases value with
      | lazy lazy => exact step.keeps_park _ _
      | _ => exact keeps_pure _
    · refine keeps_bind (Position.keeps_complete _ _) fun completion => ?_
      cases completion with
      | waiting lazy => exact step.keeps_park _ _
      | _ => exact keeps_pure _
    · exact keeps_throw _

end ItemStep

namespace ObjectStep

variable (step : ObjectStep σ)

theorem keeps_failRoot (value : ResolvedValue σ) : Keeps R (failRoot job value) := by
  unfold failRoot
  split
  · exact keeps_bind (Engine.keeps_report _) fun _ => keeps_modifyDraft _
  · exact keeps_bind (keeps_throw _) fun _ => keeps_modifyDraft _
  · refine keeps_bind (keeps_call _) fun answer => ?_
    split
    · exact keeps_bind (Engine.keeps_report _) fun _ => keeps_modifyDraft _
    · exact keeps_bind (Engine.keeps_report _) fun _ => keeps_modifyDraft _
    · exact keeps_modifyDraft _
  · exact keeps_modifyDraft _

theorem keeps_fail (value : ResolvedValue σ) : Keeps R (step.fail job value) := by
  unfold fail
  split
  · exact keeps_bind (keeps_failRoot _) fun _ => keeps_pure _
  · refine keeps_bind (Position.keeps_complete _ _) fun completion => ?_
    cases completion with
    | waiting lazy => exact step.keeps_park _ _
    | _ => exact keeps_pure _

theorem keeps_failWith (result : FieldResult σ) : Keeps R (step.failWith job result) :=
  keeps_bind keeps_draft fun _ => keeps_bind (keeps_settle _ _ _) fun _ => step.keeps_fail _

theorem keeps_takeType (declared : TypeDefinition σ) (result : Except ResolverError String) :
    Keeps R (step.takeType job declared result) := by
  unfold takeType
  split
  · exact keeps_bind (keeps_tell _) fun _ => step.keeps_failWith _
  · refine keeps_bind (keeps_tell _) fun _ => ?_
    split
    · exact keeps_pure _
    · exact keeps_throw _

theorem keeps_takeAuthorization (type : ObjectType σ) (result : Except ResolverError Bool) :
    Keeps R (step.takeAuthorization job type result) := by
  refine keeps_bind (keeps_tell _) fun _ => ?_
  split
  · exact keeps_pure _
  · exact step.keeps_fail _
  · exact step.keeps_failWith _

theorem keeps_collect [Starts R] (type : ObjectType σ) (node : NodeId) :
    Keeps R (step.collect job type node) := by
  refine keeps_bind keeps_draft fun draft => keeps_bind (Grouper.keeps_group _ _) fun result => ?_
  cases result with
  | waiting key => exact step.keeps_park _ _
  | complete grouping =>
      refine keeps_bind (fun s a t h => ?_) fun _ => keeps_bind (keeps_modifyDraft _) fun _ =>
        keeps_bind (step.keeps_launchAll _ _ _) fun _ => keeps_pure _
      obtain rfl := gives_modifyRun.mp h
      exact Outside.report grouping.errors s

/-- Whether the selections of an object are about to be gathered. -/
def isAsking : Bool :=
  match step.state with
  | .collect _ _ => true
  | _ => false

/-- An object starts bags of arguments only when its selections are gathered. -/
theorem keeps_advance_of (starts : step.isAsking = true → Starts R) :
    Keeps R (step.advance job) := by
  unfold isAsking at starts
  refine keeps_bind keeps_draft fun draft => ?_
  split
  · unfold advanceAlive
    split
    · exact step.keeps_askType _
    · exact step.keeps_takeType _ _
    · exact step.keeps_askAuthorization _
    · exact step.keeps_takeAuthorization _ _
    · exact step.keeps_failWith _
    · exact keeps_bind step.keeps_allocate fun _ => keeps_pure _
    · rename_i type node state
      rw [state] at starts
      have : Starts R := starts rfl
      exact step.keeps_collect _ _
    · exact keeps_throw _
    · exact keeps_throw _
    · exact keeps_throw _
    · exact keeps_throw _
  · exact keeps_pure _

end ObjectStep

namespace Step

/-- Whether a step is about to ask for arguments. -/
def isAsking : Step σ → Bool
  | object step => step.isAsking
  | field step => step.isAsking
  | item step => step.isAsking

/-- A relation that whatever is done by a run keeps is kept by every transition, which starts bags
of arguments only if the step asks for some. -/
theorem keeps_advance_of (step : Step σ) (starts : step.isAsking = true → Starts R) :
    Keeps R (step.advance job) := by
  cases step with
  | object step => exact step.keeps_advance_of starts
  | field step => exact step.keeps_advance_of starts
  | item step => exact step.keeps_advance_of starts

theorem keeps_advance [Starts R] (step : Step σ) : Keeps R (step.advance job) :=
  step.keeps_advance_of fun _ => inferInstance

end Step

end Kept

/-! ### What is waited for -/

/-- How far a wait has got with a fetch of a source. A bag of arguments is no part of a wait. -/
def Wait.progressAt (watched : SourceId) : Wait σ → Option (FetchProgress σ)
  | .value rest => rest.progressAt watched
  | .type rest => rest.progressAt watched
  | .authorization rest => rest.progressAt watched
  | .directive rest => rest.progressAt watched
  | .arguments _ => none

/-- Nothing of a wait has been polled. -/
def Wait.IsFresh (wait : Wait σ) : Prop :=
  ∀ watched, wait.progressAt watched = none

/-- An answer is of the kind that is waited for. -/
def Wait.Admits (wait : Wait σ) (answer : Resumption σ) : Prop :=
  match wait with
  | .value _ => ∃ result, answer = .value result
  | .arguments _ => ∃ result, answer = .arguments result
  | .type _ => ∃ result, answer = .type result
  | .authorization _ => ∃ result, answer = .authorization result
  | .directive _ => ∃ result, answer = .directive result

/-- A cursor takes whatever it may be answered. -/
def DirectiveCursor.Expects (cursor : DirectiveCursor σ) (wait : Wait σ) : Prop :=
  ∀ answer, wait.Admits answer → ∃ next, cursor.resume answer = .ok next

/-- A step takes whatever it may be answered. -/
def Step.Expects (step : Step σ) (wait : Wait σ) : Prop :=
  ∀ answer, wait.Admits answer → ∃ next, step.resume answer = .ok next

/-- Arguments are waited for only if they are asked for. -/
def Wait.IsAsked (asking : Bool) : Wait σ → Prop
  | .arguments _ => asking = true
  | _ => True

/-- A cursor that waits does so for something that has not been polled, and takes the answer. -/
def CursorProgress.Fits (asking : Bool) : CursorProgress σ → Prop
  | .waiting cursor wait => wait.IsFresh ∧ cursor.Expects wait ∧ wait.IsAsked asking
  | _ => True

/-- A step that is parked waits for something that has not been polled, and takes the answer. -/
def Progress.Fits (asking : Bool) : Progress σ → Prop
  | .parked step _ wait => wait.IsFresh ∧ step.Expects wait ∧ wait.IsAsked asking
  | _ => True

/-! ### Steps that take answers -/

theorem FieldStep.expects_cursor (step : FieldStep σ) {cursor : DirectiveCursor σ} {wait : Wait σ}
    (expects : cursor.Expects wait) :
    Step.Expects (.field { step with state := .runDirectives cursor }) wait := by
  intro answer admits
  obtain ⟨next, resumed⟩ := expects answer admits
  exact ⟨.field { step with state := .runDirectives next },
    Except.map_eq_ok.mpr ⟨_, Except.bind_eq_ok.mpr ⟨next, resumed, rfl⟩, rfl⟩⟩

theorem FieldStep.expects_arguments (step : FieldStep σ) (key : ArgumentKey) :
    Step.Expects (.field { step with state := .awaitingArguments }) (.arguments key) := by
  intro answer admits
  obtain ⟨result, rfl⟩ := admits
  exact ⟨_, rfl⟩

theorem FieldStep.expects_value (step : FieldStep σ) (rest : Pending σ (FieldResult σ)) :
    Step.Expects (.field { step with state := .awaitingValue }) (.value rest) := by
  intro answer admits
  obtain ⟨result, rfl⟩ := admits
  exact ⟨_, rfl⟩

theorem ItemStep.expects_cursor (step : ItemStep σ) {cursor : DirectiveCursor σ} {wait : Wait σ}
    (item : ResolvedValue σ) (expects : cursor.Expects wait) :
    Step.Expects (.item { step with state := .runDirectives cursor item }) wait := by
  intro answer admits
  obtain ⟨next, resumed⟩ := expects answer admits
  exact ⟨.item { step with state := .runDirectives next item },
    Except.map_eq_ok.mpr ⟨_, Except.bind_eq_ok.mpr ⟨next, resumed, rfl⟩, rfl⟩⟩

theorem ItemStep.expects_value (step : ItemStep σ) (rest : Pending σ (FieldResult σ)) :
    Step.Expects (.item { step with state := .awaitingValue }) (.value rest) := by
  intro answer admits
  obtain ⟨result, rfl⟩ := admits
  exact ⟨_, rfl⟩

theorem ObjectStep.expects_replacement (step : ObjectStep σ) (rest : Pending σ (FieldResult σ)) :
    Step.Expects (.object { step with state := .awaitingReplacement }) (.value rest) := by
  intro answer admits
  obtain ⟨result, rfl⟩ := admits
  exact ⟨_, rfl⟩

theorem ObjectStep.expects_arguments (step : ObjectStep σ) (type : ObjectType σ) (node : NodeId)
    (key : ArgumentKey) :
    Step.Expects (.object { step with state := .awaitingArguments type node }) (.arguments key) := by
  intro answer admits
  obtain ⟨result, rfl⟩ := admits
  exact ⟨_, rfl⟩

theorem ObjectStep.expects_type (step : ObjectStep σ) (declared : TypeDefinition σ)
    (rest : Pending σ (Except ResolverError String)) :
    Step.Expects (.object { step with state := .awaitingType declared }) (.type rest) := by
  intro answer admits
  obtain ⟨result, rfl⟩ := admits
  exact ⟨_, rfl⟩

theorem ObjectStep.expects_authorization (step : ObjectStep σ) (type : ObjectType σ)
    (rest : Pending σ (Except ResolverError Bool)) :
    Step.Expects (.object { step with state := .awaitingAuthorization type })
      (.authorization rest) := by
  intro answer admits
  obtain ⟨result, rfl⟩ := admits
  exact ⟨_, rfl⟩

theorem DirectiveCursor.expects_arguments (uses : List (DirectiveUse σ)) (key : ArgumentKey) :
    Expects ⟨uses, .awaitingArguments⟩ (.arguments key) := by
  intro answer admits
  obtain ⟨result, rfl⟩ := admits
  exact ⟨_, rfl⟩

theorem DirectiveCursor.expects_answer (uses : List (DirectiveUse σ))
    (rest : Pending σ (Except ResolverError DirectiveFlow)) :
    Expects ⟨uses, .awaitingAnswer⟩ (.directive rest) := by
  intro answer admits
  obtain ⟨result, rfl⟩ := admits
  exact ⟨_, rfl⟩

/-! ### What is waited for -/

/-- A cursor that waits does so for something that has not been polled, and takes the answer. -/
theorem DirectiveCursor.Way.fits {cursor : DirectiveCursor σ} {owner : Subject} {path : Path}
    {progress : CursorProgress σ} (way : cursor.Way job owner path s progress t) :
    progress.Fits cursor.isAsking := by
  cases way with
  | asks _ => exact ⟨fun _ => rfl, expects_arguments _ _, rfl⟩
  | waits _ => exact ⟨fun _ => rfl, expects_answer _ _, trivial⟩
  | _ => trivial

/-- A field without arguments does not wait for any. -/
theorem FieldSite.some_arguments_of_missing {site : FieldSite σ}
    (missing : (site.lookUpArguments job).Gives s none t) :
    site.field.arguments.isEmpty = false := by
  unfold lookUpArguments at missing
  split at missing
  · cases (gives_pure.mp missing).1
  · exact Bool.eq_false_iff.mpr ‹_›

theorem FieldStep.Way.fits {step : FieldStep σ} {progress : Progress σ}
    (way : step.Way job s progress t) : progress.Fits step.isAsking := by
  cases way with
  | awaits state directed =>
      obtain ⟨fresh, expects, asked⟩ := (DirectiveCursor.way directed).fits
      refine ⟨fresh, step.expects_cursor expects, ?_⟩
      unfold isAsking
      rwa [state]
  | asks state looked =>
      refine ⟨fun _ => rfl, step.expects_arguments _, ?_⟩
      simp [Wait.IsAsked, isAsking, state, FieldSite.some_arguments_of_missing looked]
  | waits _ _ _ => exact ⟨fun _ => rfl, step.expects_value _, trivial⟩
  | _ => trivial

theorem ItemStep.Way.fits {step : ItemStep σ} {progress : Progress σ}
    (way : step.Way job s progress t) : progress.Fits step.isAsking := by
  cases way with
  | awaits state directed =>
      obtain ⟨fresh, expects, asked⟩ := (DirectiveCursor.way directed).fits
      refine ⟨fresh, step.expects_cursor _ expects, ?_⟩
      unfold isAsking
      rwa [state]
  | waits _ _ | defers _ _ => exact ⟨fun _ => rfl, step.expects_value _, trivial⟩
  | _ => trivial

theorem ObjectStep.Way.fits {step : ObjectStep σ} {progress : Progress σ}
    (way : step.Way job s progress t) : progress.Fits step.isAsking := by
  cases way with
  | asksType _ _ => exact ⟨fun _ => rfl, step.expects_type _ _, trivial⟩
  | asksPermission _ _ _ => exact ⟨fun _ => rfl, step.expects_authorization _ _, trivial⟩
  | fails _ gives_way =>
      cases gives_way with
      | waits _ _ => exact ⟨fun _ => rfl, step.expects_replacement _, trivial⟩
      | _ => trivial
  | asks state _ =>
      refine ⟨fun _ => rfl, step.expects_arguments _ _ _, ?_⟩
      show isAsking step = true
      unfold isAsking
      rw [state]
  | _ => trivial

/-- A step that is parked waits for something that has not been polled, and takes the answer. -/
theorem Step.advance_fits {step : Step σ} {progress : Progress σ}
    (gives : (step.advance job).Gives s progress t) : progress.Fits step.isAsking := by
  cases Step.way gives with
  | dropped _ => trivial
  | object _ way => exact way.fits
  | field _ way => exact way.fits
  | item _ way => exact way.fits

end GraphExec
