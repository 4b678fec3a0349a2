import GraphExec.Proofs.Pure.Stages
import GraphExec.Proofs.Selections

/-!
# Programs of a pure run

Whatever a run does between two steps - asking directives, looking up arguments, calling resolvers,
completing positions, grouping selections - it does alike at alike stages, and pure values and steps
come of it.
-/

namespace GraphExec

variable {σ α : Type} {loads : Loads} {good : ArgumentKey → ArgumentsResult → Prop} {job : Job σ}

open Engine

/-! ### Failures -/

theorem Engine.agrees_rescue (fine : job.Fine loads good) (message : String) (path : Path) :
    Agrees loads good job (fun _ => True) (rescue job message path) := by
  refine (agrees_call (fine.pure.rescue message path job.query)).bind fun error? _ => ?_
  cases error? with
  | some error => exact agrees_pure trivial
  | none => exact agrees_throw _

theorem Engine.agrees_settle (fine : job.Fine loads good) {path : Path} {result : FieldResult σ}
    (pure : result.Pure loads) :
    Agrees loads good job (·.Pure loads) (settle job path result) := by
  cases result with
  | ok value => exact agrees_pure (pure value rfl)
  | error error =>
      cases error with
      | execution error => exact agrees_pure (.error error)
      | unexpected message =>
          exact (agrees_rescue fine message path).bind fun error _ => agrees_pure (.error error)

theorem ArgumentError.pure_outcome (error : ArgumentError) :
    (error.outcome : FieldResult σ).Pure loads := by
  intro value same
  cases error with
  | execution error => injection same with same; exact same ▸ .error error
  | unauthorized refusal => injection same with same; exact same ▸ .unauthorized refusal
  | unexpected message => cases same

theorem FieldResult.pure_error (error : ResolverError) :
    FieldResult.Pure loads (.error error : FieldResult σ) := by
  intro value same
  cases same

theorem FieldResult.pure_ok {value : ResolvedValue σ} (pure : value.Pure loads) :
    FieldResult.Pure loads (.ok value) := by
  intro other same
  injection same with same
  exact same ▸ pure

/-! ### Directives -/

/-- What a job asks for may be waited for. -/
theorem Job.Asks.waits (fine : job.Fine loads good) {key : ArgumentKey}
    {coerce : Action σ (Coercion σ)} (asks : job.Asks key coerce) :
    ∃ result, Coerces loads coerce result ∧ good key result := by
  obtain ⟨result, coerces⟩ := fine.coerces asks
  exact ⟨result, coerces, fine.good _ _ _ asks coerces⟩

theorem Job.Asks.wait_pure (fine : job.Fine loads good) {key : ArgumentKey}
    {coerce : Action σ (Coercion σ)} (asks : job.Asks key coerce) :
    (Wait.arguments key : Wait σ).Pure loads good := by
  obtain ⟨result, -, known⟩ := asks.waits fine
  exact ⟨.arguments result, .arguments known⟩

/-- A lazy that is settled may be waited for. -/
theorem Wait.pure_value {later : Lazy σ (FieldResult σ)} {result : FieldResult σ}
    (answers : later.Answers loads result) (pure : result.Pure loads) :
    (Wait.value (.start later) : Wait σ).Pure loads good :=
  ⟨.value result, .value answers pure⟩

theorem Directive.agrees_lookUp (fine : job.Fine loads good) {directive : Directive}
    {definition : DirectiveDefinition σ} {parent : Identity}
    (asks : job.Asks (.new directive.offset (.directive definition.name) definition.arguments parent)
      (job.coercion (.directive definition.name) definition.arguments directive.arguments)) :
    Agrees loads good job (fun found =>
        found.1 = .new directive.offset (.directive definition.name) definition.arguments parent ∧
        ∀ result, found.2 = some result → good found.1 result)
      (directive.lookUp job definition parent) :=
  (Engine.agrees_lookUp (asks.waits fine)).bind fun _ known => agrees_pure ⟨rfl, known⟩

/-- What a transition of a cursor comes to is pure. -/
def CursorProgress.Pure (loads : Loads) (good : ArgumentKey → ArgumentsResult → Prop)
    (job : Job σ) : CursorProgress σ → Prop
  | again cursor => cursor.Pure loads job
  | passed => True
  | skipped => True
  | stopped result => result.Pure loads
  | waiting cursor wait => cursor.Pure loads job ∧ wait.Pure loads good

theorem DirectiveCursor.agrees_advance (fine : job.Fine loads good) {cursor : DirectiveCursor σ}
    (pure : cursor.Pure loads job) (owner : Subject) (path : Path) :
    Agrees loads good job (·.Pure loads good job) (cursor.advance job owner path) := by
  unfold advance
  split
  · exact agrees_pure trivial
  · rename_i use rest uses
    have own : use.Pure loads job := pure use (by rw [uses]; exact List.mem_cons_self)
    have behind : (next rest).Pure loads job := by
      intro other mem
      exact pure other (by rw [uses]; exact List.mem_cons_of_mem _ mem)
    have asks := own.asks owner.identity
    split
    · refine (Directive.agrees_lookUp fine asks).bind fun found known => ?_
      obtain ⟨key, result?⟩ := found
      cases result? with
      | some result => exact agrees_pure pure
      | none =>
          obtain rfl := known.1
          exact agrees_pure ⟨pure, asks.wait_pure fine⟩
    · exact agrees_pure (ArgumentError.pure_outcome _)
    · refine (agrees_call (own.hook _)).bind fun result known => ?_
      split
      · exact agrees_pure pure
      · rename_i lazy
        obtain ⟨answer, answers, -⟩ := known _ rfl
        exact agrees_pure ⟨pure, .directive answer, .directive answers⟩
      · exact agrees_pure pure
    · exact agrees_pure behind
    · exact agrees_pure trivial
    · exact agrees_pure (FieldResult.pure_error _)
    · exact agrees_throw _
    · exact agrees_throw _

/-! ### Fields -/

namespace FieldSite

variable {site : FieldSite σ}

theorem agrees_lookUpArguments (fine : job.Fine loads good) (known : site.Known job) :
    Agrees loads good job (fun result? => ∀ result, result? = some result →
        site.field.arguments.isEmpty = false → good site.argumentKey result)
      (site.lookUpArguments job) := by
  unfold lookUpArguments
  split
  · rename_i empty
    refine agrees_pure fun result _ some_argument => ?_
    rw [empty] at some_argument
    cases some_argument
  · exact (Engine.agrees_lookUp (known.asks.waits fine)).mono fun _ known result same _ =>
      known result same

theorem agrees_provide (fine : job.Fine loads good) (known : site.Known job)
    (extras : List Extra) : ∀ values,
      Agrees loads good job (fun _ => True) (site.provide job values extras) := by
  induction extras with
  | nil => exact fun _ => agrees_pure trivial
  | cons extra rest ih =>
      intro values
      cases extra with
      | custom name =>
          unfold provide
          cases found : site.field.provide? with
          | some provide =>
              have settled := (fine.field known).provides provide found name job.query
              exact (agrees_call settled).bind fun _ _ => ih _
          | none =>
              have null : Agrees loads good job (fun _ => True) (pure .null : Engine σ Value) :=
                agrees_pure trivial
              exact null.bind fun _ _ => ih _
      | _ => exact ih values

/-- Looking ahead is settled. -/
theorem agrees_extras (fine : job.Fine loads good) (known : site.Known job) (parent : NodeId)
    (path : Path) :
    Agrees loads good job (fun extras => ∀ context : ResolverContext σ,
      context.extras = extras → context.Pure loads) (site.extras job parent path) := by
  refine agrees_draft.bind fun draft _ => (agrees_provide fine known _ _).bind fun custom _ => ?_
  refine agrees_pure fun context same view found directives => ?_
  rw [same] at found
  simp only at found
  split at found
  · injection found with found
    subst found
    exact fine.pure.admitsAll job.query directives
  · cases found

theorem agrees_reportAll (site : FieldSite σ) (path : Path) (errors : List ExecutionError) :
    Agrees loads good job (fun _ => True) (site.reportAll path errors : Engine σ Unit) := by
  induction errors with
  | nil => exact agrees_pure trivial
  | cons error rest ih => exact (agrees_report _).bind fun _ _ => ih

theorem pure_defaultResult (site : FieldSite σ) : site.defaultResult.Pure loads := by
  intro value same
  unfold defaultResult at same
  split at same
  · injection same with same
    exact same ▸ .value _
  · injection same with same
    exact same ▸ .value _

theorem agrees_callResolver (fine : job.Fine loads good) (known : site.Known job) (path : Path)
    {context : ResolverContext σ} (pure_context : context.Pure loads) :
    Agrees loads good job (·.result.Pure loads) (site.callResolver path context) := by
  unfold callResolver
  refine (agrees_tell _).bind fun _ _ => ?_
  cases found : site.field.resolve? with
  | some resolve =>
      have settled := (fine.field known).resolves resolve found context pure_context
      exact (agrees_call settled).bind fun _ pure_result =>
        (agrees_tell _).bind fun _ _ => agrees_pure pure_result
  | none =>
      have default : Agrees loads good job (·.result.Pure loads)
          (pure { result := site.defaultResult } : Engine σ (Resolution σ)) :=
        agrees_pure (pure_defaultResult site)
      exact default.bind fun _ pure_result =>
        (agrees_tell _).bind fun _ _ => agrees_pure pure_result

theorem agrees_resolve (fine : job.Fine loads good) (known : site.Known job) (parent : NodeId)
    (path : Path) (arguments : Arguments) :
    Agrees loads good job (·.Pure loads) (site.resolve job parent path arguments) := by
  unfold resolve
  refine (agrees_extras fine known parent path).bind fun extras pure_extras => ?_
  have pure_context := pure_extras
    ⟨site.owner.value, arguments, job.query, site.typeName, site.field.name, extras⟩ rfl
  have answer : ∀ allowed, Agrees loads good job (·.Pure loads) (if allowed = true then do
      let resolution ← site.callResolver path
        ⟨site.owner.value, arguments, job.query, site.typeName, site.field.name, extras⟩
      if extras.reporting = true then site.reportAll path resolution.reported
      return resolution.result
    else return .ok (.unauthorized (.field site.typeName site.field.name))) := by
    intro allowed
    split
    · refine (agrees_callResolver fine known path pure_context).bind fun resolution pure_result => ?_
      split
      · exact (agrees_reportAll site path _).bind fun _ _ => agrees_pure pure_result
      · exact agrees_pure pure_result
    · exact agrees_pure (FieldResult.pure_ok (.unauthorized _))
  cases found : site.field.authorize? with
  | some authorize =>
      have settled := (fine.field known).authorizes authorize found _ pure_context
      exact (agrees_call settled).bind fun allowed _ => answer allowed
  | none =>
      have allowed : Agrees loads good job (fun _ => True) (pure true : Engine σ Bool) :=
        agrees_pure trivial
      exact allowed.bind fun allowed _ => answer allowed

end FieldSite

/-! ### Completion -/

/-- What completing a position comes to is pure. -/
def Completion.Pure (loads : Loads) : Completion σ → Prop
  | done => True
  | waiting lazy => ∃ result, lazy.Answers loads result ∧ result.Pure loads
  | replaced value => value.Pure loads

namespace Position

variable (position : Position σ)

theorem agrees_write (value : Value) :
    Agrees loads good job (fun _ => True) (position.write value : Engine σ Unit) :=
  agrees_modifyDraft _

theorem agrees_report (error : ExecutionError) :
    Agrees loads good job (fun _ => True) (position.report error : Engine σ Unit) :=
  agrees_draft.bind fun _ _ => Engine.agrees_report _

theorem agrees_writeNull :
    Agrees loads good job (fun _ => True) (position.writeNull : Engine σ Unit) := by
  unfold writeNull
  split
  · exact (agrees_report position _).bind fun _ _ => agrees_write position _
  · exact agrees_write position _

theorem agrees_writeError (error : ExecutionError) :
    Agrees loads good job (fun _ => True) (position.writeError error : Engine σ Unit) :=
  (agrees_report position error).bind fun _ _ => agrees_write position _

theorem agrees_writeLeaf (coerced : Except String Value) :
    Agrees loads good job (fun _ => True) (position.writeLeaf coerced : Engine σ Unit) := by
  unfold writeLeaf
  cases coerced with
  | error message => exact agrees_writeError position _
  | ok value =>
      simp only
      split
      · exact agrees_writeNull position
      · exact agrees_write position _

theorem agrees_writeErrorItems (list : NodeId) (itemType : TypeRef)
    (errors : List ExecutionError) : ∀ n, Agrees loads good job (fun _ => True)
      (position.writeErrorItems list itemType n errors : Engine σ Unit) := by
  induction errors with
  | nil => exact fun _ => agrees_pure trivial
  | cons error rest ih => exact fun n => (agrees_writeError _ error).bind fun _ _ => ih _

theorem agrees_reportAll (errors : List ExecutionError) :
    Agrees loads good job (fun _ => True) (position.reportAll errors : Engine σ Unit) := by
  induction errors with
  | nil => exact agrees_pure trivial
  | cons error rest ih => exact (agrees_report position error).bind fun _ _ => ih

theorem agrees_completeErrors (errors : List ExecutionError) :
    Agrees loads good job (fun _ => True) (position.completeErrors errors : Engine σ Unit) := by
  unfold completeErrors
  split
  · exact (agrees_allocate _).bind fun list _ => agrees_writeErrorItems position list _ errors 0
  · exact (agrees_reportAll position errors).bind fun _ _ => agrees_write position _

variable {position}

theorem agrees_enqueueItems (known : position.site.Known job) {cursor : DirectiveCursor σ}
    (pure : cursor.Pure loads job) (list : NodeId) (itemType : TypeRef)
    (items : List (ResolvedValue σ)) : ∀ n, (∀ item ∈ items, item.Pure loads) →
      Agrees loads good job (fun _ => True)
        (position.enqueueItems list itemType cursor n items) := by
  induction items with
  | nil => exact fun _ _ => agrees_pure trivial
  | cons item rest ih =>
      intro n each
      have step : (Step.item ⟨position.item list itemType n, .runDirectives cursor item⟩).Pure
          loads job := ⟨known, pure, each item List.mem_cons_self⟩
      exact (agrees_enqueue step).bind fun _ _ =>
        ih _ fun other mem => each other (List.mem_cons_of_mem _ mem)

theorem agrees_completeList (fine : job.Fine loads good) (known : position.site.Known job)
    (itemType : TypeRef) {items : List (ResolvedValue σ)}
    (each : ∀ item ∈ items, item.Pure loads) :
    Agrees loads good job (fun _ => True) (position.completeList job itemType items) := by
  have cursor : (DirectiveCursor.new job.schema (·.resolveEach?) position.site.directives).Pure
      loads job := DirectiveCursor.pure_new fine (fun _ _ pure => pure.resolvesEach _)
        known.directives
  exact (agrees_allocate _).bind fun list _ => agrees_enqueueItems known cursor list itemType _ 0 each

theorem agrees_completeLeaf {coerce : Value → Action σ (Except String Value)} (typeName : String)
    (settled : ∀ value, (coerce value).Settled loads fun _ => True) (value : ResolvedValue σ) :
    Agrees loads good job (fun _ => True) (position.completeLeaf typeName coerce value) := by
  unfold completeLeaf
  split
  · rename_i v
    exact (agrees_call (settled v)).bind fun _ _ => agrees_writeLeaf position _
  · exact agrees_writeLeaf position _

theorem agrees_completeObject (fine : job.Fine loads good) (known : position.site.Known job)
    {name : String} {type : TypeDefinition σ} (found : job.schema.type? name = some type)
    (value : ResolvedValue σ) :
    Agrees loads good job (fun _ => True) (position.completeObject type value) := by
  unfold completeObject
  split
  · exact agrees_throw _
  · refine (agrees_identify _).bind fun subject _ => agrees_enqueue ?_
    refine ⟨known, known.selections, ?_⟩
    cases type with
    | object t =>
        have same : t.name = name := fine.named.own name _ found
        show job.schema.objectType? t.name = some t
        unfold Schema.objectType?
        rw [same, found]
    | scalar t => exact ⟨name, found⟩
    | enum t => exact ⟨name, found⟩
    | interface t => exact ⟨name, found⟩
    | union t => exact ⟨name, found⟩
    | inputObject t => exact ⟨name, found⟩

theorem agrees_completeByType (fine : job.Fine loads good) (known : position.site.Known job)
    {value : ResolvedValue σ} (pure_value : value.Pure loads) :
    Agrees loads good job (fun _ => True) (position.completeByType job value) := by
  unfold completeByType
  split
  · split
    · cases pure_value with
      | list each => exact agrees_completeList fine known _ each
    · rename_i items
      refine agrees_completeList fine known _ fun item mem => ?_
      obtain ⟨v, -, rfl⟩ := List.mem_map.mp mem
      exact .value v
    · exact agrees_draft.bind fun _ _ => agrees_throw _
  · split
    · rename_i t found
      exact agrees_completeLeaf _ (fine.pure.types _ _ found).result value
    · exact agrees_completeLeaf _ (fun _ => Action.settled_done trivial) value
    · exact agrees_throw _
    · rename_i found
      exact agrees_completeObject fine known found value
    · exact agrees_throw _
  · exact agrees_throw _

theorem agrees_complete (fine : job.Fine loads good) (known : position.site.Known job)
    {value : ResolvedValue σ} (pure_value : value.Pure loads) :
    Agrees loads good job (·.Pure loads) (position.complete job value) := by
  have finish : ∀ {program : Engine σ Unit}, Agrees loads good job (fun _ => True) program →
      Agrees loads good job (·.Pure loads)
        (do program; return Completion.done : Engine σ (Completion σ)) := by
    intro program agrees
    have done : Agrees loads good job (·.Pure loads)
        (pure Completion.done : Engine σ (Completion σ)) := agrees_pure trivial
    exact agrees.bind fun _ _ => done
  unfold complete
  split
  · cases pure_value with
    | lazy answers pure_result => exact agrees_pure ⟨_, answers, pure_result⟩
  · rename_i refusal
    refine (agrees_call (fine.pure.unauthorized refusal job.query)).bind fun result known => ?_
    split
    · exact agrees_pure (known _ rfl)
    · exact agrees_pure (.error _)
  · exact finish (agrees_writeNull position)
  · exact finish (agrees_writeError position _)
  · exact finish (agrees_modifyDraft _)
  · exact finish (agrees_modifyDraft _)
  · split
    · exact finish (agrees_completeErrors position _)
    · exact finish (agrees_completeByType fine known pure_value)
  · exact finish (agrees_completeByType fine known pure_value)

end Position

end GraphExec
