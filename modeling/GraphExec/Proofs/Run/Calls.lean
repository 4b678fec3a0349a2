import GraphExec.Proofs.Run.Frame
import GraphExec.Run.Schedule

/-!
# Which application code a transition calls

Some application code is called for the fields of an object: what guards its selections, what
coerces arguments, the hooks of directives, and all that belongs to resolving a field. The rest finds
out what may be shown, and of which type: it is called for any value. Each transition calls the first
kind for one object only, and an object that has not been allocated calls none of it.
-/

namespace GraphExec

variable {σ : Type}

/-! ### Programs by what they call -/

namespace Engine

variable {α β : Type} {may may' : ∀ β : Type, Action σ β → Prop} {tells : Event → Prop}

/-- Programs put together from calls of some kind of application code, from events of some kind, and
from what concerns the run. What surrounds the run they do not even look at, and they change it by such
calls and events only. -/
inductive Made (may : ∀ β : Type, Action σ β → Prop) (tells : Event → Prop) :
    ∀ {α : Type}, Engine σ α → Prop
  | pure {α : Type} (a : α) : Made may tells (pure a : Engine σ α)
  | throw {α : Type} (error : FatalError) : Made may tells (throw error : Engine σ α)
  | read {α : Type} (f : Run σ → α) : Made may tells (do return f (← get).run : Engine σ α)
  | modifyRun (f : Run σ → Run σ) : Made may tells (modifyRun f)
  | tell {event : Event} (allowed : tells event) : Made may tells (tell event)
  | call {β : Type} {action : Action σ β} (allowed : may β action) : Made may tells (call action)
  | bind {α β : Type} {x : Engine σ α} {f : α → Engine σ β} (first : Made may tells x)
      (then_ : ∀ a, Made may tells (f a)) : Made may tells (x >>= f)

theorem Made.mono {program : Engine σ α} (made : program.Made may tells)
    (more : ∀ β action, may β action → may' β action) : program.Made may' tells := by
  induction made with
  | pure a => exact .pure a
  | throw error => exact .throw error
  | read f => exact .read f
  | modifyRun f => exact .modifyRun f
  | tell allowed => exact .tell allowed
  | call allowed => exact .call (more _ _ allowed)
  | bind _ _ first then_ => exact .bind first then_

/-- Programs put together from calls of some kind of application code and from what concerns the run.
What surrounds the run they do not even look at, and they change it by such calls only, events aside. -/
inductive Only (may : ∀ β : Type, Action σ β → Prop) : ∀ {α : Type}, Engine σ α → Prop
  | pure {α : Type} (a : α) : Only may (pure a : Engine σ α)
  | throw {α : Type} (error : FatalError) : Only may (throw error : Engine σ α)
  | read {α : Type} (f : Run σ → α) : Only may (do return f (← get).run : Engine σ α)
  | modifyRun (f : Run σ → Run σ) : Only may (modifyRun f)
  | tell (event : Event) : Only may (tell event)
  | call {β : Type} {action : Action σ β} (allowed : may β action) : Only may (call action)
  | bind {α β : Type} {x : Engine σ α} {f : α → Engine σ β} (first : Only may x)
      (then_ : ∀ a, Only may (f a)) : Only may (x >>= f)

/-- Which events a program tells does not matter to which code it calls. -/
theorem Made.only {program : Engine σ α} (made : program.Made may tells) : program.Only may := by
  induction made with
  | pure a => exact .pure a
  | throw error => exact .throw error
  | read f => exact .read f
  | modifyRun f => exact .modifyRun f
  | tell allowed => exact .tell _
  | call allowed => exact .call allowed
  | bind _ _ first then_ => exact .bind first then_

theorem Made.draft : Made may tells (draft : Engine σ Draft) := .read (·.draft)

theorem Made.modifyDraft (f : Draft → Draft) : Made may tells (modifyDraft f : Engine σ Unit) :=
  .modifyRun _

theorem Made.report (error : ExecutionError) : Made may tells (report error : Engine σ Unit) :=
  .modifyRun _

theorem Made.enqueue (step : Step σ) : Made may tells (enqueue step) := .modifyRun _

theorem Made.hold (step : Step σ) : Made may tells (hold step) := .modifyRun _

theorem Made.allocate (f : Draft → NodeId × Draft) : Made may tells (allocate f : Engine σ NodeId) := by
  refine .bind .draft fun draft => ?_
  exact .bind (.modifyRun _) fun _ => .pure _

theorem Made.identify (value : AppValue) : Made may tells (identify value : Engine σ Subject) := by
  cases value with
  | object o => exact .pure _
  | data v =>
      have counted : Made may tells ((do return (← get).run.data : Engine σ Nat) >>= fun n => do
          Engine.modifyRun fun run => { run with data := n + 1 }
          return (⟨.data v, .data n⟩ : Subject)) :=
        .bind (.read _) fun n => .bind (.modifyRun _) fun _ => .pure _
      exact counted

theorem Made.lookUp {key : ArgumentKey} {coerce : Action σ (Coercion σ)} (allowed : may _ coerce) :
    Made may tells (lookUp key coerce) := by
  let begin_ : Engine σ (Option ArgumentsResult) := do
    let bag := SharedArguments.ofCoercion (← Engine.call coerce)
    Engine.modifyRun fun run => { run with arguments := run.arguments.insert key bag }
    return bag.result?
  have begins : Made may tells begin_ := .bind (.call allowed) fun _ => .bind (.modifyRun _) fun _ => .pure _
  have same : Engine.lookUp key coerce =
      ((do return (← get).run.arguments.get? key : Engine σ _) >>= fun bag? =>
        bag?.elim begin_ fun bag => return bag.result?) := by
    unfold Engine.lookUp
    rw [bind_assoc]
    refine congrArg _ (funext fun surroundings => ?_)
    rw [pure_bind]
    cases surroundings.run.arguments.get? key <;> rfl
  rw [same]
  refine .bind (.read fun run => run.arguments.get? key) fun bag? => ?_
  cases bag? with
  | some bag => exact .pure _
  | none => exact begins

end Engine

/-! ### Two kinds of application code -/

/-- What the fields are of that application code is called for: those of an object, made from a
subject, of a type. At most one of them is being resolved. -/
structure Concern (σ : Type) where
  subject : Subject
  typeName : String
  resolved? : Option (FieldDefinition σ)

namespace Job

/-- Application code that may be called for any value: it finds out of which type the value is and
whether it may be shown, says what to show instead, and coerces plain data. -/
inductive Outward (job : Job σ) : ∀ β : Type, Action σ β → Prop
  | type (abstractType : TypeDefinition σ) (value : AppValue) :
      Outward job _ (job.schema.resolveType abstractType value job.query)
  | authorization {type : ObjectType σ}
      {authorize : AppValue → QueryContext → Action σ (Answer σ ResolverError Bool)}
      (hook : type.authorize? = some authorize) (value : AppValue) :
      Outward job _ (authorize value job.query)
  | refusal (refusal : UnauthorizedError) : Outward job _ (job.schema.unauthorized refusal job.query)
  | rescue (message : String) (path : Path) :
      Outward job _ (job.schema.rescue message path job.query)
  | scalar (type : ScalarType σ) (value : Value) : Outward job _ (type.coerceResult value)
  | enum (type : EnumType) (value : Value) :
      Outward job _ (pure (type.coerce value) : Action σ (Except String Value))

/-- Application code that is called for the fields of an object. What belongs to resolving a field is
called for the one field that is being resolved. -/
inductive Inward (job : Job σ) (concern : Concern σ) : ∀ β : Type, Action σ β → Prop
  | coercion (owner : ArgumentOwner) (definitions : Fields (InputDefinition σ))
      (raw : Fields Value) :
      Inward job concern _ (job.schema.coerceArguments owner definitions raw job.query)
  | guard {definition : DirectiveDefinition σ} {keeps : Arguments → QueryContext → Action σ Bool}
      (hook : definition.include? = some keeps) (arguments : Arguments) :
      Inward job concern _ (keeps arguments job.query)
  | directive (hook : DirectiveHook σ) (arguments : Arguments) (path : Path) :
      Inward job concern _ (hook ⟨arguments, concern.subject.value, path, job.query⟩)
  | provision {field : FieldDefinition σ} {provide : String → QueryContext → Action σ Value}
      (resolved : concern.resolved? = some field) (hook : field.provide? = some provide)
      (name : String) :
      Inward job concern _ (provide name job.query)
  | authorization {field : FieldDefinition σ} {authorize : ResolverContext σ → Action σ Bool}
      (resolved : concern.resolved? = some field) (hook : field.authorize? = some authorize)
      (arguments : Arguments) (extras : Extras σ) :
      Inward job concern _ (authorize
        ⟨concern.subject.value, arguments, job.query, concern.typeName, field.name, extras⟩)
  | resolver {field : FieldDefinition σ} {resolve : ResolverContext σ → Action σ (Resolution σ)}
      (resolved : concern.resolved? = some field) (hook : field.resolve? = some resolve)
      (arguments : Arguments) (extras : Extras σ) :
      Inward job concern _ (resolve
        ⟨concern.subject.value, arguments, job.query, concern.typeName, field.name, extras⟩)

/-- Application code that a transition may call, if it concerns an object, or if not. -/
def May (job : Job σ) (concern? : Option (Concern σ)) (β : Type) (action : Action σ β) : Prop :=
  job.Outward β action ∨ ∃ concern, concern? = some concern ∧ job.Inward concern β action

end Job

/-- The field of a step, if it is about to be resolved. -/
def FieldStep.resolved? (step : FieldStep σ) : Option (FieldDefinition σ) :=
  match step.state with
  | .callResolver _ => some step.site.field
  | _ => none

/-- The object for whose fields a step is there, and the field that it is about to resolve. -/
def Step.concern? : Step σ → Option (Concern σ)
  | .object step =>
    match step.state with
    | .collect type _ => some ⟨step.subject, type.name, none⟩
    | .awaitingArguments type _ => some ⟨step.subject, type.name, none⟩
    | _ => none
  | .field step => some ⟨step.site.owner, step.site.typeName, step.resolved?⟩
  | .item step => some ⟨step.position.site.owner, step.position.site.typeName, none⟩

variable {job : Job σ} {concern? : Option (Concern σ)} {concern : Concern σ} {tells : Event → Prop}

theorem Job.Outward.may {β : Type} {action : Action σ β} (outward : job.Outward β action) :
    job.May concern? β action := .inl outward

theorem Job.Inward.may {β : Type} {action : Action σ β} (inward : job.Inward concern β action) :
    job.May (some concern) β action := .inr ⟨concern, rfl, inward⟩

open Engine

/-! ### What is called for any value -/

theorem Engine.made_rescue (message : String) (path : Path) :
    (rescue job message path).Made (job.May concern?) tells := by
  refine .bind (.call (Job.Outward.rescue message path).may) fun error? => ?_
  cases error? with
  | some error => exact .pure _
  | none => exact .throw _

theorem Engine.made_settle (path : Path) (result : FieldResult σ) :
    (settle job path result).Made (job.May concern?) tells := by
  cases result with
  | ok value => exact .pure _
  | error error =>
      cases error with
      | execution error => exact .pure _
      | unexpected message => exact .bind (made_rescue message path) fun _ => .pure _

namespace Position

variable (position : Position σ)

theorem made_report (error : ExecutionError) :
    (position.report error : Engine σ Unit).Made (job.May concern?) tells :=
  .bind .draft fun _ => .report _

theorem made_write (value : Value) :
    (position.write value : Engine σ Unit).Made (job.May concern?) tells := .modifyDraft _

theorem made_writeNull : (position.writeNull : Engine σ Unit).Made (job.May concern?) tells := by
  unfold writeNull
  split
  · exact .bind (position.made_report _) fun _ => position.made_write _
  · exact position.made_write _

theorem made_writeError (error : ExecutionError) :
    (position.writeError error : Engine σ Unit).Made (job.May concern?) tells :=
  .bind (position.made_report error) fun _ => position.made_write _

theorem made_writeLeaf (coerced : Except String Value) :
    (position.writeLeaf coerced : Engine σ Unit).Made (job.May concern?) tells := by
  unfold writeLeaf
  cases coerced with
  | error message => exact position.made_writeError _
  | ok value =>
      simp only
      split
      · exact position.made_writeNull
      · exact position.made_write _

theorem made_writeErrorItems (list : NodeId) (itemType : TypeRef) (errors : List ExecutionError) :
    ∀ n, (position.writeErrorItems list itemType n errors : Engine σ Unit).Made (job.May concern?) tells := by
  induction errors with
  | nil => exact fun n => .pure _
  | cons error rest ih =>
      intro n
      exact .bind ((position.item list itemType n).made_writeError error) fun _ => ih (n + 1)

theorem made_reportAll (errors : List ExecutionError) :
    (position.reportAll errors : Engine σ Unit).Made (job.May concern?) tells := by
  induction errors with
  | nil => exact .pure _
  | cons error rest ih => exact .bind (position.made_report error) fun _ => ih

theorem made_completeErrors (errors : List ExecutionError) :
    (position.completeErrors errors : Engine σ Unit).Made (job.May concern?) tells := by
  unfold completeErrors
  split
  · exact .bind (.allocate _) fun list => position.made_writeErrorItems _ _ _ _
  · exact .bind (position.made_reportAll _) fun _ => position.made_write _

theorem made_enqueueItems (list : NodeId) (itemType : TypeRef) (cursor : DirectiveCursor σ)
    (items : List (ResolvedValue σ)) :
    ∀ n, (position.enqueueItems list itemType cursor n items).Made (job.May concern?) tells := by
  induction items with
  | nil => exact fun n => .pure _
  | cons item rest ih => exact fun n => .bind (.enqueue _) fun _ => ih (n + 1)

theorem made_completeList (itemType : TypeRef) (items : List (ResolvedValue σ)) :
    (position.completeList job itemType items).Made (job.May concern?) tells :=
  .bind (.allocate _) fun _ => position.made_enqueueItems _ _ _ _ _

theorem made_completeLeaf (typeName : String) {coerce : Value → Action σ (Except String Value)}
    (outward : ∀ value, job.Outward _ (coerce value)) (value : ResolvedValue σ) :
    (position.completeLeaf typeName coerce value).Made (job.May concern?) tells := by
  unfold completeLeaf
  split
  · exact .bind (.call (outward _).may) fun _ => position.made_writeLeaf _
  · exact position.made_writeLeaf _

theorem made_completeObject (type : TypeDefinition σ) (value : ResolvedValue σ) :
    (position.completeObject type value).Made (job.May concern?) tells := by
  unfold completeObject
  split
  · exact .throw _
  · exact .bind (.identify _) fun _ => .enqueue _

theorem made_completeByType (value : ResolvedValue σ) :
    (position.completeByType job value).Made (job.May concern?) tells := by
  unfold completeByType
  split
  · split
    · exact position.made_completeList _ _
    · exact position.made_completeList _ _
    · exact .bind .draft fun _ => .throw _
  · split
    · exact position.made_completeLeaf _ (fun v => .scalar _ v) _
    · exact position.made_completeLeaf _ (fun v => .enum _ v) _
    · exact .throw _
    · exact position.made_completeObject _ _
    · exact .throw _
  · exact .throw _

theorem made_complete (value : ResolvedValue σ) :
    (position.complete job value).Made (job.May concern?) tells := by
  have then_done {x : Engine σ Unit} (made : x.Made (job.May concern?) tells) :
      (x >>= fun _ => (pure .done : Engine σ (Completion σ))).Made (job.May concern?) tells :=
    .bind made fun _ => .pure _
  unfold complete
  split
  · exact .pure _
  · refine .bind (.call (Job.Outward.refusal _).may) fun answer => ?_
    cases answer <;> exact .pure _
  · exact then_done position.made_writeNull
  · exact then_done (position.made_writeError _)
  · exact then_done (.modifyDraft _)
  · exact then_done (.modifyDraft _)
  · split
    · exact then_done (position.made_completeErrors _)
    · exact then_done (position.made_completeByType _)
  · exact then_done (position.made_completeByType _)

end Position

/-! ### What is called for the fields of an object -/

variable {may : ∀ β : Type, Action σ β → Prop}

/-- What is called for any value may be called wherever all such code may be. -/
theorem Engine.Made.of_outward {α : Type} {program : Engine σ α} (made : program.Made (job.May none) tells)
    (outward : ∀ β action, job.Outward β action → may β action) : program.Made may tells := by
  refine made.mono fun β action allowed => ?_
  rcases allowed with allowed | ⟨concern, none_given, -⟩
  · exact outward β action allowed
  · cases none_given

/-- Besides the code that may be called for any value, that may be called which guards selections,
and which coerces the arguments of directives. -/
structure Job.Admits (job : Job σ) (may : ∀ β : Type, Action σ β → Prop) : Prop where
  outward : ∀ β action, job.Outward β action → may β action
  coerces : ∀ name definitions raw,
    may _ (job.schema.coerceArguments (.directive name) definitions raw job.query)
  guard : ∀ (definition : DirectiveDefinition σ) keeps, definition.include? = some keeps →
    ∀ arguments, may _ (keeps arguments job.query)

theorem Job.admits_may (job : Job σ) (concern : Concern σ) : job.Admits (job.May (some concern)) where
  outward _ _ outward := outward.may
  coerces _ _ _ := (Job.Inward.coercion _ _ _).may
  guard _ _ hook _ := (Job.Inward.guard hook _).may

theorem Directive.made_lookUp (admits : job.Admits may) (directive : Directive)
    (definition : DirectiveDefinition σ) (identity : Identity) :
    (directive.lookUp job definition identity).Made may tells :=
  .bind (.lookUp (admits.coerces _ _ _)) fun _ => .pure _

theorem DirectiveCursor.made_advance (admits : job.Admits may) (cursor : DirectiveCursor σ)
    (owner : Subject) (path : Path)
    (asks : ∀ use rest arguments, cursor.uses = use :: rest → cursor.stage = .called (.ok arguments) →
      may _ (use.hook ⟨arguments, owner.value, path, job.query⟩)) :
    (cursor.advance job owner path).Made may tells := by
  obtain ⟨uses, stage⟩ := cursor
  cases uses with
  | nil => exact .pure _
  | cons use rest =>
      cases stage with
      | unstarted =>
          refine .bind (Directive.made_lookUp admits _ _ _) fun found => ?_
          obtain ⟨key, result?⟩ := found
          cases result? <;> exact .pure _
      | awaitingArguments => exact .throw _
      | called result =>
          cases result with
          | error error => exact .pure _
          | ok arguments =>
              refine .bind (.call (asks use rest arguments rfl rfl)) fun answer => ?_
              split <;> exact .pure _
      | awaitingAnswer => exact .throw _
      | answered flow =>
          cases flow with
          | error error => exact .pure _
          | ok flow => cases flow <;> exact .pure _

namespace FieldSite

/-- Application code that is called to resolve a field with arguments. -/
inductive Resolves (site : FieldSite σ) (job : Job σ) (arguments : Arguments) :
    ∀ β : Type, Action σ β → Prop
  | provision {provide : String → QueryContext → Action σ Value}
      (hook : site.field.provide? = some provide) (name : String) :
      Resolves site job arguments _ (provide name job.query)
  | authorization {authorize : ResolverContext σ → Action σ Bool}
      (hook : site.field.authorize? = some authorize) (extras : Extras σ) :
      Resolves site job arguments _ (authorize
        ⟨site.owner.value, arguments, job.query, site.typeName, site.field.name, extras⟩)
  | resolver {resolve : ResolverContext σ → Action σ (Resolution σ)}
      (hook : site.field.resolve? = some resolve) (extras : Extras σ) :
      Resolves site job arguments _ (resolve
        ⟨site.owner.value, arguments, job.query, site.typeName, site.field.name, extras⟩)

/-- The field of a site is being resolved. -/
def resolving (site : FieldSite σ) : Concern σ := ⟨site.owner, site.typeName, some site.field⟩

variable (site : FieldSite σ) {arguments : Arguments}

theorem Resolves.may_call {site : FieldSite σ} {β : Type} {action : Action σ β}
    (resolves : site.Resolves job arguments β action) : job.May (some site.resolving) β action := by
  cases resolves with
  | provision hook name => exact (Job.Inward.provision rfl hook name).may
  | authorization hook extras => exact (Job.Inward.authorization rfl hook arguments extras).may
  | resolver hook extras => exact (Job.Inward.resolver rfl hook arguments extras).may

theorem made_lookUpArguments
    (coerces : ∀ raw, may _ (job.schema.coerceArguments (.field site.typeName site.field.name)
      site.field.arguments raw job.query)) : (site.lookUpArguments job).Made may tells := by
  unfold lookUpArguments
  split
  · exact .pure _
  · exact .lookUp (coerces _)

theorem made_provide (extras : List Extra) : ∀ values,
    (site.provide job values extras).Made (site.Resolves job arguments) tells := by
  induction extras with
  | nil => exact fun values => .pure _
  | cons extra rest ih =>
      intro values
      cases extra with
      | custom name =>
          unfold provide
          cases hook : site.field.provide? with
          | some provide => exact .bind (.call (.provision hook name)) fun _ => ih _
          | none => exact .bind (.pure _) fun _ => ih _
      | _ => exact ih values

theorem made_extras (parent : NodeId) (path : Path) :
    (site.extras job parent path).Made (site.Resolves job arguments) tells :=
  .bind .draft fun _ => .bind (site.made_provide _ _) fun _ => .pure _

theorem made_reportAll (path : Path) (errors : List ExecutionError) :
    (site.reportAll path errors : Engine σ Unit).Made may tells := by
  induction errors with
  | nil => exact .pure _
  | cons error rest ih => exact .bind (.report _) fun _ => ih

/-- A field is begun and ended. -/
def Spans (tells : Event → Prop) (path : Path) : Prop :=
  tells (.beginField site.typeName site.field.name path) ∧
    tells (.endField site.typeName site.field.name path)

theorem made_callResolver (path : Path) (spans : site.Spans tells path) (arguments : Arguments)
    (extras : Extras σ) :
    (site.callResolver path
      ⟨site.owner.value, arguments, job.query, site.typeName, site.field.name, extras⟩).Made
      (site.Resolves job arguments) tells := by
  unfold callResolver
  refine .bind (.tell spans.1) fun _ => ?_
  cases hook : site.field.resolve? with
  | some resolve =>
      exact .bind (.call (.resolver hook extras)) fun _ => .bind (.tell spans.2) fun _ => .pure _
  | none => exact .bind (.pure _) fun _ => .bind (.tell spans.2) fun _ => .pure _

theorem made_resolve (parent : NodeId) (path : Path) (spans : site.Spans tells path)
    (arguments : Arguments) :
    (site.resolve job parent path arguments).Made (site.Resolves job arguments) tells := by
  unfold resolve
  refine .bind (site.made_extras parent path) fun extras => ?_
  have answer : ∀ allowed : Bool, (if allowed = true then do
      let resolution ← site.callResolver path
        ⟨site.owner.value, arguments, job.query, site.typeName, site.field.name, extras⟩
      if extras.reporting = true then site.reportAll path resolution.reported
      return resolution.result
    else return .ok (.unauthorized (.field site.typeName site.field.name)) :
      Engine σ (FieldResult σ)).Made (site.Resolves job arguments) tells := by
    intro allowed
    split
    · refine .bind (site.made_callResolver path spans arguments extras) fun resolution => ?_
      split
      · exact .bind (site.made_reportAll _ _) fun _ => .pure _
      · exact .pure _
    · exact .pure _
  cases hook : site.field.authorize? with
  | some authorize => exact .bind (.call (.authorization hook extras)) answer
  | none => exact .bind (.pure _) answer

end FieldSite

/-! ### Gathering -/

namespace Grouper

variable (grouper : Grouper σ)

theorem made_argumentError (error : ArgumentError) :
    (grouper.argumentError error).Made (grouper.job.May concern?) tells := by
  cases error with
  | unexpected message => exact made_rescue _ _
  | _ => exact .pure _

theorem made_inclusion (admits : grouper.job.Admits may) (directives : List Directive) :
    (grouper.inclusion directives).Made may tells := by
  induction directives with
  | nil => exact .pure _
  | cons directive rest ih =>
      unfold inclusion
      split
      · exact ih
      · split
        · exact ih
        · rename_i definition _ keeps hook
          refine .bind (Directive.made_lookUp admits _ _ _) fun found => ?_
          split
          · exact .pure _
          · refine .bind (.call (admits.guard _ _ hook _)) fun kept => ?_
            split
            · exact ih
            · exact .pure _
          · exact .bind ((grouper.made_argumentError _).of_outward admits.outward) fun _ => .pure _

theorem made_groupFrom (admits : grouper.job.Admits may) (available : Fields Fragment)
    (selections : List Selection) : ∀ found,
      (grouper.groupFrom available selections found).Made may tells := by
  induction available, selections using grouper.descent with
  | nil available =>
      intro found
      rw [groupFrom_nil]
      exact .pure _
  | cons available selection rest tail inside =>
      intro found
      obtain ⟨next, same, goes_on⟩ := grouper.groupFrom_cons available selection rest found
      rw [same]
      refine .bind (grouper.made_inclusion admits _) fun inclusion => ?_
      have onward := goes_on inclusion
      generalize next inclusion = program at onward ⊢
      cases onward with
      | waiting key => exact .pure _
      | enters inner selections within =>
          refine .bind (inside inner selections within found) fun result => ?_
          cases result with
          | waiting key => exact .pure _
          | complete found => exact tail _
      | _ => exact tail _

end Grouper

/-! ### Steps -/

theorem FieldStep.made_advance_of (step : FieldStep σ) (admits : job.Admits may)
    (asks : ∀ cursor use rest arguments path, step.state = .runDirectives cursor →
      cursor.uses = use :: rest → cursor.stage = .called (.ok arguments) →
      may _ (use.hook ⟨arguments, step.site.owner.value, path, job.query⟩))
    (seeks : step.state = .loadArguments → ∀ raw, may _ (job.schema.coerceArguments
      (.field step.site.typeName step.site.field.name) step.site.field.arguments raw job.query))
    (calls : ∀ arguments, step.state = .callResolver arguments →
      ∀ β action, step.site.Resolves job arguments β action → may β action)
    (spans : ∀ arguments, step.state = .callResolver arguments → ∀ path,
      step.site.Spans tells path) : (step.advance job).Made may tells := by
  have park (state : FieldState σ) (wait : Wait σ) : (step.park state wait).Made may tells :=
    .bind .draft fun _ => .pure _
  refine .bind .draft fun draft => ?_
  split
  · exact .pure _
  · refine .bind .draft fun draft => ?_
    split
    · rename_i cursor state
      refine .bind (DirectiveCursor.made_advance admits _ _ _ fun use rest arguments =>
        asks cursor use rest arguments _ state) fun turn => ?_
      cases turn with
      | again cursor => exact .pure _
      | passed => exact .pure _
      | skipped => exact .bind (.modifyDraft _) fun _ => .pure _
      | stopped result => exact .pure _
      | waiting cursor wait => exact park _ _
    · rename_i state
      refine .bind (step.site.made_lookUpArguments (seeks state)) fun result? => ?_
      cases result? with
      | some result => exact .pure _
      | none => exact park _ _
    · exact .pure _
    · exact .pure _
    · rename_i arguments state
      have resolves (path : Path) : (step.site.resolve job step.parent path arguments).Made
          (step.site.Resolves job arguments) tells :=
        step.site.made_resolve _ _ (spans arguments state path) _
      exact .bind ((resolves _).mono (calls arguments state)) fun _ => .pure _
    · refine .bind ((made_settle _ _).of_outward admits.outward) fun value => ?_
      refine .bind ((step.position.made_complete _).of_outward admits.outward) fun completion => ?_
      cases completion with
      | done => exact .pure _
      | waiting lazy => exact park _ _
      | replaced value => exact .pure _
    · exact .throw _
    · exact .throw _

theorem FieldStep.only_advance_of (step : FieldStep σ) (admits : job.Admits may)
    (asks : ∀ cursor use rest arguments path, step.state = .runDirectives cursor →
      cursor.uses = use :: rest → cursor.stage = .called (.ok arguments) →
      may _ (use.hook ⟨arguments, step.site.owner.value, path, job.query⟩))
    (seeks : step.state = .loadArguments → ∀ raw, may _ (job.schema.coerceArguments
      (.field step.site.typeName step.site.field.name) step.site.field.arguments raw job.query))
    (calls : ∀ arguments, step.state = .callResolver arguments →
      ∀ β action, step.site.Resolves job arguments β action → may β action) :
    (step.advance job).Only may := by
  have any (path : Path) : step.site.Spans (fun _ => True) path := ⟨trivial, trivial⟩
  exact (step.made_advance_of admits asks seeks calls fun _ _ => any).only

theorem FieldStep.only_advance (step : FieldStep σ) :
    (step.advance job).Only (job.May (Step.field step).concern?) := by
  refine step.only_advance_of (job.admits_may _) (fun _ _ _ _ _ _ _ _ => ?_) (fun _ _ => ?_)
    fun arguments state β action resolves => ?_
  · exact (Job.Inward.directive _ _ _).may
  · exact (Job.Inward.coercion _ _ _).may
  · have same : (Step.field step).concern? = some step.site.resolving := by
      unfold Step.concern? FieldStep.resolved?
      simp only [state]
      rfl
    rw [same]
    exact resolves.may_call

theorem ItemStep.made_advance_of (step : ItemStep σ) (admits : job.Admits may)
    (asks : ∀ cursor value use rest arguments path, step.state = .runDirectives cursor value →
      cursor.uses = use :: rest → cursor.stage = .called (.ok arguments) →
      may _ (use.hook ⟨arguments, step.position.site.owner.value, path, job.query⟩)) :
    (step.advance job).Made may tells := by
  have park (state : ItemState σ) (wait : Wait σ) : (step.park state wait).Made may tells :=
    .bind .draft fun _ => .pure _
  refine .bind .draft fun draft => ?_
  split
  · exact .pure _
  · refine .bind .draft fun draft => ?_
    split
    · rename_i cursor value state
      refine .bind (DirectiveCursor.made_advance admits _ _ _ fun use rest arguments =>
        asks cursor value use rest arguments _ state) fun turn => ?_
      cases turn with
      | again cursor => exact .pure _
      | passed => exact .pure _
      | skipped => exact .bind (.modifyDraft _) fun _ => .pure _
      | stopped result => exact .pure _
      | waiting cursor wait => exact park _ _
    · refine .bind ((made_settle _ _).of_outward admits.outward) fun value => ?_
      split
      · exact park _ _
      · exact .pure _
    · refine .bind ((step.position.made_complete _).of_outward admits.outward) fun completion => ?_
      cases completion with
      | done => exact .pure _
      | waiting lazy => exact park _ _
      | replaced value => exact .pure _
    · exact .throw _

theorem ItemStep.only_advance_of (step : ItemStep σ) (admits : job.Admits may)
    (asks : ∀ cursor value use rest arguments path, step.state = .runDirectives cursor value →
      cursor.uses = use :: rest → cursor.stage = .called (.ok arguments) →
      may _ (use.hook ⟨arguments, step.position.site.owner.value, path, job.query⟩)) :
    (step.advance job).Only may := by
  have silent : (step.advance job).Made may fun _ => False := step.made_advance_of admits asks
  exact silent.only

theorem ItemStep.only_advance (step : ItemStep σ) :
    (step.advance job).Only (job.May (Step.item step).concern?) :=
  step.only_advance_of (job.admits_may _) fun _ _ _ _ _ _ _ _ _ =>
    (Job.Inward.directive _ _ _).may

namespace ObjectStep

variable (step : ObjectStep σ)

theorem made_park (state : ObjectState σ) (wait : Wait σ) :
    (step.park state wait).Made (job.May concern?) tells :=
  .bind .draft fun _ => .pure _

theorem made_failRoot (value : ResolvedValue σ) : (failRoot job value).Made (job.May concern?) tells := by
  have then_null {x : Engine σ Unit} (made : x.Made (job.May concern?) tells) :
      (x >>= fun _ => Engine.modifyDraft Draft.nullData).Made (job.May concern?) tells :=
    .bind made fun _ => .modifyDraft _
  unfold failRoot
  split
  · exact then_null (.report _)
  · exact then_null (.throw _)
  · refine .bind (.call (Job.Outward.refusal _).may) fun answer => ?_
    split
    · exact then_null (.report _)
    · exact then_null (.report _)
    · exact .modifyDraft _
  · exact .modifyDraft _

theorem made_fail (value : ResolvedValue σ) : (step.fail job value).Made (job.May concern?) tells := by
  unfold fail
  split
  · exact .bind (made_failRoot _) fun _ => .pure _
  · refine .bind (Position.made_complete _ _) fun completion => ?_
    cases completion with
    | done => exact .pure _
    | waiting lazy => exact step.made_park _ _
    | replaced value => exact .pure _

theorem made_failWith (result : FieldResult σ) :
    (step.failWith job result).Made (job.May concern?) tells :=
  .bind .draft fun _ => .bind (made_settle _ _) fun _ => step.made_fail _

theorem made_launchAll (type : ObjectType σ) (node : NodeId) (groups : Groups) :
    (step.launchAll job type node groups).Made (job.May concern?) tells := by
  induction groups with
  | nil => exact .pure _
  | cons entry rest ih =>
      obtain ⟨key, group⟩ := entry
      refine .bind ?_ fun _ => ih
      unfold launch
      simp only
      split
      · exact .modifyDraft _
      · split
        · exact .throw _
        · split
          · exact .hold _
          · exact .enqueue _

theorem made_collect (admits : job.Admits may) (type : ObjectType σ) (node : NodeId) :
    (step.collect job type node).Made may tells := by
  refine .bind .draft fun draft => ?_
  let grouper : Grouper σ :=
    { job, typeName := type.name, identity := step.subject.identity, path := draft.path node }
  have grouped : (grouper.group step.selections).Made may tells := grouper.made_groupFrom admits _ _ _
  refine .bind grouped fun result => ?_
  cases result with
  | waiting key => exact (step.made_park _ _).of_outward admits.outward
  | complete grouping =>
      have launches : (step.launchAll job type node grouping.groups).Made may tells :=
        (step.made_launchAll type node grouping.groups).of_outward admits.outward
      exact .bind (.modifyRun _) fun _ => .bind (.modifyDraft _) fun _ =>
        .bind launches fun _ => .pure _

theorem only_collect (admits : job.Admits may) (type : ObjectType σ) (node : NodeId) :
    (step.collect job type node).Only may := by
  have silent : (step.collect job type node).Made may fun _ => False :=
    step.made_collect admits type node
  exact silent.only

/-- Before its selections are collected, an object calls nothing for its fields. -/
theorem only_advance_of (outward : ∀ β action, job.Outward β action → may β action)
    (collects : ∀ type node, step.state = .collect type node →
      (step.collect job type node).Only may) : (step.advance job).Only may := by
  have silent {α : Type} {program : Engine σ α}
      (made : program.Made (job.May none) fun _ => False) : program.Only may :=
    (made.of_outward outward).only
  have fails (result : FieldResult σ) : (step.failWith job result).Only may :=
    silent (step.made_failWith result)
  have parks (state : ObjectState σ) (wait : Wait σ) : (step.park state wait).Only may :=
    silent (step.made_park state wait)
  refine .bind (.read (·.draft)) fun draft => ?_
  split
  · unfold advanceAlive
    split
    · refine .bind (.tell _) fun _ => .bind (.call (outward _ _ (.type _ _))) fun answer? => ?_
      split
      · exact .pure _
      · exact parks _ _
      · exact .bind (.tell _) fun _ => .throw _
    · unfold takeType
      split
      · exact .bind (.tell _) fun _ => fails _
      · refine .bind (.tell _) fun _ => ?_
        split
        · exact .pure _
        · exact .throw _
    · unfold askAuthorization
      split
      · exact .pure _
      · rename_i hook
        refine .bind (.tell _) fun _ => ?_
        refine .bind (.call (outward _ _ (.authorization hook _))) fun answer => ?_
        split
        · exact .pure _
        · exact parks _ _
    · refine .bind (.tell _) fun _ => ?_
      split
      · exact .pure _
      · exact silent (step.made_fail _)
      · exact fails _
    · exact fails _
    · refine .bind ?_ fun node => .pure _
      unfold allocate
      split
      · exact .pure _
      · exact silent (.allocate _)
    · exact collects _ _ ‹_›
    · exact .throw _
    · exact .throw _
    · exact .throw _
    · exact .throw _
  · exact .pure _

theorem only_advance : (step.advance job).Only (job.May (Step.object step).concern?) := by
  refine step.only_advance_of (fun _ _ outward => outward.may) fun type node state => ?_
  have concern : (Step.object step).concern? = some ⟨step.subject, type.name, none⟩ := by
    unfold Step.concern?
    simp only [state]
  rw [concern]
  exact step.only_collect (job.admits_may _) type node

end ObjectStep

/-- A transition calls application code for the fields of one object only, if for any. -/
theorem Step.only_advance (step : Step σ) : (step.advance job).Only (job.May step.concern?) := by
  cases step with
  | object step => exact step.only_advance
  | field step => exact step.only_advance
  | item step => exact step.only_advance

end GraphExec
