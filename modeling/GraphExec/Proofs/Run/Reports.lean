import GraphExec.Proofs.Draft.Fallen
import GraphExec.Proofs.Run.Effects
import GraphExec.Proofs.Run.Passes

/-!
# What transitions report

The errors of a response come from few places: a position has come to an error or to a null that is
ruled out, a resolver reports errors beside its result, a directive on a selection fails, or the root
object may not be shown. Every transition appends the errors of its kind, and nothing else does.
-/

namespace GraphExec

variable {σ α β : Type} {job : Job σ} {s t u : Stage σ}

/-! ### Failures and reports -/

/-- An error of a position, with what is filled in unless the raiser supplied it. -/
structure Failure where
  /-- The object or list that holds the position. -/
  node : NodeId
  /-- The key there. -/
  key : PathSegment
  /-- The place in the document. -/
  location : Location
  /-- The error as it was raised. -/
  error : ExecutionError

/-- The error of the response that a failure is reported as. -/
def Failure.entry (draft : Draft) (failure : Failure) : ExecutionError :=
  failure.error.attach (draft.pathTo failure.node failure.key) failure.location

/-- An error of a position. -/
def Position.failure (position : Position σ) (error : ExecutionError) : Failure :=
  ⟨position.parent, position.key, position.site.location, error⟩

/-- Why an error is among those of the response. -/
inductive Report where
  /-- A position has failed. -/
  | failed (failure : Failure)
  /-- A resolver reports it beside its result. -/
  | noted (failure : Failure)
  /-- A directive on a selection has failed, as the fields of an object were gathered. -/
  | gathered (node : NodeId) (error : ExecutionError)
  /-- The root object may not be shown. -/
  | refused (error : ExecutionError)

/-- The error of the response. -/
def Report.entry (draft : Draft) : Report → ExecutionError
  | failed failure => failure.entry draft
  | noted failure => failure.entry draft
  | gathered _ error => error
  | refused error => error

/-! ### Completion -/

/-- The errors are the same at two stages. -/
def SameErrors (s t : Stage σ) : Prop := t.run.errors = s.run.errors

instance : Silent (SameErrors (σ := σ)) where
  refl _ := rfl
  trans first second := Eq.trans second first
  call _ _ := rfl
  tell _ _ := rfl
  count _ _ := rfl
  draft _ _ := rfl
  steps _ _ _ := rfl

instance : Starts (SameErrors (σ := σ)) where
  start _ _ _ _ := rfl

/-- Failures have been reported, and no node has been added. -/
structure Reported (s t : Stage σ) (failures : List Failure) : Prop where
  errors : t.run.errors = s.run.errors ++ failures.map (·.entry t.run.draft)
  parents : ∀ id, t.run.draft.parent? id = s.run.draft.parent? id

namespace Reported

theorem refl (s : Stage σ) : Reported s s [] := ⟨(List.append_nil _).symm, fun _ => rfl⟩

theorem trans {first second : List Failure} (one : Reported s t first)
    (two : Reported t u second) : Reported s u (first ++ second) := by
  refine ⟨?_, fun id => (two.parents id).trans (one.parents id)⟩
  have entries : first.map (·.entry u.run.draft) = first.map (·.entry t.run.draft) :=
    List.map_congr_left fun failure _ => by
      unfold Failure.entry
      rw [Draft.pathTo_congr two.parents]
  rw [two.errors, one.errors, List.map_append, entries, List.append_assoc]

end Reported

open Engine

namespace Position

variable {position : Position σ} {value : ResolvedValue σ}

/-- Which failures are reported of a position that is completed with a value: a null that is ruled
out, an error, or each error of a list of nothing but errors, at its place if the type is a list. -/
inductive Fails (job : Job σ) (position : Position σ) (s : Stage σ) :
    ResolvedValue σ → List Failure → Prop
  | null (allowed : position.nonNull = false) : Fails job position s (.value .null) []
  | ruledOut (ruled : position.nonNull = true) :
    Fails job position s (.value .null) [position.failure { message := position.nullMessage }]
  | error (error : ExecutionError) : Fails job position s (.error error) [position.failure error]
  | skip : Fails job position s .skip []
  | raw (value : Value) : Fails job position s (.raw value) []
  | refusals {items : List (ResolvedValue σ)} {itemType : TypeRef} (some_item : items ≠ [])
      (errors : items.all (·.isError) = true) (type : position.type.nullable = .list itemType) :
    Fails job position s (.list items) ((ResolvedValue.errors items).mapIdx fun n error =>
      (position.item s.run.draft.nodes.size itemType n).failure error)
  | refused {items : List (ResolvedValue σ)} (some_item : items ≠ [])
      (errors : items.all (·.isError) = true)
      (type : ∀ itemType, position.type.nullable ≠ .list itemType) :
    Fails job position s (.list items) ((ResolvedValue.errors items).map position.failure)
  | coerced {value shown : Value} {name : String} {type : TypeDefinition σ}
      {coerce : Value → Action σ (Except String Value)} (other : value ≠ .null)
      (named : position.type.nullable = .named name) (known : job.schema.type? name = some type)
      (leaf : type.leafCoercion? = some coerce)
      (answer : ((coerce value).run s.world).1 = .ok shown) (fine : shown ≠ .null) :
    Fails job position s (.value value) []
  | coercedNull {value : Value} {name : String} {type : TypeDefinition σ}
      {coerce : Value → Action σ (Except String Value)} {failures : List Failure}
      (other : value ≠ .null) (named : position.type.nullable = .named name)
      (known : job.schema.type? name = some type) (leaf : type.leafCoercion? = some coerce)
      (answer : ((coerce value).run s.world).1 = .ok .null)
      (null : Fails job position s (.value .null) failures) :
    Fails job position s (.value value) failures
  | uncoerced {value : Value} {name message : String} {type : TypeDefinition σ}
      {coerce : Value → Action σ (Except String Value)} (other : value ≠ .null)
      (named : position.type.nullable = .named name) (known : job.schema.type? name = some type)
      (leaf : type.leafCoercion? = some coerce)
      (answer : ((coerce value).run s.world).1 = .error message) :
    Fails job position s (.value value) [position.failure { message }]
  | misfit {value : ResolvedValue σ} {name : String} {type : TypeDefinition σ}
      (other : ¬ value.Anywhere) (not_plain : value.isLeafLike = false)
      (named : position.type.nullable = .named name)
      (known : job.schema.type? name = some type) (leaf : type.leafCoercion?.isSome = true) :
    Fails job position s value
      [position.failure { message := name ++ " cannot represent " ++ value.describe }]
  | items {value : ResolvedValue σ} {itemType : TypeRef} {cursor : DirectiveCursor σ}
      {items : List (ResolvedValue σ)}
      (completes : position.Completes job s value (.items itemType cursor items)) :
    Fails job position s value []
  | object {value : ResolvedValue σ} {step : ObjectStep σ}
      (completes : position.Completes job s value (.object step)) :
    Fails job position s value []

/-- A position is completed with a value, and its failures are reported. -/
def Settles (job : Job σ) (position : Position σ) (s : Stage σ) (value : ResolvedValue σ)
    (t : Stage σ) : Prop :=
  ∃ failures, position.Fails job s value failures ∧
    t.run.errors = s.run.errors ++ failures.map (·.entry t.run.draft)

theorem reported_report {error : ExecutionError} {a : Unit}
    (h : (position.report error).Gives s a t) : Reported s t [position.failure error] := by
  obtain ⟨draft, v, got, h⟩ := gives_bind.mp h
  obtain ⟨rfl, rfl⟩ := gives_draft.mp got
  obtain rfl := gives_report.mp h
  exact ⟨rfl, fun _ => rfl⟩

theorem reported_write {value : Value} {a : Unit} (h : (position.write value).Gives s a t) :
    Reported s t [] := by
  obtain rfl := gives_modifyDraft.mp h
  exact ⟨(List.append_nil _).symm, fun id => Draft.parent?_setLeaf _ _ _ _ _⟩

theorem reported_writeError {error : ExecutionError} {a : Unit}
    (h : (position.writeError error).Gives s a t) : Reported s t [position.failure error] := by
  obtain ⟨_, v, reported, written⟩ := gives_bind.mp h
  exact (reported_report reported).trans (reported_write written)

theorem reported_writeNull {a : Unit} (h : position.writeNull.Gives s a t) :
    ∃ failures, (∀ s, position.Fails job s (.value .null) failures) ∧ Reported s t failures := by
  unfold writeNull at h
  cases ruled : position.nonNull with
  | true =>
      rw [ruled, if_pos rfl] at h
      obtain ⟨_, v, reported, written⟩ := gives_bind.mp h
      exact ⟨_, fun _ => .ruledOut ruled, (reported_report reported).trans (reported_write written)⟩
  | false =>
      rw [ruled, if_neg Bool.false_ne_true] at h
      exact ⟨_, fun _ => .null ruled, reported_write h⟩

theorem reported_writeErrorItems {list : NodeId} {itemType : TypeRef} :
    ∀ {errors : List ExecutionError} {n : Nat} {s t : Stage σ} {a : Unit},
      (position.writeErrorItems list itemType n errors).Gives s a t →
      Reported s t (errors.mapIdx fun i error =>
        (position.item list itemType (n + i)).failure error) := by
  intro errors
  induction errors with
  | nil =>
      intro n s t a h
      obtain ⟨-, rfl⟩ := gives_pure.mp h
      exact .refl s
  | cons error rest ih =>
      intro n s t a h
      obtain ⟨_, v, written, others⟩ := gives_bind.mp h
      have both := (reported_writeError written).trans (ih others)
      simpa [List.mapIdx_cons, Nat.add_assoc, Nat.add_comm 1] using both

theorem reported_reportAll {errors : List ExecutionError} :
    ∀ {s t : Stage σ} {a : Unit}, (position.reportAll errors).Gives s a t →
      Reported s t (errors.map position.failure) := by
  induction errors with
  | nil =>
      intro s t a h
      obtain ⟨-, rfl⟩ := gives_pure.mp h
      exact .refl s
  | cons error rest ih =>
      intro s t a h
      obtain ⟨_, v, reported, others⟩ := gives_bind.mp h
      exact (reported_report reported).trans (ih others)

theorem settles_errors {items : List (ResolvedValue σ)} {a : Unit} (some_item : items ≠ [])
    (errors : items.all (·.isError) = true)
    (h : (position.completeErrors (ResolvedValue.errors items)).Gives s a t) :
    position.Settles job s (.list items) t := by
  unfold completeErrors at h
  split at h
  · rename_i itemType type
    refine ⟨_, .refusals some_item errors type, ?_⟩
    obtain ⟨list, v, opened, written⟩ := gives_bind.mp h
    obtain ⟨rfl, -⟩ := enters_openList opened
    have quiet : SameErrors s v := keeps_allocate _ _ _ _ opened
    have reported := (reported_writeErrorItems written).errors
    rw [quiet] at reported
    simpa using reported
  · rename_i other
    refine ⟨_, .refused some_item errors other, ?_⟩
    obtain ⟨_, v, reported, written⟩ := gives_bind.mp h
    have both := (reported_reportAll reported).trans (reported_write written)
    rw [List.append_nil] at both
    exact both.errors

theorem settles_leaf {name : String} {type : TypeDefinition σ}
    {coerce : Value → Action σ (Except String Value)} {a : Unit} (other : ¬ value.Anywhere)
    (named : position.type.nullable = .named name) (known : job.schema.type? name = some type)
    (leaf : type.leafCoercion? = some coerce)
    (h : (position.completeLeaf name coerce value).Gives s a t) :
    position.Settles job s value t := by
  unfold completeLeaf at h
  split at h
  · rename_i v
    have some_value : v ≠ .null := by
      rintro rfl
      exact other trivial
    obtain ⟨coerced, w, answered, written⟩ := gives_bind.mp h
    obtain ⟨answer, rfl⟩ := gives_call.mp answered
    unfold writeLeaf at written
    cases coerced with
    | error message =>
        exact ⟨_, .uncoerced some_value named known leaf answer,
          (reported_writeError written).errors⟩
    | ok shown =>
        simp only at written
        split at written
        · rename_i null
          have is_null : shown = .null := by cases shown <;> first | rfl | cases null
          subst is_null
          obtain ⟨failures, fails, reported⟩ := @reported_writeNull _ job _ _ _ _ written
          exact ⟨_, .coercedNull some_value named known leaf answer (fails s), reported.errors⟩
        · rename_i shows
          refine ⟨_, .coerced some_value named known leaf answer ?_, (reported_write written).errors⟩
          rintro rfl
          exact shows rfl
  · rename_i no_value
    have not_plain : value.isLeafLike = false := by
      cases value with
      | value v => exact absurd rfl (no_value v)
      | _ => rfl
    exact ⟨_, .misfit other not_plain named known (by rw [leaf]; rfl),
      (reported_writeError h).errors⟩

theorem settles_of_quiet {failures : List Failure} (fails : position.Fails job s value failures)
    (none_failed : failures = []) (quiet : SameErrors s t) : position.Settles job s value t := by
  subst none_failed
  exact ⟨[], fails, quiet.trans (List.append_nil _).symm⟩

theorem settles_byType {a : Unit} (other : ¬ value.Anywhere)
    (h : (position.completeByType job value).Gives s a t) : position.Settles job s value t := by
  have whole := h
  unfold completeByType at h
  split at h
  · rename_i itemType type
    have opened {items : List (ResolvedValue σ)} (list : value.items? = some items)
        (h : (position.completeList job itemType items).Gives s a t) :
        position.Settles job s value t := by
      have quiet : SameErrors s t := position.keeps_completeList _ _ _ _ _ h
      exact settles_of_quiet (.items (.items other type list)) rfl quiet
    split at h
    · exact opened rfl h
    · exact opened rfl h
    · obtain ⟨_, _, -, h⟩ := gives_bind.mp h
      exact absurd h not_gives_throw
  · rename_i name named
    split at h
    · exact settles_leaf other named ‹_› rfl h
    · exact settles_leaf other named ‹_› rfl h
    · exact absurd h not_gives_throw
    · rename_i type not_scalar not_enum not_input known
      have quiet : SameErrors s t := position.keeps_completeObject _ _ _ _ _ h
      have composite : type.leafCoercion? = none := by
        cases type with
        | scalar t => exact absurd rfl (not_scalar t)
        | enum t => exact absurd rfl (not_enum t)
        | _ => rfl
      unfold completeObject at h
      split at h
      · exact absurd h not_gives_throw
      · rename_i v made
        obtain ⟨subject, u, told, -⟩ := gives_bind.mp h
        exact settles_of_quiet (.object (.object other named known composite not_input made
          (identify_value told))) rfl quiet
    · exact absurd h not_gives_throw
  · exact absurd h not_gives_throw

/-- Completing a position reports its failures. -/
theorem settles_of_done (completed : (position.complete job value).Gives s .done t) :
    position.Settles job s value t := by
  have ran {program : Engine σ Unit}
      (wrote : (program >>= fun _ => pure (.done : Completion σ)).Gives s .done t) :
      program.Gives s () t := by
    obtain ⟨_, u, ran, done⟩ := gives_bind.mp wrote
    obtain ⟨-, rfl⟩ := gives_pure.mp done
    exact ran
  unfold complete at completed
  split at completed
  · cases (gives_pure.mp completed).1
  · obtain ⟨answer, v, -, completed⟩ := gives_bind.mp completed
    cases answer <;> cases (gives_pure.mp completed).1
  · obtain ⟨failures, fails, reported⟩ := @reported_writeNull _ job _ _ _ _ (ran completed)
    exact ⟨failures, fails s, reported.errors⟩
  · exact ⟨_, .error _, (reported_writeError (ran completed)).errors⟩
  · exact settles_of_quiet .skip rfl (keeps_modifyDraft _ _ _ _ (ran completed))
  · exact settles_of_quiet (.raw _) rfl (keeps_modifyDraft _ _ _ _ (ran completed))
  · rename_i first rest
    split at completed
    · rename_i errors
      exact settles_errors (List.cons_ne_nil _ _) errors (ran completed)
    · rename_i no_errors
      exact settles_byType (fun both => no_errors both.2) (ran completed)
  · rename_i no_lazy no_refusal not_null no_error no_skip no_raw no_items
    exact settles_byType (ResolvedValue.not_anywhere no_lazy no_refusal not_null no_error no_skip
      no_raw no_items) (ran completed)

theorem quiet_of_replaced {replacement : ResolvedValue σ}
    (completed : (position.complete job value).Gives s (.replaced replacement) t) :
    SameErrors s t := by
  obtain ⟨_, _, -, answered, -⟩ := complete_replaced completed
  exact keeps_call _ _ _ _ answered

end Position

/-! ### Resolvers -/

namespace FieldSite

variable {site : FieldSite σ}

/-- What a resolver is told, given what the field asks for. -/
def context (site : FieldSite σ) (job : Job σ) (arguments : Arguments) (extras : Extras σ) :
    ResolverContext σ :=
  ⟨site.owner.value, arguments, job.query, site.typeName, site.field.name, extras⟩

/-- Which errors the resolver of a field reports beside its result. Nothing is reported if it may not
be called, or if the field does not ask for a collector of errors. -/
inductive Notes (job : Job σ) (site : FieldSite σ) (parent : NodeId) (path : Path)
    (arguments : Arguments) (s : Stage σ) : List ExecutionError → Prop
  | barred {extras : Extras σ} {u : Stage σ} {authorize : ResolverContext σ → Action σ Bool}
      (asked : (site.extras job parent path).Gives s extras u)
      (guarded : site.field.authorize? = some authorize)
      (refuses : ((authorize (site.context job arguments extras)).run u.world).1 = false) :
    Notes job site parent path arguments s []
  | called {extras : Extras σ} {resolution : Resolution σ} {u v w : Stage σ}
      (asked : (site.extras job parent path).Gives s extras u)
      (called : (site.callResolver path (site.context job arguments extras)).Gives v resolution w) :
    Notes job site parent path arguments s (if extras.reporting then resolution.reported else [])

theorem reportAll_errors {path : Path} {errors : List ExecutionError} :
    ∀ {s t : Stage σ} {a : Unit}, (site.reportAll path errors).Gives s a t →
      t.run.errors = s.run.errors ++ errors.map (·.attach path site.location) := by
  induction errors with
  | nil =>
      intro s t a h
      obtain ⟨-, rfl⟩ := gives_pure.mp h
      exact (List.append_nil _).symm
  | cons error rest ih =>
      intro s t a h
      obtain ⟨_, v, reported, others⟩ := gives_bind.mp h
      obtain rfl := gives_report.mp reported
      rw [ih others]
      simp

/-- The resolution of a field reports what its resolver reports. -/
theorem resolve_errors {parent : NodeId} {path : Path} {arguments : Arguments}
    {result : FieldResult σ} (h : (site.resolve job parent path arguments).Gives s result t) :
    ∃ noted, site.Notes job parent path arguments s noted ∧
      t.run.errors = s.run.errors ++ noted.map (·.attach path site.location) := by
  unfold resolve at h
  obtain ⟨extras, u, asked, h⟩ := gives_bind.mp h
  have asks : Keeps SameErrors (site.extras job parent path) :=
    keeps_bind keeps_draft fun _ => keeps_bind (keeps_provide _ _ _ _) fun _ => keeps_pure _
  have quiet := asks _ _ _ asked
  -- What is reported once it is known whether the resolver may be called.
  have answered : ∀ (allowed : Bool) {v : Stage σ}, SameErrors u v →
      (allowed = false → ∃ authorize, site.field.authorize? = some authorize ∧
        ((authorize (site.context job arguments extras)).run u.world).1 = false) →
      (if allowed = true then do
        let resolution ← site.callResolver path (site.context job arguments extras)
        if extras.reporting = true then site.reportAll path resolution.reported
        return resolution.result
      else return .ok (.unauthorized (.field site.typeName site.field.name)) :
        Engine σ (FieldResult σ)).Gives v result t →
      ∃ noted, site.Notes job parent path arguments s noted ∧
        t.run.errors = s.run.errors ++ noted.map (·.attach path site.location) := by
    intro allowed v still barred h
    cases allowed with
    | false =>
        obtain ⟨authorize, guard, refuses⟩ := barred rfl
        obtain ⟨-, rfl⟩ := gives_pure.mp h
        exact ⟨[], .barred asked guard refuses,
          (Eq.trans still quiet).trans (List.append_nil _).symm⟩
    | true =>
        rw [if_pos rfl] at h
        obtain ⟨resolution, w, called, h⟩ := gives_bind.mp h
        have same : SameErrors v w := keeps_callResolver _ _ _ _ _ _ called
        have before : w.run.errors = s.run.errors := Eq.trans same (Eq.trans still quiet)
        refine ⟨_, .called asked called, ?_⟩
        split at h
        · rename_i asks
          rw [if_pos asks, ← before]
          obtain ⟨_, x, reported, h⟩ := gives_bind.mp h
          obtain ⟨-, rfl⟩ := gives_pure.mp h
          exact reportAll_errors reported
        · rename_i silent
          rw [if_neg silent]
          obtain ⟨-, rfl⟩ := gives_pure.mp h
          exact before.trans (List.append_nil _).symm
  cases guard : site.field.authorize? with
  | some authorize =>
      simp only [guard] at h
      obtain ⟨allowed, v, guarded, h⟩ := gives_bind.mp h
      refine answered allowed (keeps_call _ _ _ _ guarded) (fun refuses => ?_) h
      exact ⟨authorize, guard, (gives_call.mp guarded).1.trans refuses⟩
  | none =>
      simp only [guard] at h
      obtain ⟨allowed, v, guarded, h⟩ := gives_bind.mp h
      obtain ⟨rfl, rfl⟩ := gives_pure.mp guarded
      exact answered true rfl (fun refuses => by cases refuses) h

end FieldSite

/-! ### Steps -/

/-- Which errors are reported when the root object gives way to a value. -/
inductive ObjectStep.RootFails (job : Job σ) (s : Stage σ) :
    ResolvedValue σ → List ExecutionError → Prop
  | error (error : ExecutionError) : RootFails job s (.error error) [error]
  | replaced {refusal : UnauthorizedError} {error : ExecutionError}
      (answer : ((job.schema.unauthorized refusal job.query).run s.world).1 = .ok (.error error)) :
    RootFails job s (.unauthorized refusal) [error]
  | raised {refusal : UnauthorizedError} {error : ExecutionError}
      (answer : ((job.schema.unauthorized refusal job.query).run s.world).1 = .error error) :
    RootFails job s (.unauthorized refusal) [error]
  | hidden {refusal : UnauthorizedError} {value : ResolvedValue σ}
      (answer : ((job.schema.unauthorized refusal job.query).run s.world).1 = .ok value)
      (other : ∀ error, value ≠ .error error) : RootFails job s (.unauthorized refusal) []
  | other {value : ResolvedValue σ} (no_error : ∀ error, value ≠ .error error)
      (no_refusal : ∀ refusal, value ≠ .unauthorized refusal) : RootFails job s value []

/-- What the transition of a step reports: one kind of report for each way in which it may go. -/
inductive Step.Reports (job : Job σ) :
    Step σ → Stage σ → Progress σ → Stage σ → List Report → Prop
  | dropped {step : Step σ} {s : Stage σ} (dead : step.isAlive s.run.draft = false) :
    Reports job step s .finished s []
  | skipped {step : Step σ} {s u t : Stage σ} {position : Position σ}
      (skips : step.Skips job s position u) : Reports job step s .finished t []
  | settled {step : Step σ} {s u t : Stage σ} {position : Position σ} {value : ResolvedValue σ}
      {failures : List Failure} (alive : s.run.draft.Alive position.parent)
      (due : step.Due job s position value u) (same : SameTree s u)
      (finishes : position.Finishes job u value t) (fails : position.Fails job u value failures) :
    Reports job step s .finished t (failures.map .failed)
  | collected {step : ObjectStep σ} {s u t : Stage σ} {type : ObjectType σ} {node : NodeId}
      {asked : List Asked} (alive : step.target.isAlive s.run.draft = true)
      (state : step.state = .collect type node)
      (passes : (step.grouper job type (s.run.draft.path node)).Passes job.fragments
        step.selections s asked u) :
    Reports job (.object step) s .finished t ((asked.filterMap (·.2)).map (.gathered node))
  | refused {step : ObjectStep σ} {s u t : Stage σ} {value : ResolvedValue σ}
      {errors : List ExecutionError} (target : step.target = .root)
      (fails : step.Fails job s value u) (tells : ObjectStep.RootFails job u value errors) :
    Reports job (.object step) s .finished t (errors.map .refused)
  | resolved {step next : FieldStep σ} {s t : Stage σ} {arguments : Arguments}
      {noted : List ExecutionError} (alive : s.run.draft.Alive step.parent)
      (state : step.state = .callResolver arguments)
      (notes : step.site.Notes job step.parent (step.position.path s.run.draft) arguments s noted) :
    Reports job (.field step) s (.again (.field next)) t
      (noted.map fun error => .noted (step.position.failure error))
  | goes {step next : Step σ} {progress : Progress σ} {s t : Stage σ}
      (goes : progress.next? = some next)
      (other : ∀ field arguments, step = .field field → field.state ≠ .callResolver arguments) :
    Reports job step s progress t []

/-- The transition of a step reports, and does nothing else to the errors. -/
def Step.Tells (job : Job σ) (step : Step σ) (s : Stage σ) (progress : Progress σ)
    (t : Stage σ) : Prop :=
  ∃ reports, step.Reports job s progress t reports ∧
    t.run.errors = s.run.errors ++ reports.map (·.entry t.run.draft)

variable {progress : Progress σ}

theorem Step.tells_of_quiet {step : Step σ} {reports : List Report}
    (reported : step.Reports job s progress t reports) (none_told : reports = [])
    (quiet : SameErrors s t) : step.Tells job s progress t := by
  subst none_told
  exact ⟨[], reported, Eq.trans quiet (List.append_nil _).symm⟩

theorem Step.tells_of_goes {step next : Step σ} (goes : progress.next? = some next)
    (other : ∀ field arguments, step = .field field → field.state ≠ .callResolver arguments)
    (quiet : SameErrors s t) : step.Tells job s progress t :=
  tells_of_quiet (.goes goes other) rfl quiet

/-- A step that completes its position reports its failures, unless it goes on. -/
theorem Step.tells_of_settles {step : Step σ} {position : Position σ} {value : ResolvedValue σ}
    (alive : s.run.draft.Alive position.parent) (due : step.Due job s position value u)
    (same : SameTree s u) (quiet : SameErrors s u) (finishes : position.Finishes job u value t)
    (settles : position.Settles job u value t) : step.Tells job s .finished t := by
  obtain ⟨failures, fails, errors⟩ := settles
  refine ⟨_, .settled alive due same finishes fails, ?_⟩
  rw [errors, show u.run.errors = s.run.errors from quiet, List.map_map]
  rfl

theorem FieldStep.Way.tells {step : FieldStep σ} (alive : s.run.draft.Alive step.parent)
    (way : step.Way job s progress t) : Step.Tells job (.field step) s progress t := by
  have other {state : FieldState σ} (here : step.state = state)
      (differs : ∀ arguments, state ≠ .callResolver arguments) :
      ∀ field arguments, Step.field step = .field field → field.state ≠ .callResolver arguments := by
    rintro field arguments ⟨⟩ same
    exact differs arguments (here.symm.trans same)
  cases way with
  | directs state directed | passes state directed | stops state directed
  | awaits state directed =>
      exact Step.tells_of_goes rfl (other state nofun)
        (DirectiveCursor.keeps_advance _ _ _ _ _ _ _ directed)
  | @skips cursor u t state directed skipped =>
      have quiet : SameErrors s u := DirectiveCursor.keeps_advance _ _ _ _ _ _ _ directed
      have quiet' : SameErrors u t := keeps_modifyDraft _ _ _ _ skipped
      exact Step.tells_of_quiet (.skipped (.field state directed)) rfl (Eq.trans quiet' quiet)
  | finds state looked | asks state looked =>
      exact Step.tells_of_goes rfl (other state nofun)
        (step.site.keeps_lookUpArguments job _ _ _ looked)
  | takes state | fails state => exact Step.tells_of_goes rfl (other state nofun) rfl
  | resolves state resolved =>
      obtain ⟨noted, notes, errors⟩ := FieldSite.resolve_errors resolved
      refine ⟨_, .resolved alive state notes, ?_⟩
      have same : SameTree s t := step.site.keeps_resolve job _ _ _ _ _ _ resolved
      rw [errors, List.map_map]
      congr 1
      refine List.map_congr_left fun error _ => ?_
      show _ = Failure.entry _ _
      unfold Failure.entry
      rw [same.draft]
      rfl
  | completes state settled completed =>
      exact Step.tells_of_settles alive (.field state settled) (keeps_settle job _ _ _ _ _ settled)
        (keeps_settle job _ _ _ _ _ settled) (Position.finishes_of_done completed)
        (Position.settles_of_done completed)
  | waits state settled completed =>
      obtain ⟨-, rfl⟩ := Position.complete_waiting completed
      exact Step.tells_of_goes rfl (other state nofun) (keeps_settle job _ _ _ _ _ settled)
  | @replaces _ _ _ u t state settled completed =>
      have quiet : SameErrors s u := keeps_settle job _ _ _ _ _ settled
      exact Step.tells_of_goes rfl (other state nofun)
        (Eq.trans (Position.quiet_of_replaced completed) quiet)

theorem ItemStep.Way.tells {step : ItemStep σ} (alive : s.run.draft.Alive step.position.parent)
    (way : step.Way job s progress t) : Step.Tells job (.item step) s progress t := by
  have no_field : ∀ field arguments, Step.item step = .field field →
      field.state ≠ .callResolver arguments := by
    rintro field arguments ⟨⟩
  cases way with
  | directs _ directed | passes _ directed | stops _ directed | awaits _ directed =>
      exact Step.tells_of_goes rfl no_field (DirectiveCursor.keeps_advance _ _ _ _ _ _ _ directed)
  | @skips cursor item u t state directed skipped =>
      have quiet : SameErrors s u := DirectiveCursor.keeps_advance _ _ _ _ _ _ _ directed
      have quiet' : SameErrors u t := keeps_modifyDraft _ _ _ _ skipped
      exact Step.tells_of_quiet (.skipped (.item state directed)) rfl (Eq.trans quiet' quiet)
  | waits _ settled | settles _ settled _ =>
      exact Step.tells_of_goes rfl no_field (keeps_settle job _ _ _ _ _ settled)
  | completes state completed =>
      exact Step.tells_of_settles alive (.item state) (.refl s) rfl
        (Position.finishes_of_done completed) (Position.settles_of_done completed)
  | defers _ completed =>
      obtain ⟨-, rfl⟩ := Position.complete_waiting completed
      exact Step.tells_of_goes rfl no_field rfl
  | replaces _ completed =>
      exact Step.tells_of_goes rfl no_field (Position.quiet_of_replaced completed)

namespace ObjectStep

variable {step : ObjectStep σ}

/-- The root object reports what it gives way for. -/
theorem failRoot_errors {value : ResolvedValue σ} {a : Unit} (h : (failRoot job value).Gives s a t) :
    ∃ errors, RootFails job s value errors ∧ t.run.errors = s.run.errors ++ errors := by
  have reports : ∀ {u : Stage σ} {error : ExecutionError}, SameErrors s u →
      (Engine.report error >>= fun _ => modifyDraft Draft.nullData).Gives u a t →
      t.run.errors = s.run.errors ++ [error] := by
    intro u error quiet h
    obtain ⟨_, v, reported, nulled⟩ := gives_bind.mp h
    obtain rfl := gives_report.mp reported
    obtain rfl := gives_modifyDraft.mp nulled
    exact congrArg (· ++ [error]) quiet
  have nulls : ∀ {u : Stage σ}, SameErrors s u →
      (modifyDraft Draft.nullData : Engine σ Unit).Gives u a t →
      t.run.errors = s.run.errors ++ [] := by
    intro u quiet nulled
    obtain rfl := gives_modifyDraft.mp nulled
    exact Eq.trans quiet (List.append_nil _).symm
  unfold failRoot at h
  split at h
  · exact ⟨_, .error _, reports rfl h⟩
  · obtain ⟨_, u, thrown, -⟩ := gives_bind.mp h
    exact absurd thrown not_gives_throw
  · obtain ⟨answer, u, answered, h⟩ := gives_bind.mp h
    have quiet : SameErrors s u := keeps_call _ _ _ _ answered
    have answer_eq := (gives_call.mp answered).1
    split at h
    · exact ⟨_, .replaced answer_eq, reports quiet h⟩
    · exact ⟨_, .raised answer_eq, reports quiet h⟩
    · rename_i value no_error
      exact ⟨_, .hidden answer_eq fun error same => no_error error same, nulls quiet h⟩
  · rename_i no_error no_lazy no_refusal
    exact ⟨_, .other no_error no_refusal, nulls rfl h⟩

/-- No error is reported before an object gives way. -/
theorem Fails.quiet {value : ResolvedValue σ} (fails : step.Fails job s value u) :
    SameErrors s u := by
  cases fails with
  | mistyped _ settled | unauthorized _ settled | replaced _ settled =>
      exact (keeps_settle job _ _ _ _ _ settled : SameErrors _ u)
  | refused _ => rfl

theorem Way.tells (alive : step.target.isAlive s.run.draft = true)
    (way : step.Way job s progress t) : Step.Tells job (.object step) s progress t := by
  have goes {u : Stage σ} {other : Progress σ} {next : Step σ} (goes : other.next? = some next)
      (quiet : SameErrors s u) : Step.Tells job (.object step) s other u :=
    Step.tells_of_goes goes (by rintro field arguments ⟨⟩) quiet
  cases way with
  | types _ answered | asksType _ answered | decides _ _ answered | asksPermission _ _ answered =>
      exact goes rfl (keeps_call _ _ _ _ answered : SameErrors ⟨s.run, _⟩ t)
  | takesType _ _ | permits _ _ | allows _ => exact goes rfl rfl
  | @fails value progress u t fails gives_way =>
      have quiet := fails.quiet
      cases gives_way with
      | root target failed =>
          obtain ⟨errors, tells, told⟩ := failRoot_errors failed
          refine ⟨_, .refused target fails tells, ?_⟩
          rw [told, show u.run.errors = s.run.errors from quiet, List.map_map]
          exact congrArg _ (List.map_id _).symm
      | @completes position _ target completed =>
          have live : s.run.draft.Alive position.parent := by
            simpa [target, ObjectTarget.isAlive, Draft.Alive] using alive
          exact Step.tells_of_settles live (.object target fails) fails.same quiet
            (Position.finishes_of_done completed) (Position.settles_of_done completed)
      | waits target completed =>
          obtain ⟨-, rfl⟩ := Position.complete_waiting completed
          exact goes rfl quiet
      | replaces target completed =>
          exact goes rfl (Eq.trans (Position.quiet_of_replaced completed) quiet)
  | allocates _ allocated => exact goes rfl (step.keeps_allocate _ _ _ allocated)
  | asks _ grouped => exact goes rfl (Grouper.keeps_group _ _ _ _ _ grouped)
  | @collects type node grouping u t state grouped launched =>
      have still : SameErrors (gathered node grouping u) t :=
        step.keeps_launchAll _ _ _ _ _ _ launched
      obtain ⟨asked, passes, errors⟩ := Grouper.passes_of_group grouped
      have quiet : SameErrors s u := Grouper.keeps_group _ _ _ _ _ grouped
      refine ⟨_, .collected alive state passes, ?_⟩
      rw [show t.run.errors = u.run.errors ++ grouping.errors from still, ← errors,
        show u.run.errors = s.run.errors from quiet, List.map_map]
      exact congrArg _ (List.map_id _).symm

end ObjectStep

/-- Every transition of a step reports what is its to report, and leaves the other errors alone. -/
theorem Step.advance_tells {step : Step σ} (h : (step.advance job).Gives s progress t) :
    step.Tells job s progress t := by
  cases Step.way h with
  | dropped dead => exact tells_of_quiet (.dropped dead) rfl rfl
  | object alive way => exact way.tells alive
  | field alive way => exact way.tells alive
  | item alive way => exact way.tells alive

end GraphExec
