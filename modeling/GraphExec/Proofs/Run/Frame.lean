import GraphExec.Proofs.Run.Descent
import GraphExec.Run.Object
import GraphExec.Run.Item

/-!
# What transitions leave alone

Most of what a transition does happens outside the response: application code is called, arguments
are looked up, errors are reported. None of it changes the draft or the steps of the run.
-/

namespace GraphExec

variable {σ α β : Type}

/-- The draft and the steps of a run are the same at two stages. -/
structure SameTree (s t : Stage σ) : Prop where
  draft : t.run.draft = s.run.draft
  ready : t.run.ready = s.run.ready
  held : t.run.held = s.run.held
  parked : t.run.parked = s.run.parked

namespace SameTree

theorem refl (s : Stage σ) : SameTree s s := ⟨rfl, rfl, rfl, rfl⟩

theorem trans {s t u : Stage σ} (first : SameTree s t) (second : SameTree t u) : SameTree s u :=
  ⟨second.draft.trans first.draft, second.ready.trans first.ready, second.held.trans first.held,
    second.parked.trans first.parked⟩

end SameTree

/-- A relation between stages that holds whatever is done outside the response, its errors and the
store of bags: application code runs. -/
class Aside (R : Stage σ → Stage σ → Prop) : Prop where
  refl (s : Stage σ) : R s s
  trans {s t u : Stage σ} (first : R s t) (second : R t u) : R s u
  call {α : Type} (action : Action σ α) (s : Stage σ) :
    R s { s with world := (action.run s.world).2 }
  tell (event : Event) (s : Stage σ) : R s { s with world := s.world.tell event }
  count (data : Nat) (s : Stage σ) : R s { s with run := { s.run with data } }

/-- A relation between stages that holds when a bag of arguments is started. -/
class Starts (R : Stage σ → Stage σ → Prop) : Prop where
  start (key : ArgumentKey) (coercion : Coercion σ) (s : Stage σ)
    (fresh : s.run.arguments.get? key = none) :
    R s { s with run := { s.run with
      arguments := s.run.arguments.insert key (.ofCoercion coercion) } }

/-- A relation between stages that holds when errors are reported as well. -/
class Outside (R : Stage σ → Stage σ → Prop) : Prop extends Aside R where
  report (errors : List ExecutionError) (s : Stage σ) :
    R s { s with run := { s.run with errors := s.run.errors ++ errors } }

instance : Outside (SameTree (σ := σ)) where
  refl := .refl
  trans := .trans
  call _ _ := ⟨rfl, rfl, rfl, rfl⟩
  tell _ _ := ⟨rfl, rfl, rfl, rfl⟩
  report _ _ := ⟨rfl, rfl, rfl, rfl⟩
  count _ _ := ⟨rfl, rfl, rfl, rfl⟩

instance : Starts (SameTree (σ := σ)) where
  start _ _ _ _ := ⟨rfl, rfl, rfl, rfl⟩

namespace Engine

/-- A program that takes every stage to one that is related to it. -/
def Keeps (R : Stage σ → Stage σ → Prop) (program : Engine σ α) : Prop :=
  ∀ s a t, program.Gives s a t → R s t

variable {R : Stage σ → Stage σ → Prop} [Aside R]

theorem keeps_pure (a : α) : Keeps R (pure a : Engine σ α) := by
  intro s b t h
  obtain ⟨-, rfl⟩ := gives_pure.mp h
  exact Aside.refl s

omit [Aside R] in
theorem keeps_throw (error : FatalError) : Keeps R (throw error : Engine σ α) :=
  fun _ _ _ h => absurd h not_gives_throw

theorem keeps_bind {x : Engine σ α} {f : α → Engine σ β} (first : Keeps R x)
    (then_ : ∀ a, Keeps R (f a)) : Keeps R (x >>= f) := by
  intro s b t h
  obtain ⟨a, u, hx, hf⟩ := gives_bind.mp h
  exact Aside.trans (first s a u hx) (then_ a u b t hf)

theorem keeps_call (action : Action σ α) : Keeps R (call action) := by
  intro s a t h
  obtain ⟨-, rfl⟩ := gives_call.mp h
  exact Aside.call action s

theorem keeps_tell (event : Event) : Keeps R (tell event : Engine σ Unit) := by
  intro s a t h
  obtain rfl := gives_tell.mp h
  exact Aside.tell event s

theorem keeps_draft : Keeps R (draft : Engine σ Draft) := by
  intro s a t h
  obtain ⟨-, rfl⟩ := gives_draft.mp h
  exact Aside.refl s

theorem keeps_identify (value : AppValue) : Keeps R (identify value : Engine σ Subject) := by
  cases value with
  | object o => exact keeps_pure _
  | data v =>
      refine keeps_bind ?_ fun n => keeps_bind ?_ fun _ => keeps_pure _
      · intro s a t h
        injection h with _ h
        subst h
        exact Aside.refl s
      · intro s a t h
        obtain rfl := gives_modifyRun.mp h
        exact Aside.count _ s

theorem keeps_lookUp [Starts R] (key : ArgumentKey) (coerce : Action σ (Coercion σ)) :
    Keeps R (lookUp key coerce) := by
  intro s a t h
  obtain ⟨stage, u, got, h⟩ := gives_bind.mp h
  injection got with same got
  injection same with same
  subst got same
  split at h
  · obtain ⟨-, rfl⟩ := gives_pure.mp h
    exact Aside.refl s
  · rename_i fresh
    obtain ⟨coercion, v, called, h⟩ := gives_bind.mp h
    obtain ⟨-, rfl⟩ := gives_call.mp called
    obtain ⟨_, w, started, h⟩ := gives_bind.mp h
    obtain rfl := gives_modifyRun.mp started
    obtain ⟨-, rfl⟩ := gives_pure.mp h
    exact Aside.trans (Aside.call coerce s) (Starts.start key _ _ fresh)

theorem keeps_rescue (job : Job σ) (message : String) (path : Path) :
    Keeps R (rescue job message path) := by
  refine keeps_bind (keeps_call _) fun error => ?_
  cases error with
  | none => exact keeps_throw _
  | some error => exact keeps_pure _

theorem keeps_settle (job : Job σ) (path : Path) (result : FieldResult σ) :
    Keeps R (settle job path result) := by
  cases result with
  | ok value => exact keeps_pure _
  | error error =>
      cases error with
      | execution error => exact keeps_pure _
      | unexpected message => exact keeps_bind (keeps_rescue _ _ _) fun _ => keeps_pure _

omit [Aside R] in
/-- A failure stands for an error. -/
theorem settle_error {job : Job σ} {path : Path} {failure : ResolverError}
    {value : ResolvedValue σ} {s t : Stage σ}
    (settled : (settle job path (.error failure)).Gives s value t) :
    ∃ error, value = .error error := by
  cases failure with
  | execution error => exact ⟨error, (gives_pure.mp settled).1.symm⟩
  | unexpected message =>
      obtain ⟨error, u, -, settled⟩ := gives_bind.mp settled
      exact ⟨error, (gives_pure.mp settled).1.symm⟩

omit [Aside R] in
theorem keeps_report [Outside R] (error : ExecutionError) :
    Keeps R (report error : Engine σ Unit) := by
  intro s a t h
  obtain rfl := gives_report.mp h
  exact Outside.report [error] s

end Engine

open Engine

variable {R : Stage σ → Stage σ → Prop} [Aside R]

theorem Directive.keeps_lookUp [Starts R] (directive : Directive) (job : Job σ)
    (definition : DirectiveDefinition σ) (parent : Identity) :
    Keeps R (directive.lookUp job definition parent) :=
  keeps_bind (Engine.keeps_lookUp _ _) fun _ => keeps_pure _

/-- Whether a cursor is about to look up arguments. -/
def DirectiveCursor.isAsking (cursor : DirectiveCursor σ) : Bool :=
  match cursor.uses, cursor.stage with
  | _ :: _, .unstarted => true
  | _, _ => false

/-- A cursor starts bags of arguments only if it asks for some. -/
theorem DirectiveCursor.keeps_advance_of (cursor : DirectiveCursor σ) (job : Job σ)
    (owner : Subject) (path : Path) (starts : cursor.isAsking = true → Starts R) :
    Keeps R (cursor.advance job owner path) := by
  unfold isAsking at starts
  unfold advance
  split
  · exact keeps_pure _
  · rename_i use rest uses
    rw [uses] at starts
    split
    · rename_i stage
      rw [stage] at starts
      have : Starts R := starts rfl
      refine keeps_bind (Directive.keeps_lookUp _ _ _ _) fun found => ?_
      obtain ⟨key, result?⟩ := found
      cases result? <;> exact keeps_pure _
    · exact keeps_pure _
    · refine keeps_bind (keeps_call _) fun answer => ?_
      split <;> exact keeps_pure _
    · exact keeps_pure _
    · exact keeps_pure _
    · exact keeps_pure _
    · exact keeps_throw _
    · exact keeps_throw _

theorem DirectiveCursor.keeps_advance [Starts R] (cursor : DirectiveCursor σ) (job : Job σ)
    (owner : Subject) (path : Path) : Keeps R (cursor.advance job owner path) :=
  cursor.keeps_advance_of job owner path fun _ => inferInstance

namespace FieldSite

/-- A field without arguments starts no bag. -/
theorem keeps_lookUpArguments_of (site : FieldSite σ) (job : Job σ)
    (starts : site.field.arguments.isEmpty = false → Starts R) :
    Keeps R (site.lookUpArguments job) := by
  unfold lookUpArguments
  split
  · exact keeps_pure _
  · rename_i some_arguments
    have : Starts R := starts (Bool.eq_false_iff.mpr some_arguments)
    exact Engine.keeps_lookUp _ _

theorem keeps_lookUpArguments [Starts R] (site : FieldSite σ) (job : Job σ) :
    Keeps R (site.lookUpArguments job) :=
  site.keeps_lookUpArguments_of job fun _ => inferInstance

theorem keeps_provide (site : FieldSite σ) (job : Job σ) (values : Fields Value)
    (extras : List Extra) : Keeps R (site.provide job values extras) := by
  induction extras generalizing values with
  | nil => exact keeps_pure _
  | cons extra rest ih =>
      cases extra with
      | custom name =>
          unfold provide
          cases site.field.provide? with
          | some provide => exact keeps_bind (keeps_call _) fun value => ih _
          | none => exact keeps_bind (keeps_pure _) fun value => ih _
      | _ => exact ih values

omit [Aside R] in
theorem keeps_reportAll [Outside R] (site : FieldSite σ) (path : Path) (errors : List ExecutionError) :
    Keeps R (site.reportAll path errors : Engine σ Unit) := by
  induction errors with
  | nil => exact keeps_pure _
  | cons error rest ih => exact keeps_bind (keeps_report _) fun _ => ih

theorem keeps_callResolver (site : FieldSite σ) (path : Path) (context : ResolverContext σ) :
    Keeps R (site.callResolver path context) := by
  unfold callResolver
  refine keeps_bind (keeps_tell _) fun _ => ?_
  cases site.field.resolve? with
  | some resolve =>
      exact keeps_bind (keeps_call _) fun _ => keeps_bind (keeps_tell _) fun _ => keeps_pure _
  | none =>
      exact keeps_bind (keeps_pure _) fun _ => keeps_bind (keeps_tell _) fun _ => keeps_pure _

omit [Aside R] in
theorem keeps_resolve [Outside R] (site : FieldSite σ) (job : Job σ) (parent : NodeId) (path : Path)
    (arguments : Arguments) : Keeps R (site.resolve job parent path arguments) := by
  unfold resolve
  refine keeps_bind (keeps_bind keeps_draft fun _ => keeps_bind (keeps_provide _ _ _ _)
    fun _ => keeps_pure _) fun extras => ?_
  have answer : ∀ allowed, Keeps R (if allowed = true then do
      let resolution ← site.callResolver path
        ⟨site.owner.value, arguments, job.query, site.typeName, site.field.name, extras⟩
      if extras.reporting = true then site.reportAll path resolution.reported
      return resolution.result
    else return .ok (.unauthorized (.field site.typeName site.field.name))) := by
    intro allowed
    split
    · refine keeps_bind (keeps_callResolver _ _ _) fun resolution => ?_
      split
      · exact keeps_bind (keeps_reportAll _ _ _) fun _ => keeps_pure _
      · exact keeps_pure _
    · exact keeps_pure _
  cases site.field.authorize? with
  | some authorize => exact keeps_bind (keeps_call _) answer
  | none => exact keeps_bind (keeps_pure _) answer

end FieldSite

namespace Grouper

theorem keeps_argumentError (grouper : Grouper σ) (error : ArgumentError) :
    Keeps R (grouper.argumentError error) := by
  cases error with
  | unexpected message => exact keeps_rescue _ _ _
  | _ => exact keeps_pure _

theorem keeps_inclusion [Starts R] (grouper : Grouper σ) (directives : List Directive) :
    Keeps R (grouper.inclusion directives) := by
  induction directives with
  | nil => exact keeps_pure _
  | cons directive rest ih =>
      unfold inclusion
      split
      · exact ih
      · split
        · exact ih
        · refine keeps_bind (Directive.keeps_lookUp _ _ _ _) fun found => ?_
          split
          · exact keeps_pure _
          · refine keeps_bind (keeps_call _) fun kept => ?_
            split
            · exact ih
            · exact keeps_pure _
          · exact keeps_bind (keeps_argumentError _ _) fun _ => keeps_pure _

theorem keeps_groupFrom [Starts R] (grouper : Grouper σ) (available : Fields Fragment)
    (selections : List Selection) :
    ∀ found, Keeps R (grouper.groupFrom available selections found) := by
  induction available, selections using grouper.descent with
  | nil available =>
      intro found
      rw [groupFrom_nil]
      exact keeps_pure _
  | cons available selection rest tail inside =>
      intro found
      obtain ⟨next, same, goes_on⟩ := grouper.groupFrom_cons available selection rest found
      rw [same]
      refine keeps_bind (keeps_inclusion _ _) fun inclusion => ?_
      have onward := goes_on inclusion
      generalize next inclusion = program at onward ⊢
      cases onward with
      | waiting key => exact keeps_pure _
      | enters inner selections within =>
          refine keeps_bind (inside inner selections within found) fun result => ?_
          cases result with
          | waiting key => exact keeps_pure _
          | complete found => exact tail _
      | _ => exact tail _

theorem keeps_group [Starts R] (grouper : Grouper σ) (selections : List Selection) :
    Keeps R (grouper.group selections) :=
  keeps_groupFrom grouper _ _ _

end Grouper

end GraphExec
