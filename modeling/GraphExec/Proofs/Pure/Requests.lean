import GraphExec.Proofs.Pure.Schedules

/-!
# Requests to pure schemas

Offsets tell the field nodes of a document apart, and its directives. Making a request ready to be
run is pure in a pure schema.
-/

namespace GraphExec

variable {σ : Type} {loads : Loads}

/-! ### Documents -/

/-- What a job comes across is in its document. -/
theorem Job.Has.document {schema : Schema σ} {request : Request} {job : Job σ}
    (made : job.Of schema request) {selection : Selection} (has : job.Has selection) :
    request.document.Has selection := by
  induction has with
  | operation mem => exact .operation made.operation mem
  | fragment known mem => exact .fragment (made.fragments ▸ known) mem
  | field _ mem ih => exact .field ih mem
  | inline _ mem ih => exact .inline ih mem

theorem Document.Apart.job {schema : Schema σ} {request : Request} {job : Job σ}
    (apart : request.document.Apart) (made : job.Of schema request) : job.Apart where
  nodes _ _ has has' := apart.nodes _ _ (has.document made) (has'.document made)
  directives _ _ _ _ has mem has' mem' :=
    apart.directives _ _ _ _ (has.document made) mem (has'.document made) mem'

/-! ### Preparation -/

namespace Schema

variable {schema : Schema σ}

open Attempt

theorem Pure.coerceVariables (pure : schema.Pure loads) (definitions : List VariableDefinition) :
    ∀ (provided : Fields Json) (bindings : Fields Value),
      (schema.coerceVariables provided bindings definitions).Settled loads fun _ => True := by
  induction definitions with
  | nil => exact fun _ _ => settled_pure trivial
  | cons definition rest ih =>
      intro provided bindings
      have first : (schema.coerceVariable provided definition).Settled loads fun _ => True :=
        Settled.adapt (pure.coerceWithin _ _ _)
      refine Settled.bind first fun value? _ => ?_
      cases value? <;> exact ih _ _

/-- A request is made ready in one way. -/
theorem Pure.prepare (pure : schema.Pure loads) (request : Request) :
    (schema.prepare request).Settled loads fun _ => True := by
  have chosen : Attempt.Settled loads (fun _ => True)
      (ExceptT.mk (Pure.pure (request.document.operations.select request.operationName?)) :
        Attempt σ RequestError _) :=
    Action.settled_done fun _ _ => trivial
  refine Settled.bind chosen fun selected _ => ?_
  obtain ⟨operationName?, operation⟩ := selected
  simp only
  split
  · have thrown : Attempt.Settled loads (fun _ => False)
        (throw (.unsupportedOperation operation.kind) : Attempt σ RequestError PUnit) :=
      settled_throw
    exact thrown.bind fun _ no => no.elim
  · exact Settled.bind (pure.coerceVariables _ _ _) fun _ _ => settled_pure trivial

/-- What a request is prepared to, whatever surrounds it. -/
def Prepares (schema : Schema σ) (loads : Loads) (request : Request)
    (outcome : Except RequestError (Job σ)) : Prop :=
  ∀ world : World σ, world.Keywise loads → ((schema.prepare request).run.run world).1 = outcome

theorem Pure.prepares (pure : schema.Pure loads) (request : Request) :
    ∃ outcome, schema.Prepares loads request outcome := by
  obtain ⟨outcome, answers, -⟩ := pure.prepare request
  exact ⟨outcome, fun world keywise => (answers.run keywise).1⟩

/-- What surrounds requests that are made ready stays keywise. -/
theorem Pure.prepared (pure : schema.Pure loads) (requests : List Request) :
    ∀ {world : World σ}, world.Keywise loads → (schema.prepared requests world).2.Keywise loads := by
  induction requests with
  | nil => exact fun keywise => keywise
  | cons request rest ih =>
      intro world keywise
      rw [prepareAll_run]
      exact ih ((pure.prepare request).run world.app keywise).2.1

/-- Each request is prepared to what it is prepared to by itself. -/
theorem Pure.prepared_each (pure : schema.Pure loads) (requests : List Request) :
    ∀ {world : World σ}, world.Keywise loads →
      List.Forall₂ (schema.Prepares loads) requests (schema.prepared requests world).1 := by
  induction requests with
  | nil => exact fun _ => .nil
  | cons request rest ih =>
      intro world keywise
      rw [prepareAll_run]
      obtain ⟨outcome, prepares⟩ := pure.prepares request
      have after := ((pure.prepare request).run world.app keywise).2.1
      exact .cons (fun other fine => (prepares other fine).trans (prepares world keywise).symm)
        (ih after)

/-- Requests to a pure schema are run in a schedule of pure runs. -/
theorem Pure.schedule (pure : schema.Pure loads) (named : SchemaBuilder.Named schema.types)
    {requests : List Request} {world : World σ} {runs : List (Job σ × Run σ)}
    (keywise : world.Keywise loads)
    (starts : (readyJobs (schema.prepared requests world).1).mapM Job.start = .ok runs)
    (nonblocking : Bool) :
    (Schedule.new runs (schema.prepared requests world).2 nonblocking).Pure loads := by
  refine Schedule.pure_new (pure.prepared requests keywise) nonblocking
    fun owner job run here => ?_
  have each := forall₂_of_mapM starts
  obtain ⟨bound, same⟩ := List.getElem?_eq_some_iff.mp here
  have bound' : owner < (readyJobs (schema.prepared requests world).1).length :=
    each.length_eq ▸ bound
  obtain ⟨type, known, entry⟩ := Job.start_eq (each.get bound' bound)
  obtain ⟨rfl, rfl⟩ := Prod.mk.inj (same.symm.trans entry)
  obtain ⟨request, -, of_request⟩ := job_of_readyJobs (List.getElem_mem bound')
  refine ⟨Job.fine ?_ ?_, type, known, rfl⟩
  · exact of_request.same.symm ▸ pure
  · exact of_request.same.symm ▸ named

end Schema

end GraphExec
