import Mathlib
import GraphExec.Proofs.Defaults
import GraphExec.Proofs.Termination.Rounds

/-!
# Executions end

Whatever requests ask for, and however they are executed together, the execution ends if what the
application does ends and no fragment is spread below itself: with a fatal error, or with nothing
left to be done. Each lazy and each fetch answers after finitely many polls, and each list and each
chain of lazies is finite; what replaces a refused value must not be refused in turn.
-/

namespace GraphExec

variable {σ : Type}

namespace Weave

/-- What is owed to a run that has not been begun is its root. -/
theorem owes_start {job : Job σ} {type : ObjectType σ} {world : World σ}
    (ends : ∀ subject, Step.Ends job (.object (ObjectStep.root job type subject))) :
    ∃ burden, (start job type world).Owes job burden := by
  obtain ⟨subject, tasks⟩ : ∃ subject, (start job type world).tasks =
      [.awake (.object (ObjectStep.root job type subject))] := by
    unfold start Run.start
    cases job.root <;> exact ⟨_, rfl⟩
  have stands : Multiset.Rel (Duty.Stands job (start job type world).run.arguments)
      {.task job [] (.awake (.object (ObjectStep.root job type subject)))}
      ((start job type world).tasks : Multiset (Task σ)) := by
    rw [tasks]
    refine .cons ⟨ends subject [], [], rfl, ?_⟩ .zero
    intro key bag there
    cases there
  exact ⟨_, _, stands, rfl⟩

end Weave

namespace Schedule

variable {first last : Schedule σ}

/-- Nothing is left to be done. -/
structure AtRest (schedule : Schedule σ) : Prop where
  buckets : schedule.buckets = []
  phase : ∃ owner, schedule.phase = .draining owner ∧ schedule.runs.length ≤ owner
  runs : ∀ job run, (job, run) ∈ schedule.runs → run.ready = [] ∧ run.held = [] ∧ run.parked = 0

end Schedule

namespace Schema

variable {schema : Schema σ} {config : Config} {requests : List Request} {app : σ}
  {observe : Event → σ → σ} {first : Schedule σ}

/-- Something is owed to the runs of requests that have been begun. -/
theorem Begins.owes {world : World σ} (begins : schema.Begins config requests world first)
    (acyclic : ∀ request ∈ requests, Fragment.DeeplyAcyclic request.document.fragments)
    (refuses : schema.RefusesFinally) : ∃ burden, first.Owes burden := by
  have each (owner : Nat) : ∃ part : Burden σ, ∀ job run, first.runs[owner]? = some (job, run) →
      ∃ weave, first.Shares owner job weave ∧ weave.Owes job part := by
    cases here : first.runs[owner]? with
    | none => exact ⟨0, fun _ _ other => by cases other⟩
    | some entry =>
        obtain ⟨job, run⟩ := entry
        obtain ⟨place, -⟩ := begins.job .start here
        obtain ⟨type, -, shares⟩ := begins.shares_start place
        obtain ⟨request, asked, of_request⟩ := job_of_readyJobs (List.mem_of_getElem? place)
        have ends (subject : Subject) : Step.Ends job (.object (ObjectStep.root job type subject)) := by
          refine Job.ends_root (of_request.same ▸ refuses) ?_ type subject
          rw [of_request.fragments]
          exact acyclic request asked
        obtain ⟨burden, owes⟩ : ∃ burden,
            (Weave.start job type (schema.prepared requests world).2).Owes job burden :=
          Weave.owes_start ends
        refine ⟨burden, fun job' run' other => ?_⟩
        obtain ⟨rfl, -⟩ := Prod.mk.inj (Option.some.inj other)
        exact ⟨_, shares, owes⟩
  choose part owed using each
  exact ⟨_, part, rfl, owed⟩

/-- Where an execution has ended without a fatal error, nothing is left to be done. -/
theorem Begins.atRest {world : World σ} {now last : Schedule σ}
    (begins : schema.Begins config requests world first) (visits : first.Visits now)
    (turn : now.step = .finished last) : last.AtRest := by
  obtain ⟨rfl, buckets, owner, phase, missing⟩ := Schedule.step_finished turn
  refine ⟨buckets, ⟨owner, phase, List.getElem?_eq_none_iff.mp missing⟩, fun job run mem => ?_⟩
  obtain ⟨i, here⟩ := List.mem_iff_getElem?.mp mem
  obtain ⟨-, weave, shares, rfl⟩ := begins.job visits here
  obtain ⟨finished, -⟩ := shares.finished turn
  refine ⟨finished.ready, finished.held, ?_⟩
  rw [shares.counted, finished.asleep, finished.called]
  rfl

/-- Every execution of requests ends, whether they are awaited together or not, if no fragment of
theirs is spread below itself, no default of an input field needs itself, and what stands in for a
refused value is written as it is. All that is coerced on the way is coerced with the defaults that
it needs. After finitely many transitions there is a fatal error, or no step of any request is
ready, parked or held back. -/
theorem executions_end
    (acyclic : ∀ request ∈ requests, Fragment.DeeplyAcyclic request.document.fragments)
    (grounded : ∀ default, ¬ Relation.TransGen schema.DefaultNeeds default default)
    (refuses : schema.RefusesFinally) :
    (∀ type given?, (schema.coerceInput type given?).Ends) ∧
      (∃ fuel answer, schema.executeAll? config fuel requests ⟨app, observe, []⟩ = some answer) ∧
      ∀ first, schema.Begins config requests ⟨app, observe, []⟩ first →
        ∃ fuel result last, Schedule.run? fuel first = some (result, last) ∧
          ((∃ error, result = .error error) ∨ result = .ok () ∧ last.AtRest) := by
  -- Every turn makes the burden of the runs smaller, or comes to one that does, so a run ends; and
  -- it does not end while a step is left, for one of them can go on.
  have runs (first : Schedule σ) (begins : schema.Begins config requests ⟨app, observe, []⟩ first) :
      ∃ fuel result last, Schedule.run? fuel first = some (result, last) ∧
        ((∃ error, result = .error error) ∨ result = .ok () ∧ last.AtRest) := by
    obtain ⟨burden, owes⟩ := begins.owes acyclic refuses
    obtain ⟨fuel, ⟨result, last⟩, ran⟩ := owes.ends fun now visits => begins.regular visits
    refine ⟨fuel, result, last, ran, ?_⟩
    obtain ⟨now, visits, ⟨rfl, turn⟩ | ⟨error, rfl, -⟩⟩ := Schedule.visits_of_run? ran
    · exact .inr ⟨rfl, begins.atRest visits turn⟩
    · exact .inl ⟨error, rfl⟩
  refine ⟨fun type given? => ?_, ?_, runs⟩
  -- A default that does not need itself has needs of finite depth.
  · exact (stable_of_grounded _ type given? fun value _ =>
      grounded_of_acyclic grounded type value).1
  · obtain ⟨entries, starts⟩ := starts_of_prepared schema requests ⟨app, observe, []⟩
    obtain ⟨fuel, result, last, ran, -⟩ := runs _ ⟨entries, starts, rfl⟩
    refine ⟨fuel, Option.isSome_iff_exists.mp ?_⟩
    unfold executeAll?
    rcases prepares : schema.prepared requests ⟨app, observe, []⟩ with ⟨prepared, begun⟩
    rw [prepares] at starts ran
    unfold Schema.prepared at prepares
    rw [prepares]
    simp only [starts, ran, Option.map_some, Option.isSome_some]

/-- A schema with an object type that refers to itself, through a lazy. -/
def onion : Schema Unit :=
  { types :=
      [("Query", .object
        { name := "Query"
          fields :=
            [("layer",
              { name := "layer", type := .named "Query"
                resolve? := some fun _ => pure
                  { result := .ok (.lazy (.pause (.done (.ok (.object ⟨1, .null⟩))))) } }),
            ("core",
              { name := "core", type := .named "Int"
                resolve? := some fun _ => pure { result := .ok (.value (.int 1)) } })] })]
    queryType := "Query"
    mutationType? := none
    subscriptionType? := none
    directives := []
    possible := [("Query", ["Query"])]
    hooks := {} }

/-- The request `{ layer { ...Inside } } fragment Inside on Query { layer { core } }`. -/
def onionRequest : Request :=
  let core : FieldNode := ⟨none, "core", [], [], [], ⟨1, 64⟩, 63⟩
  { document :=
      { operations := .single
          { name? := none
            kind := .query
            definitions := []
            selections := [.field ⟨none, "layer", [], [], [.spread "Inside" []], ⟨1, 3⟩, 2⟩]
            location := ⟨1, 1⟩ }
        fragments := [("Inside",
          { name := "Inside"
            condition := "Query"
            selections := [.field ⟨none, "layer", [], [], [.field core], ⟨1, 56⟩, 55⟩]
            location := ⟨1, 27⟩ })] } }

theorem onion_acyclic : Fragment.DeeplyAcyclic onionRequest.document.fragments := by
  intro name fragment known directives beneath
  obtain ⟨rfl, rfl⟩ := Prod.mk.inj (List.mem_singleton.mp known)
  -- Beneath the selections of the fragment there are only fields.
  have fields : ∀ selection, Selection.Beneath onionRequest.document.fragments
      [.field ⟨none, "layer", [], [], [.field ⟨none, "core", [], [], [], ⟨1, 64⟩, 63⟩], ⟨1, 56⟩, 55⟩]
      selection → ∃ node : FieldNode, selection = .field node ∧
        ∀ inner ∈ node.selections, inner = .field ⟨none, "core", [], [], [], ⟨1, 64⟩, 63⟩ := by
    intro selection beneath
    induction beneath with
    | here mem =>
        obtain rfl := List.mem_singleton.mp mem
        exact ⟨_, rfl, fun inner mem => List.mem_singleton.mp mem⟩
    | field _ mem ih =>
        obtain ⟨node, same, inside⟩ := ih
        cases same
        exact ⟨_, inside _ mem, fun _ none => absurd none List.not_mem_nil⟩
    | inline _ _ ih =>
        obtain ⟨node, same, -⟩ := ih
        cases same
    | spread _ _ _ ih =>
        obtain ⟨node, same, -⟩ := ih
        cases same
  obtain ⟨node, same, -⟩ := fields _ beneath
  cases same

theorem onion_grounded (default : InputDefault) :
    ¬ Relation.TransGen onion.DefaultNeeds default default := by
  intro cycle
  obtain ⟨before, -, needs⟩ := Relation.TransGen.tail'_iff.mp cycle
  exact absurd (needs.mem trivial) List.not_mem_nil

theorem onion_refuses : onion.RefusesFinally := by
  intro refusal query
  have null : onion.unauthorized refusal query = pure (.ok .null) := by cases refusal <;> rfl
  rw [null]
  intro value same
  cases same
  rfl

theorem executions_end_onion :
    (∀ request ∈ [onionRequest], Fragment.DeeplyAcyclic request.document.fragments) ∧
      (∀ default, ¬ Relation.TransGen onion.DefaultNeeds default default) ∧ onion.RefusesFinally ∧
      (∃ fuel answer, onion.executeAll? {} fuel [onionRequest] ⟨(), fun _ state => state, []⟩ =
        some answer) ∧
      ∃ first, onion.Begins {} [onionRequest] ⟨(), fun _ state => state, []⟩ first ∧
        ∃ fuel result last, Schedule.run? fuel first = some (result, last) ∧
          ((∃ error, result = .error error) ∨ result = .ok () ∧ last.AtRest) := by
  have acyclic : ∀ request ∈ [onionRequest], Fragment.DeeplyAcyclic request.document.fragments := by
    intro request mem
    rw [List.mem_singleton.mp mem]
    exact onion_acyclic
  obtain ⟨-, ends, runs⟩ := @executions_end Unit onion {} [onionRequest] () (fun _ state => state)
    acyclic onion_grounded onion_refuses
  obtain ⟨entries, starts⟩ := starts_of_prepared onion [onionRequest] ⟨(), fun _ state => state, []⟩
  have begins : onion.Begins {} [onionRequest] ⟨(), fun _ state => state, []⟩ _ := ⟨entries, starts, rfl⟩
  exact ⟨acyclic, onion_grounded, onion_refuses, ends, _, begins, runs _ begins⟩

end Schema

end GraphExec
