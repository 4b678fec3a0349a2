import Mathlib
import GraphExec.Proofs.Batches
import GraphExec.Proofs.Run.Sound
import GraphExec.Proofs.Schema.Loaded

/-!
# What an execution relies on

A schema whose types are written in type syntax rules out null nowhere twice, and knows every type
that it names. So whatever the application does, nothing that an execution relies on is ever
breached: no step is run while it waits, each is handed what it has been parked for, there is a run
of a root type for every job, and the root object is not replaced by a lazy. Fatal errors are left
to the application.
-/

namespace GraphExec

variable {σ : Type}

/-! ### Schemas -/

/-- The types of fields are written in type syntax. -/
def BuilderCall.Spelled (calls : List (BuilderCall σ)) : Prop :=
  ∀ type, .object type ∈ BuilderCall.types calls → ∀ field ∈ type.fields.values,
    ∃ source, field.type = .parse source

/-- The types of fields rule out null nowhere twice, and what they name has been registered. -/
theorem SchemaBuilder.proper_of_finish {queryType : String} {calls : List (BuilderCall σ)}
    {schema : Schema σ} (finish : (ofCalls queryType calls).finish = .ok schema)
    (spelled : BuilderCall.Spelled calls) : schema.Proper := by
  have coherent := succeeds_iff_coherent.mp ⟨schema, finish⟩
  intro name type found key field here
  obtain ⟨mem, -⟩ := (objectType?_ofCalls finish).mp found
  have among := Fields.mem_values_of_get? here
  constructor
  · obtain ⟨source, written⟩ := spelled type mem field among
    exact written ▸ (TypeRef.writes_parse source).2
  · obtain ⟨definition, registered, named⟩ :=
      List.mem_map.mp (coherent.fields type mem field among).1
    refine ⟨definition, ?_⟩
    unfold Schema.type?
    rw [(Schema.finish_eq finish).1]
    exact (get?_ofCalls coherent.once).mpr ⟨registered, named⟩

/-! ### Steps -/

theorem Step.Proper.position {schema : Schema σ} {step : Step σ} {position : Position σ}
    (proper : step.Proper schema) (here : step.position? = some position) :
    position.type.Proper schema := by
  cases step with
  | object step =>
      obtain ⟨target, -⟩ := proper
      simp only [Step.position?] at here
      split at here
      · cases here
      · injection here with here
        exact here ▸ target _ ‹_›
  | field step =>
      injection here with here
      exact here ▸ proper
  | item step =>
      injection here with here
      exact here ▸ proper

/-- What the root object gives way to takes no time: it is a refusal, or an error. -/
theorem ObjectStep.Fails.root {job : Job σ} {step : ObjectStep σ} {s t : Stage σ}
    {value : ResolvedValue σ} {schema : Schema σ} (fails : step.Fails job s value t)
    (target : step.target = .root) (proper : (Step.object step).Proper schema) :
    ∀ later, value ≠ .lazy later := by
  cases fails with
  | mistyped state settled | unauthorized state settled =>
      obtain ⟨error, rfl⟩ := Engine.settle_error settled
      exact nofun
  | refused state => exact nofun
  | replaced state settled =>
      have never := proper.2
      rw [state] at never
      exact absurd target never

/-! ### Schedules -/

namespace Schedule

/-- A step of a run: it is ready, held back, waiting or answered. -/
def Includes (schedule : Schedule σ) (owner : Nat) (run : Run σ) (step : Step σ) : Prop :=
  step ∈ run.ready ++ run.held ∨ (∃ wait, (step, wait) ∈ schedule.asleep owner) ∨
    ∃ answer, (step, answer) ∈ schedule.phase.answered owner

/-- What is relied on as a schedule goes on. -/
structure Sound (schema : Schema σ) (schedule : Schedule σ) : Prop where
  /-- No step is run while it waits, and none is held back that does. -/
  awake : ∀ (owner : Nat) (job : Job σ) (run : Run σ), schedule.runs[owner]? = some (job, run) →
    ∀ step ∈ run.ready ++ run.held, step.awaited? = none
  /-- A parked step is one of a run and waits for an answer of the kind that it is parked for. -/
  parked : ∀ parked ∈ schedule.parkedSteps, parked.owner < schedule.runs.length ∧
    parked.step.awaited? = some parked.wait.kind
  /-- A step is handed an answer of the kind that it waits for, takes it, and is awake then. -/
  answered : ∀ owner step answer, (step, answer) ∈ schedule.phase.answered owner →
    step.awaited? = some answer.kind ∧
      ∃ next, step.resume answer = .ok next ∧ next.awaited? = none
  /-- A step that is done leaves but the other steps, and such as have not been begun. -/
  done : ∀ owner job step s t, schedule.Sights owner job (.advanced step s) →
    (step.advance job).Gives s .finished t →
    ∃ new, (t.run.ready ++ t.run.held).Perm (new ++ (s.run.ready ++ s.run.held)) ∧
      ∀ other ∈ new, other.IsUnbegun
  /-- What the root object gives way to takes no time. -/
  root : ∀ owner job step s value t, schedule.Sights owner job (.advanced (.object step) s) →
    step.target = .root → step.Fails job s value t → ∀ later, value ≠ .lazy later
  /-- The type of a position rules out null nowhere twice, and what it names is known. -/
  typed : ∀ (owner : Nat) (job : Job σ) (run : Run σ), schedule.runs[owner]? = some (job, run) →
    ∀ step position, schedule.Includes owner run step → step.position? = some position →
      position.type.Separated ∧
        ∃ definition, schema.type? position.type.namedType = some definition
  /-- If the schedule fails, then for few reasons. -/
  failed : ∀ error last, schedule.step = .failed error last → error.Arises

variable {schedule : Schedule σ} {owner : Nat}

theorem Receptive.parked (receptive : schedule.Receptive) {parked : ParkedStep σ}
    (mem : parked ∈ schedule.parkedSteps) :
    parked.step.Expects parked.wait := by
  rcases List.mem_append.mp mem with mem | mem
  · have takes := receptive.entries
    revert mem takes
    cases schedule.phase with
    | draining owner => exact fun mem _ => absurd mem List.not_mem_nil
    | flushing bucket flushes => exact fun mem takes => takes _ (List.mem_map_of_mem mem)
    | awaiting bucket line =>
        intro mem takes
        obtain ⟨awaited, there, same⟩ := List.mem_filterMap.mp mem
        cases awaited with
        | waiting other =>
            injection same with same
            exact takes _ (same ▸ there)
        | answered owner step answer => cases same
  · exact receptive.expectant parked mem

theorem Receptive.answered (receptive : schedule.Receptive) {step : Step σ}
    {answer : Resumption σ} (mem : (step, answer) ∈ schedule.phase.answered owner) :
    ∃ next, step.resume answer = .ok next := by
  have takes := receptive.entries
  revert mem takes
  cases schedule.phase with
  | awaiting bucket line =>
      intro mem takes
      obtain ⟨awaited, there, same⟩ := List.mem_filterMap.mp mem
      cases awaited with
      | waiting other => cases same
      | answered other step' answer' =>
          simp only [Awaited.answered?] at same
          split at same
          · injection same with same
            injection same with same_step same_answer
            exact same_step ▸ same_answer ▸ takes _ there
          · cases same
  | _ => exact fun mem _ => absurd mem List.not_mem_nil

/-- A transition that fails is one of a step that fails. -/
theorem advance_failed {job : Job σ} {run : Run σ} {step : Step σ} {error : FatalError}
    {last : Schedule σ} (turn : schedule.advance owner job run step = .failed error last) :
    (step.advance job).Fails ⟨run, schedule.world⟩ error := by
  unfold Schedule.advance at turn
  unfold Engine.Fails Engine.runAt
  rcases ended : (step.advance job).run.run ⟨run, schedule.world⟩ with ⟨result, t⟩
  rw [ended] at turn
  cases result with
  | error other =>
      injection turn with same
      exact congrArg Except.error same
  | ok progress => cases turn

theorem Visits.owned {first last : Schedule σ} (visits : first.Visits last)
    (owned : first.Owned) : last.Owned := by
  induction visits with
  | start => exact owned
  | step _ turn ih => exact (keeps_step turn).owned ih

end Schedule

namespace Schema

variable {schema : Schema σ} {config : Config} {requests : List Request} {world : World σ}
  {first now last : Schedule σ}

/-- No step is parked when an execution begins, so each takes what it is parked for ever after. -/
theorem Begins.receptive (begins : schema.Begins config requests world first)
    (visits : first.Visits now) : now.Receptive ∧ now.Owned := by
  obtain ⟨runs, -, rfl⟩ := begins
  exact ⟨visits.receptive (Schedule.receptive_new runs _ _),
    visits.owned fun _ mem => absurd mem List.not_mem_nil⟩

/-- The steps of every run may go on, or wait properly. -/
theorem Begins.able (begins : schema.Begins config requests world first)
    (proper : schema.Proper) (visits : first.Visits now) {owner : Nat} {job : Job σ} {run : Run σ}
    (here : now.runs[owner]? = some (job, run)) :
    job.schema = schema ∧ (∀ step ∈ run.ready ++ run.held, step.Able schema) ∧
      ∀ step, now.Includes owner run step → step.Proper schema := by
  obtain ⟨place, -⟩ := begins.job visits here
  obtain ⟨request, -, of_request⟩ := job_of_readyJobs (List.mem_of_getElem? place)
  obtain ⟨type, weave, known, path, shares⟩ := begins.path place visits
  obtain ⟨-, rfl⟩ := shares.same_run here
  obtain rfl := of_request.same
  have all := path.able known proper
  refine ⟨rfl, all.ready, fun step included => ?_⟩
  rcases included with mem | ⟨wait, mem⟩ | ⟨answer, mem⟩
  · exact (all.ready step mem).proper
  · exact all.asleep _ (shares.asleep.mem_iff.mpr mem)
  · exact all.called _ (shares.called.mem_iff.mpr mem)

/-- A step that goes on is a ready one. -/
theorem Begins.able_advanced (begins : schema.Begins config requests world first)
    (proper : schema.Proper) (visits : first.Visits now) {owner : Nat} {job : Job σ}
    {step : Step σ} {s : Stage σ} (sights : now.Sights owner job (.advanced step s)) :
    job.schema = schema ∧ step.Able schema := by
  obtain ⟨run, ready, -, here, first, -⟩ := sights
  obtain ⟨same, able, -⟩ := begins.able proper visits here
  refine ⟨same, able step ?_⟩
  rw [first]
  exact List.mem_cons_self

theorem Begins.arises (begins : schema.Begins config requests world first)
    (proper : schema.Proper) (visits : first.Visits now) {error : FatalError}
    (turn : now.step = .failed error last) : error.Arises := by
  obtain ⟨owner, job, run, step, ready, phase, here, first, fails⟩ :=
    (begins.receptive visits).1.failed turn
  have sights : now.Sights owner job (.advanced step ⟨{ run with ready }, now.world⟩) :=
    ⟨run, ready, phase, here, first, rfl⟩
  obtain ⟨rfl, able⟩ := begins.able_advanced proper visits sights
  exact Step.tame_advance able.awake able.proper _ error (Schedule.advance_failed fails)

theorem Begins.sound (begins : schema.Begins config requests world first)
    (proper : schema.Proper) (visits : first.Visits now) : now.Sound schema := by
  obtain ⟨receptive, owned⟩ := begins.receptive visits
  constructor
  case awake =>
    intro owner job run here step mem
    exact ((begins.able proper visits here).2.1 step mem).awake
  case parked =>
    intro parked mem
    exact ⟨owned parked mem, (receptive.parked mem).awaited⟩
  case answered =>
    intro owner step answer mem
    obtain ⟨next, resumes⟩ := receptive.answered mem
    obtain ⟨kind, awake⟩ := (Step.resumed resumes).awaited
    exact ⟨kind, next, resumes, awake⟩
  case done =>
    intro owner job step s t sights gives
    obtain ⟨new, added, begets⟩ := Step.advance_begets gives
    exact ⟨new, added, fun other mem => (begets other mem).unbegun⟩
  case root =>
    intro owner job step s value t sights target fails
    exact fails.root target (begins.able_advanced proper visits sights).2.proper
  case typed =>
    intro owner job run here step position included at_
    obtain ⟨separated, known⟩ := ((begins.able proper visits here).2.2 step included).position at_
    exact ⟨separated, known⟩
  case failed =>
    intro error last turn
    exact begins.arises proper visits turn

/-- Requests that are executed together end in no other fatal error than one that may arise, since
there is a response for each that was run. -/
theorem arises_of_executeAll? (proper : schema.Proper) {fuel : Nat} {error : FatalError}
    {after : World σ}
    (executed : schema.executeAll? config fuel requests world = some (.error error, after)) :
    error.Arises := by
  obtain ⟨runs, starts⟩ := starts_of_prepared schema requests world
  obtain ⟨ended, last, ran, same⟩ := run?_of_executeAll? executed starts
  have begins : schema.Begins config requests world
      (.new runs (schema.prepared requests world).2 config.nonblocking) := ⟨runs, starts, rfl⟩
  obtain ⟨now, visits, ⟨rfl, turn⟩ | ⟨other, rfl, turn⟩⟩ := Schedule.visits_of_run? ran
  · obtain ⟨rfl, -⟩ := Schedule.step_finished turn
    have enough : (readyJobs (schema.prepared requests world).1).length ≤
        (last.runs.map fun entry => entry.2.response).length := by
      rw [List.length_map, visits.length, (forall₂_of_mapM starts).length_eq]
      exact Nat.le_refl _
    obtain ⟨responses, collected⟩ := collectResponses_ok enough
    cases same.trans collected
  · injection same with same
    exact same ▸ begins.arises proper visits turn

theorem arises_of_execute? (proper : schema.Proper) {request : Request} {fuel : Nat}
    {error : FatalError} {after : World σ}
    (executed : schema.execute? config fuel request world = some (.error error, after)) :
    error.Arises := by
  obtain ⟨result, all, failed, answered⟩ := executeAll?_of_execute? executed
  cases result with
  | error other =>
      injection failed other rfl with same
      exact same ▸ arises_of_executeAll? proper all
  | ok responses =>
      -- one request has one response
      obtain ⟨runs, last, executes⟩ := executes_of_executeAll? all
      have length := (collectResponses_eq executes.collected).1
      rw [length_prepared, List.length_singleton] at length
      obtain ⟨response, rfl⟩ := List.length_eq_one_iff.mp length
      cases answered response rfl

/-- Whatever the code of the application does, an execution of requests to a schema whose types are
written in type syntax never breaches what it relies on. Every request that is prepared has a run of
its own, of a root type, and in all that the schedule comes to its steps are sound. If the execution
ends in a fatal error, then in an unhandled failure, an abstract type that is not resolved, a list
that is expected, a field that is unknown, a value that no object can be made from, or an input type
that is declared for an output. A step that is done is not kept, so there is none to be run
again. -/
theorem invariants_hold {queryType : String} {calls : List (BuilderCall σ)}
    (finish : (SchemaBuilder.ofCalls queryType calls).finish = .ok schema)
    (spelled : BuilderCall.Spelled calls) (config : Config) (requests : List Request)
    (world : World σ) :
    (∃ first, schema.Begins config requests world first ∧
      ∀ (i : Nat) (job : Job σ), (schema.prepared requests world).1[i]? = some (.ok job) →
        ∃ type, schema.rootType? job.operation.kind = some type ∧
          first.runs[turnOf (schema.prepared requests world).1 i]? =
            some (job, Run.start job type)) ∧
    (∀ first now, schema.Begins config requests world first → first.Visits now →
      (∀ (i : Nat) (job : Job σ), (schema.prepared requests world).1[i]? = some (.ok job) →
        ∃ run, now.runs[turnOf (schema.prepared requests world).1 i]? = some (job, run)) ∧
      now.Sound schema) ∧
    (∀ fuel error after, schema.executeAll? config fuel requests world = some (.error error, after) →
      error.Arises) ∧
    ∀ request fuel error after,
      schema.execute? config fuel request world = some (.error error, after) → error.Arises := by
  have proper : schema.Proper := SchemaBuilder.proper_of_finish finish spelled
  refine ⟨?_, fun first now begins visits => ⟨fun i job here => ?_, begins.sound proper visits⟩,
    fun fuel error after executed => arises_of_executeAll? proper executed,
    fun request fuel error after executed => arises_of_execute? proper executed⟩
  · obtain ⟨runs, starts⟩ := starts_of_prepared schema requests world
    refine ⟨_, ⟨runs, starts, rfl⟩, fun i job here => ?_⟩
    have place := readyJobs_turnOf here
    obtain ⟨request, -, of_request⟩ := job_of_readyJobs (List.mem_of_getElem? place)
    obtain ⟨type, known, top⟩ := mapM_start starts place
    rw [of_request.same] at known
    exact ⟨type, known, top⟩
  · obtain ⟨type, weave, -, -, shares⟩ := begins.path (readyJobs_turnOf here) visits
    exact ⟨weave.run, shares.run⟩

/-- Words that take time. -/
def slowWords : FieldDefinition Unit :=
  { name := "words"
    type := .nonNull (.list (.nonNull (.named "String")))
    resolve? := some fun _ => pure
      { result := .ok (.lazy (.pause (.done (.ok (.value (.list [.string "slow"])))))) } }

/-- A query type with words that take time. -/
def slow : List (BuilderCall Unit) :=
  [.register (.object { name := "Query", fields := [("words", slowWords)] })]

/-- The request `{ words }`. -/
def slowRequest : Request :=
  { document :=
      { operations := .single
          { name? := none
            kind := .query
            definitions := []
            selections := [.field ⟨none, "words", [], [], [], ⟨1, 3⟩, 2⟩]
            location := ⟨1, 1⟩ }
        fragments := [] } }

theorem slow_spelled : BuilderCall.Spelled slow := by
  intro type mem field among
  have own : type = { name := "Query", fields := [("words", slowWords)] } := by
    simpa [slow, BuilderCall.types, BuilderCall.type?, BuilderCall.builtIn] using mem
  subst own
  obtain rfl : field = slowWords := List.mem_singleton.mp among
  have separated : slowWords.type.Separated := ⟨rfl, rfl, trivial⟩
  have plain : TypeRef.PlainName slowWords.type.namedType := by decide
  exact ⟨slowWords.type.text, (TypeRef.parse_text separated plain).symm⟩

/-- Whether nothing is parked but a step that waits for a value. -/
def awaitsValue (schedule : Schedule Unit) : Bool :=
  schedule.parkedSteps.map (·.step.awaited?) == [some "value"]

theorem invariants_hold_slow : ∃ schema first now parked,
    (SchemaBuilder.ofCalls "Query" slow).finish = .ok schema ∧ BuilderCall.Spelled slow ∧
      schema.Begins {} [slowRequest] ⟨(), fun _ state => state, []⟩ first ∧ first.Visits now ∧
      now.parkedSteps = [parked] ∧ parked.wait.kind = "value" ∧ now.Sound schema := by
  have ran : (SchemaBuilder.ofCalls "Query" slow).comesTo {} [slowRequest]
      ⟨(), fun _ state => state, []⟩ 8 awaitsValue = true := by cbv
  obtain ⟨schema, first, now, finish, begins, visits, holds⟩ :=
    SchemaBuilder.visits_of_comesTo ran
  obtain ⟨-, always, -⟩ := invariants_hold finish slow_spelled {} [slowRequest]
    ⟨(), fun _ state => state, []⟩
  obtain ⟨-, sound⟩ := always first now begins visits
  have waits := beq_iff_eq.mp holds
  obtain ⟨parked, one, value⟩ : ∃ parked, now.parkedSteps = [parked] ∧
      parked.step.awaited? = some "value" := by
    obtain ⟨parked, rest, all, value, none_left⟩ := List.map_eq_cons_iff.mp waits
    exact ⟨parked, by rw [all, List.map_eq_nil_iff.mp none_left], value⟩
  have kind := (sound.parked parked (one ▸ List.mem_singleton_self _)).2
  exact ⟨schema, first, now, parked, finish, slow_spelled, begins, visits, one,
    Option.some.inj (kind.symm.trans value), sound⟩

end Schema

end GraphExec
