import GraphExec.Execution
import GraphExec.Proofs.Document.Apart
import GraphExec.Proofs.Run.Shares
import GraphExec.Proofs.Success
import GraphExec.Schema.Builder

/-!
# Responses and runs

Executing requests together means preparing them, running the jobs that come of it in one schedule,
and putting their responses in the places of the requests. Each job keeps the place among the runs
that it has among those that could be prepared.
-/

namespace GraphExec

variable {σ α β ε : Type}

/-! ### What application code may answer -/

/-- Every answer of a piece of application code is of a kind. -/
def Action.Always (holds : α → Prop) : Action σ α → Prop
  | .done answer => holds answer
  | .read next => ∀ state, (next state).Always holds
  | .write _ next => next.Always holds
  | .useSource _ _ next => next.Always holds
  | .request _ next => next.Always holds

namespace Action

theorem Always.run {holds : α → Prop} {action : Action σ α} (always : action.Always holds) :
    ∀ world, holds (action.run world).1 := by
  induction action with
  | done answer => exact fun _ => always
  | read next ih => exact fun world => ih _ (always _) world
  | write state next ih => exact fun world => ih always _
  | useSource id source next ih => exact fun world => ih always _
  | request key next ih => exact fun world => ih always _

theorem Always.bind {holds : α → Prop} {holds' : β → Prop} {action : Action σ α}
    {f : α → Action σ β} (always : action.Always holds)
    (then_ : ∀ a, holds a → (f a).Always holds') : (action.bind f).Always holds' := by
  induction action with
  | done answer => exact then_ _ always
  | read next ih => exact fun state => ih _ (always state)
  | write state next ih => exact ih always
  | useSource id source next ih => exact ih always
  | request key next ih => exact ih always

theorem always {holds : α → Prop} (every : ∀ a, holds a) (action : Action σ α) :
    action.Always holds := by
  induction action with
  | done answer => exact every answer
  | read next ih => exact fun state => ih state
  | write state next ih => exact ih
  | useSource id source next ih => exact ih
  | request key next ih => exact ih

theorem run_bind (action : Action σ α) (f : α → Action σ β) (world : World σ) :
    (action.bind f).run world = (f (action.run world).1).run (action.run world).2 := by
  induction action generalizing world with
  | done answer => rfl
  | read next ih => exact ih _ world
  | write state next ih => exact ih _
  | useSource id source next ih => exact ih _
  | request key next ih => exact ih _

end Action

/-! ### Preparation -/

/-- What a job is that a request has been made into. -/
structure Job.Of (schema : Schema σ) (request : Request) (job : Job σ) : Prop where
  same : job.schema = schema
  known : (schema.rootType? job.operation.kind).isSome = true
  root : job.root = request.root
  operation : job.operation ∈ request.document.operations.all
  fragments : job.fragments = request.document.fragments

/-- Every answer that is no failure is of a kind. -/
def Attempt.Always (holds : α → Prop) (attempt : Attempt σ ε α) : Prop :=
  attempt.run.Always fun result => ∀ a, result = .ok a → holds a

namespace Attempt

theorem Always.bind {holds : α → Prop} {holds' : β → Prop} {attempt : Attempt σ ε α}
    {f : α → Attempt σ ε β} (always : attempt.Always holds)
    (then_ : ∀ a, holds a → (f a).Always holds') : (attempt >>= f).Always holds' := by
  refine Action.Always.bind (f := ExceptT.bindCont f) always fun result fine => ?_
  cases result with
  | ok a => exact then_ a (fine a rfl)
  | error error =>
      intro b wrong
      cases wrong

theorem always_pure {holds : α → Prop} {a : α} (fine : holds a) :
    (pure a : Attempt σ ε α).Always holds := by
  intro b same
  injection same with same
  exact same ▸ fine

theorem always_throw {holds : α → Prop} {error : ε} :
    (throw error : Attempt σ ε α).Always holds := by
  intro b wrong
  cases wrong

theorem always {holds : α → Prop} (every : ∀ a, holds a) (attempt : Attempt σ ε α) :
    attempt.Always holds :=
  Action.always (fun _ a _ => every a) attempt.run

end Attempt

/-- The operation that is chosen is one of the document. -/
theorem Operations.select_mem {operations : Operations} {name? : Option String}
    {selected : Option String × Operation} (chosen : operations.select name? = .ok selected) :
    selected.2 ∈ operations.all := by
  unfold Operations.select at chosen
  split at chosen
  · injection chosen with chosen
    exact chosen ▸ List.mem_singleton.mpr rfl
  · cases chosen
  · split at chosen
    · rename_i found
      injection chosen with chosen
      exact chosen ▸ Fields.mem_values_of_get? found
    · cases chosen
  · injection chosen with chosen
    exact chosen ▸ List.mem_singleton.mpr rfl
  · cases chosen

namespace Schema

theorem prepare_always (schema : Schema σ) (request : Request) :
    (schema.prepare request).Always (Job.Of schema request) := by
  have chosen : Attempt.Always (fun selected => selected.2 ∈ request.document.operations.all)
      (ExceptT.mk (pure (request.document.operations.select request.operationName?)) :
        Attempt σ RequestError _) :=
    fun selected same => Operations.select_mem same
  refine Attempt.Always.bind chosen fun selected among => ?_
  obtain ⟨operationName?, operation⟩ := selected
  simp only
  split
  · have thrown : Attempt.Always (fun _ => False)
        (throw (.unsupportedOperation operation.kind) : Attempt σ RequestError PUnit) :=
      Attempt.always_throw
    exact thrown.bind fun _ no => no.elim
  · rename_i some_type
    have known : (schema.rootType? operation.kind).isSome = true := by
      simpa [Option.isSome_iff_ne_none] using some_type
    refine Attempt.Always.bind (Attempt.always (fun _ => trivial) _) fun bindings _ => ?_
    exact Attempt.always_pure ⟨rfl, known, rfl, among, rfl⟩

/-- What requests are prepared to, and what has become of the world. -/
def prepared (schema : Schema σ) (requests : List Request) (world : World σ) :
    List (Except RequestError (Job σ)) × World σ :=
  ((schema.prepareAll requests).run).run world

theorem prepareAll_run (schema : Schema σ) (request : Request) (rest : List Request)
    (world : World σ) :
    schema.prepared (request :: rest) world =
      let first := (schema.prepare request).run.run world
      (first.1 :: (schema.prepared rest first.2).1, (schema.prepared rest first.2).2) := by
  show (Action.bind _ _).run world = _
  rw [Action.run_bind]
  show (Action.bind _ _).run _ = _
  rw [Action.run_bind]
  rfl

theorem length_prepared (schema : Schema σ) (requests : List Request) :
    ∀ world, (schema.prepared requests world).1.length = requests.length := by
  induction requests with
  | nil => exact fun _ => rfl
  | cons request rest ih =>
      intro world
      rw [prepareAll_run]
      exact congrArg Nat.succ (ih _)

/-- A job is prepared from the request in its place. -/
theorem job_of_prepared {schema : Schema σ} {job : Job σ} {requests : List Request} :
    ∀ {i : Nat} {world : World σ}, (schema.prepared requests world).1[i]? = some (.ok job) →
      ∃ request, requests[i]? = some request ∧ job.Of schema request := by
  induction requests with
  | nil =>
      intro i world found
      cases found
  | cons request rest ih =>
      intro i world found
      rw [prepareAll_run] at found
      cases i with
      | zero =>
          have of := (schema.prepare_always request).run world
          injection found with found
          exact ⟨request, rfl, of job found⟩
      | succ i => exact ih found

end Schema

/-! ### Places -/

/-- The place among runs of a prepared request. -/
def turnOf (prepared : List (Except RequestError (Job σ))) (i : Nat) : Nat :=
  (readyJobs (prepared.take i)).length

theorem readyJobs_turnOf {job : Job σ} :
    ∀ {prepared : List (Except RequestError (Job σ))} {i : Nat},
      prepared[i]? = some (.ok job) → (readyJobs prepared)[turnOf prepared i]? = some job := by
  intro prepared
  induction prepared with
  | nil =>
      intro i found
      cases found
  | cons first rest ih =>
      intro i found
      cases i with
      | zero =>
          injection found with found
          subst found
          rfl
      | succ i =>
          cases first with
          | error error => exact ih (i := i) found
          | ok other => exact ih (i := i) found

/-- Every response is that of a request that could not be prepared, or of the run in its place. -/
theorem collectResponses_eq {responses : List Response} :
    ∀ {prepared : List (Except RequestError (Job σ))} {runs : List Response},
      collectResponses prepared runs = .ok responses →
      responses.length = prepared.length ∧ ∀ i,
        (∀ error, prepared[i]? = some (.error error) →
          responses[i]? = some (.ofRequestError error)) ∧
        ∀ job, prepared[i]? = some (.ok job) →
          ∃ response, responses[i]? = some response ∧ runs[turnOf prepared i]? = some response := by
  intro prepared
  induction prepared generalizing responses with
  | nil =>
      intro runs h
      injection h with h
      subst h
      exact ⟨rfl, fun i => ⟨fun _ found => (by cases found), fun _ found => (by cases found)⟩⟩
  | cons first rest ih =>
      intro runs h
      cases first with
      -- A refused request takes its own place and leaves the runs to the others.
      | error error =>
          obtain ⟨others, collected, h⟩ := Except.bind_eq_ok.mp h
          injection h with h
          subst h
          obtain ⟨length, each⟩ := ih collected
          refine ⟨congrArg Nat.succ length, fun i => ?_⟩
          cases i with
          | zero =>
              refine ⟨fun _ found => ?_, fun _ found => (by cases found)⟩
              injection found with found
              injection found with found
              exact found ▸ rfl
          | succ i => exact each i
      | ok job =>
          cases runs with
          | nil => cases h
          | cons response runs =>
              obtain ⟨others, collected, h⟩ := Except.bind_eq_ok.mp h
              injection h with h
              subst h
              obtain ⟨length, each⟩ := ih collected
              refine ⟨congrArg Nat.succ length, fun i => ?_⟩
              cases i with
              | zero => exact ⟨fun _ found => (by cases found), fun _ _ => ⟨response, rfl, rfl⟩⟩
              | succ i => exact each i

/-- Nothing is lacking if there is a response for every run. -/
theorem collectResponses_ok {prepared : List (Except RequestError (Job σ))} :
    ∀ {responses : List Response}, (readyJobs prepared).length ≤ responses.length →
      ∃ collected, collectResponses prepared responses = .ok collected := by
  induction prepared with
  | nil => exact fun _ => ⟨[], rfl⟩
  | cons first rest ih =>
      intro responses enough
      cases first with
      | error error =>
          obtain ⟨others, collected⟩ := ih (show _ ≤ responses.length from enough)
          refine ⟨.ofRequestError error :: others, ?_⟩
          rw [collectResponses, collected]
          rfl
      | ok job =>
          cases responses with
          | nil => exact absurd enough (Nat.not_succ_le_zero _)
          | cons response responses =>
              obtain ⟨others, collected⟩ := ih (Nat.le_of_succ_le_succ enough)
              refine ⟨response :: others, ?_⟩
              rw [collectResponses, collected]
              rfl

/-- A job begins unless it has no root type. -/
theorem Job.start_eq {job : Job σ} {entry : Job σ × Run σ} (begun : job.start = .ok entry) :
    ∃ type, job.schema.rootType? job.operation.kind = some type ∧
      entry = (job, Run.start job type) := by
  unfold Job.start at begun
  split at begun
  · rename_i type known
    injection begun with begun
    exact ⟨type, known, begun.symm⟩
  · cases begun

namespace Schema

variable {schema : Schema σ}

/-- The jobs among prepared requests have been made from one of these each. -/
theorem job_of_readyJobs {requests : List Request} {world : World σ} {job : Job σ}
    (ready : job ∈ readyJobs (schema.prepared requests world).1) :
    ∃ request ∈ requests, job.Of schema request := by
  obtain ⟨result, mem, made⟩ := List.mem_filterMap.mp ready
  cases result with
  | error error => cases made
  | ok other =>
      injection made with made
      subst made
      obtain ⟨i, bound, here⟩ := List.getElem_of_mem mem
      obtain ⟨request, found, of_request⟩ :=
        job_of_prepared (List.getElem?_eq_some_iff.mpr ⟨bound, here⟩)
      exact ⟨request, List.mem_of_getElem? found, of_request⟩

/-- Every job that is made ready begins. -/
theorem starts_of_prepared (schema : Schema σ) (requests : List Request) (world : World σ) :
    ∃ runs, (readyJobs (schema.prepared requests world).1).mapM Job.start = .ok runs := by
  refine mapM_ok fun job ready => ?_
  obtain ⟨request, -, of_request⟩ := job_of_readyJobs ready
  obtain ⟨type, known⟩ := Option.isSome_iff_exists.mp of_request.known
  rw [← of_request.same] at known
  refine ⟨(job, .start job type), ?_⟩
  unfold Job.start
  rw [known]

end Schema

/-- Jobs begin in their places, unless one has no root type. -/
theorem mapM_start {jobs : List (Job σ)} {runs : List (Job σ × Run σ)}
    (begun : jobs.mapM Job.start = .ok runs) {k : Nat} {job : Job σ}
    (found : jobs[k]? = some job) :
    ∃ type, job.schema.rootType? job.operation.kind = some type ∧
      runs[k]? = some (job, Run.start job type) := by
  have each := forall₂_of_mapM begun
  obtain ⟨bound, here⟩ := List.getElem?_eq_some_iff.mp found
  have bound' : k < runs.length := each.length_eq ▸ bound
  have start := each.get bound bound'
  obtain ⟨type, known, same⟩ := Job.start_eq start
  have same_job : jobs.get ⟨k, bound⟩ = job := here
  rw [same_job] at same known
  exact ⟨type, known, List.getElem?_eq_some_iff.mpr ⟨bound', same⟩⟩

/-! ### Executions -/

namespace Schema

/-- What is seen of the run of the request in a place, in the course of an execution. -/
def Saw (schema : Schema σ) (config : Config) (requests : List Request) (world : World σ)
    (i : Nat) (job : Job σ) (sight : Sight σ) : Prop :=
  ∃ prepared begun runs, schema.prepared requests world = (prepared, begun) ∧
    (readyJobs prepared).mapM Job.start = .ok runs ∧
    (Schedule.new runs begun config.nonblocking).Saw (turnOf prepared i) job sight

/-- Requests have been executed: their jobs were run in one schedule, to its end, and the responses
of the runs put in the places of the requests. -/
structure Executes (schema : Schema σ) (config : Config) (requests : List Request)
    (world : World σ) (responses : List Response) (runs : List (Job σ × Run σ))
    (last : Schedule σ) : Prop where
  starts : (readyJobs (schema.prepared requests world).1).mapM Job.start = .ok runs
  ran : ∃ fuel, Schedule.run? fuel
    (.new runs (schema.prepared requests world).2 config.nonblocking) = some (.ok (), last)
  collected : collectResponses (schema.prepared requests world).1
    (last.runs.map fun (_, run) => run.response) = .ok responses

variable {schema : Schema σ} {config : Config} {fuel : Nat} {requests : List Request}
  {world after : World σ} {responses : List Response} {i : Nat} {response : Response} {data : Json}

theorem executes_of_executeAll?
    (executed : schema.executeAll? config fuel requests world = some (.ok responses, after)) :
    ∃ runs last, schema.Executes config requests world responses runs last := by
  unfold executeAll? at executed
  rcases prepares : schema.prepared requests world with ⟨prepared, begun⟩
  unfold Schema.prepared at prepares
  rw [prepares] at executed
  simp only at executed
  split at executed
  · cases executed
  · rename_i runs starts
    obtain ⟨⟨result, last⟩, ran, executed⟩ := Option.map_eq_some_iff.mp executed
    injection executed with collected world_eq
    cases result with
    | error error => cases collected
    | ok done =>
        refine ⟨runs, last, ?_, ⟨fuel, ?_⟩, ?_⟩
        all_goals unfold Schema.prepared
        all_goals rw [prepares]
        · exact starts
        · exact ran
        · exact collected

/-- An execution runs the jobs of its requests and collects their responses. -/
theorem run?_of_executeAll? {result : Except FatalError (List Response)}
    {runs : List (Job σ × Run σ)}
    (executed : schema.executeAll? config fuel requests world = some (result, after))
    (starts : (readyJobs (schema.prepared requests world).1).mapM Job.start = .ok runs) :
    ∃ ended last, Schedule.run? fuel
        (.new runs (schema.prepared requests world).2 config.nonblocking) = some (ended, last) ∧
      result = ended.bind fun _ => collectResponses (schema.prepared requests world).1
        (last.runs.map fun (_, run) => run.response) := by
  unfold executeAll? at executed
  rcases prepares : schema.prepared requests world with ⟨prepared, begun⟩
  rw [prepares] at starts
  unfold Schema.prepared at prepares
  rw [prepares] at executed
  simp only [starts] at executed
  obtain ⟨⟨ended, last⟩, ran, executed⟩ := Option.map_eq_some_iff.mp executed
  injection executed with collected
  exact ⟨ended, last, ran, collected.symm⟩

/-- The execution of one request is one of a list of requests. -/
theorem executeAll?_of_execute? {request : Request} {answer : Except FatalError Response}
    (executed : schema.execute? config fuel request world = some (answer, after)) :
    ∃ result, schema.executeAll? config fuel [request] world = some (result, after) ∧
      (∀ error, result = .error error → answer = .error error) ∧
      ∀ response, result = .ok [response] → answer = .ok response := by
  unfold execute? at executed
  obtain ⟨⟨result, ended⟩, all, executed⟩ := Option.map_eq_some_iff.mp executed
  injection executed with same same'
  subst same'
  refine ⟨result, all, fun error failed => ?_, fun response answered => ?_⟩
  · rw [← same, failed]
    rfl
  · rw [← same, answered]
    rfl

/-- A response with data is that of a run that has made its moves to its end. -/
theorem Executes.path {runs : List (Job σ × Run σ)} {last : Schedule σ}
    (executes : schema.Executes config requests world responses runs last)
    (answered : responses[i]? = some response) (shows : response.data? = some data) :
    ∃ job type weave, (schema.prepared requests world).1[i]? = some (.ok job) ∧
      job.schema.rootType? job.operation.kind = some type ∧
      Weave.Path job
        ((Schedule.new runs (schema.prepared requests world).2 config.nonblocking).Saw
          (turnOf (schema.prepared requests world).1 i) job)
        (.start job type (schema.prepared requests world).2) weave ∧
      weave.Finished ∧ response = weave.run.response := by
  obtain ⟨length, each⟩ := collectResponses_eq executes.collected
  have bound : i < (schema.prepared requests world).1.length := by
    rw [← length]
    exact (List.getElem?_eq_some_iff.mp answered).1
  obtain ⟨refused, run⟩ := each i
  have place := List.getElem?_eq_getElem bound
  -- The response has data, so it is not that of a refused request but that of the run in its turn.
  cases request : (schema.prepared requests world).1[i] with
  | error error =>
      rw [request] at place
      rw [refused error place] at answered
      injection answered with answered
      subst answered
      cases shows
  | ok job =>
      rw [request] at place
      obtain ⟨response', same, of_run⟩ := run job place
      rw [answered] at same
      injection same with same
      subst same
      obtain ⟨type, known, starts_here⟩ := mapM_start executes.starts (readyJobs_turnOf place)
      obtain ⟨fuel, ran⟩ := executes.ran
      obtain ⟨weave, path, finished, ended⟩ := Schedule.path_of_run? ran starts_here
      rw [List.getElem?_map, ended] at of_run
      injection of_run with of_run
      exact ⟨job, type, weave, place, known, path, finished, of_run.symm⟩

/-- A response with data is that of a run that has made its moves to its end. -/
theorem path_of_executeAll?
    (executed : schema.executeAll? config fuel requests world = some (.ok responses, after))
    (answered : responses[i]? = some response) (shows : response.data? = some data) :
    ∃ job type begun weave, (schema.prepared requests world).1[i]? = some (.ok job) ∧
      job.schema.rootType? job.operation.kind = some type ∧
      Weave.Path job (schema.Saw config requests world i job) (.start job type begun) weave ∧
      weave.Finished ∧ response = weave.run.response := by
  obtain ⟨runs, last, executes⟩ := executes_of_executeAll? executed
  obtain ⟨job, type, weave, place, known, path, finished, same⟩ := executes.path answered shows
  exact ⟨job, type, _, weave, place, known,
    path.mono fun sight saw => ⟨_, _, runs, rfl, executes.starts, saw⟩, finished, same⟩

end Schema

/-- The data that a schema in the making answers to one request, in so many turns. -/
def SchemaBuilder.shows? (builder : SchemaBuilder σ) (fuel : Nat) (request : Request)
    (world : World σ) : Option Json :=
  match builder.finish with
  | .ok schema =>
    match schema.executeAll? {} fuel [request] world with
    | some (.ok [response], _) => response.data?
    | _ => none
  | .error _ => none

/-- What it answers is what an execution under the schema answers. -/
theorem SchemaBuilder.executed_of_shows? {builder : SchemaBuilder σ} {fuel : Nat}
    {request : Request} {world : World σ} {data : Json}
    (shows : builder.shows? fuel request world = some data) :
    ∃ schema errors after, builder.finish = .ok schema ∧
      schema.executeAll? {} fuel [request] world = some (.ok [⟨some data, errors⟩], after) := by
  unfold SchemaBuilder.shows? at shows
  split at shows
  · rename_i schema finish
    split at shows
    · rename_i response after executed
      obtain ⟨data?, errors⟩ := response
      subst shows
      exact ⟨schema, errors, after, finish, executed⟩
    · cases shows
  · cases shows

/-- The response of a schema in the making to one request, in so many turns. -/
def SchemaBuilder.responds? (builder : SchemaBuilder σ) (fuel : Nat) (request : Request)
    (world : World σ) : Option Response :=
  match builder.finish with
  | .ok schema =>
    match schema.executeAll? {} fuel [request] world with
    | some (.ok [response], _) => some response
    | _ => none
  | .error _ => none

/-- What it responds is what an execution under the schema answers. -/
theorem SchemaBuilder.executed_of_responds? {builder : SchemaBuilder σ} {fuel : Nat}
    {request : Request} {world : World σ} {response : Response}
    (responds : builder.responds? fuel request world = some response) :
    ∃ schema after, builder.finish = .ok schema ∧
      schema.executeAll? {} fuel [request] world = some (.ok [response], after) := by
  unfold SchemaBuilder.responds? at responds
  split at responds
  · rename_i schema finish
    split at responds
    · rename_i answer after executed
      obtain rfl := Option.some.inj responds
      exact ⟨schema, after, finish, executed⟩
    · cases responds
  · cases responds

end GraphExec
