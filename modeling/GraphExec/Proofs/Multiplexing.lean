import Mathlib
import GraphExec.Proofs.Evaluation
import GraphExec.Proofs.Pure.Mirrors

/-!
# Requests that are executed together

Requests to pure application code share what they load and take turns. Each is answered as if it
were executed alone, whatever the others do.
-/

namespace GraphExec

variable {σ : Type}

namespace Schema

variable {schema : Schema σ} {loads : Loads} {request : Request} {requests : List Request}
  {job : Job σ} {answer : Except FatalError Response} {config : Config} {fuel : Nat}
  {world after : World σ} {responses : List Response} {result : Except FatalError (List Response)}

/-- Executing a request alone comes to an end, in some setting and surroundings, with an answer. -/
def Alone (schema : Schema σ) (loads : Loads) (request : Request)
    (answer : Except FatalError Response) : Prop :=
  ∃ config fuel world after, world.Keywise loads ∧
    schema.execute? config fuel request world = some (answer, after)

/-- A request cannot be prepared, in some surroundings. -/
def Refuses (schema : Schema σ) (loads : Loads) (request : Request) (error : RequestError) : Prop :=
  ∃ world : World σ, world.Keywise loads ∧
    ((schema.prepare request).run.run world).1 = .error error

/-! ### Executions of one request -/

theorem Pure.refuses (pure : schema.Pure loads) {error : RequestError}
    (refuses : schema.Refuses loads request error) :
    schema.Prepares loads request (.error error) := by
  obtain ⟨world, keywise, refused⟩ := refuses
  obtain ⟨outcome, prepares⟩ := pure.prepares request
  obtain rfl : outcome = .error error := (prepares world keywise).symm.trans refused
  exact prepares

/-- A request that cannot be prepared is answered with the error, and nothing is run. -/
theorem Alone.of_refusal (alone : schema.Alone loads request answer) {error : RequestError}
    (prepares : schema.Prepares loads request (.error error)) :
    answer = .ok (.ofRequestError error) := by
  obtain ⟨config, fuel, world, after, keywise, executed⟩ := alone
  obtain ⟨result, all, -, answered⟩ := executeAll?_of_execute? executed
  apply answered
  have prepared : (schema.prepared [request] world).1 = [.error error] := by
    rw [prepareAll_run]
    exact congrArg (· :: []) (prepares world keywise)
  have starts : (readyJobs (schema.prepared [request] world).1).mapM Job.start = .ok [] := by
    rw [prepared]
    rfl
  obtain ⟨ended, last, ran, rfl⟩ := run?_of_executeAll? all starts
  have done : (Schedule.new [] (schema.prepared [request] world).2 config.nonblocking).step =
      .finished _ := Schedule.step_done rfl rfl rfl
  obtain ⟨rfl, -⟩ := Prod.mk.inj ((Schedule.Visits.start.run?_eq ran).1 done)
  rw [prepared]
  rfl

/-- A request that is prepared is answered what its run comes to in a schedule of its own. -/
theorem Alone.of_job (alone : schema.Alone loads request answer) (pure : schema.Pure loads)
    (named : SchemaBuilder.Named schema.types) (prepares : schema.Prepares loads request (.ok job))
    {type : ObjectType σ} (known : job.schema.rootType? job.operation.kind = some type) :
    ∃ world nonblocking fuel ended last,
      (Schedule.new [(job, .start job type)] world nonblocking).Pure loads ∧
      Schedule.run? fuel (.new [(job, .start job type)] world nonblocking) = some (ended, last) ∧
      (∀ error, ended = .error error → answer = .error error) ∧
      ∀ run, ended = .ok () → last.runs = [(job, run)] → answer = .ok run.response := by
  obtain ⟨config, fuel, world, after, keywise, executed⟩ := alone
  obtain ⟨result, all, failed, answered⟩ := executeAll?_of_execute? executed
  have prepared : (schema.prepared [request] world).1 = [.ok job] := by
    rw [prepareAll_run]
    exact congrArg (· :: []) (prepares world keywise)
  have starts : (readyJobs (schema.prepared [request] world).1).mapM Job.start =
      .ok [(job, .start job type)] := by
    have begins : job.start = .ok (job, .start job type) := by
      unfold Job.start
      rw [known]
    rw [prepared]
    show List.mapM Job.start [job] = _
    rw [List.mapM_cons, begins]
    rfl
  obtain ⟨ended, last, ran, rfl⟩ := run?_of_executeAll? all starts
  refine ⟨_, _, fuel, ended, last, pure.schedule named keywise starts config.nonblocking, ran,
    fun error same => ?_, fun run same runs => ?_⟩
  · apply failed
    rw [same]
    rfl
  · apply answered
    rw [same, prepared, runs]
    rfl

/-! ### Executions of several requests -/

/-- A run that is begun is that of a request that is prepared. -/
theorem Pure.run_of (pure : schema.Pure loads) (keywise : world.Keywise loads)
    {runs : List (Job σ × Run σ)} {run : Run σ} {owner : Nat}
    (starts : (readyJobs (schema.prepared requests world).1).mapM Job.start = .ok runs)
    (here : runs[owner]? = some (job, run)) :
    ∃ type, job.schema.rootType? job.operation.kind = some type ∧ run = .start job type ∧
      ∃ request ∈ requests, schema.Prepares loads request (.ok job) := by
  have each := forall₂_of_mapM starts
  obtain ⟨bound, same⟩ := List.getElem?_eq_some_iff.mp here
  have bound' : owner < (readyJobs (schema.prepared requests world).1).length :=
    each.length_eq ▸ bound
  obtain ⟨type, known, entry⟩ := Job.start_eq (each.get bound' bound)
  obtain ⟨rfl, rfl⟩ := Prod.mk.inj (same.symm.trans entry)
  refine ⟨type, known, rfl, ?_⟩
  obtain ⟨outcome, mem, made⟩ := List.mem_filterMap.mp (List.getElem_mem bound')
  obtain ⟨place, bound, rfl⟩ := List.getElem_of_mem mem
  have prepares := pure.prepared_each requests keywise
  have bound' : place < requests.length := prepares.length_eq ▸ bound
  refine ⟨requests[place], List.getElem_mem bound', ?_⟩
  have prepares := prepares.get bound' bound
  cases outcome : (schema.prepared requests world).1[place] with
  | error error =>
      rw [outcome] at made
      cases made
  | ok other =>
      rw [outcome] at made
      obtain rfl := Option.some.inj made
      exact outcome ▸ prepares

/-- When the runs of requests have ended, each request has a response. -/
theorem executeAll?_of_run? {runs : List (Job σ × Run σ)} {last : Schedule σ}
    (starts : (readyJobs (schema.prepared requests world).1).mapM Job.start = .ok runs)
    (ran : Schedule.run? fuel (.new runs (schema.prepared requests world).2 config.nonblocking) =
      some (.ok (), last)) :
    ∃ responses, collectResponses (schema.prepared requests world).1
        (last.runs.map fun (_, run) => run.response) = .ok responses ∧
      schema.executeAll? config fuel requests world = some (.ok responses, last.world) := by
  obtain ⟨many, visits, ⟨-, turn⟩ | ⟨error, wrong, -⟩⟩ := Schedule.visits_of_run? ran
  swap
  · cases wrong
  obtain ⟨rfl, -⟩ := Schedule.step_finished turn
  have enough : (readyJobs (schema.prepared requests world).1).length ≤
      (last.runs.map fun (_, run) => run.response).length := by
    rw [List.length_map, visits.length, (forall₂_of_mapM starts).length_eq]
    exact le_rfl
  obtain ⟨responses, collected⟩ := collectResponses_ok enough
  refine ⟨responses, collected, ?_⟩
  unfold executeAll?
  rcases prepares : schema.prepared requests world with ⟨prepared, begun⟩
  rw [prepares] at starts ran collected
  unfold Schema.prepared at prepares
  rw [prepares]
  simp only [starts, ran, Option.map_some]
  rw [show (Except.ok () : Except FatalError Unit).bind
    (fun _ => collectResponses prepared (last.runs.map fun (_, run) => run.response)) =
      .ok responses from collected]

/-- When requests that are executed together end with a fatal error, one of them does so alone. -/
theorem Pure.fails_alone (pure : schema.Pure loads) (named : SchemaBuilder.Named schema.types)
    (keywise : world.Keywise loads)
    (together : schema.executeAll? config fuel requests world = some (result, after))
    (failed : ∀ responses, result ≠ .ok responses) :
    ∃ error, result = .error error ∧
      ∃ request ∈ requests, ∀ answer,
        schema.Alone loads request answer → answer = .error error := by
  obtain ⟨runs, starts⟩ := starts_of_prepared schema requests world
  obtain ⟨ended, last, ran, rfl⟩ := run?_of_executeAll? together starts
  have scheduled := pure.schedule named keywise starts config.nonblocking
  cases ended with
  | ok done =>
      obtain ⟨responses, collected, -⟩ := executeAll?_of_run? starts ran
      exact absurd collected (failed responses)
  | error error =>
      refine ⟨error, rfl, ?_⟩
      obtain ⟨owner, job, run, here, fails⟩ := Schedule.alone_of_error scheduled ran
      obtain ⟨type, known, rfl, request, mem, prepares⟩ := pure.run_of keywise starts here
      refine ⟨request, mem, fun answer alone => ?_⟩
      obtain ⟨world', nonblocking, fuel', ended, last', alone_pure, ends, failed, -⟩ :=
        alone.of_job pure named prepares known
      exact failed error (fails world' nonblocking fuel' ended last' alone_pure ends)

/-- Requests that are answered together are answered the same alone. -/
theorem Pure.answers_alone (pure : schema.Pure loads) (named : SchemaBuilder.Named schema.types)
    (keywise : world.Keywise loads)
    (together : schema.executeAll? config fuel requests world = some (.ok responses, after)) :
    List.Forall₂ (fun request response =>
      ∀ answer, schema.Alone loads request answer → answer = .ok response) requests responses := by
  obtain ⟨runs, last, executes⟩ := executes_of_executeAll? together
  obtain ⟨fuel, ran⟩ := executes.ran
  have scheduled := pure.schedule named keywise executes.starts config.nonblocking
  have each := pure.prepared_each requests keywise
  obtain ⟨length, places⟩ := collectResponses_eq executes.collected
  refine List.forall₂_iff_get.mpr ⟨each.length_eq.trans length.symm, fun i bound bound' => ?_⟩
  intro answer alone
  have bound₁ : i < (schema.prepared requests world).1.length := length ▸ bound'
  have prepares := each.get bound bound₁
  obtain ⟨refused, run⟩ := places i
  have answered : responses[i]? = some (responses.get ⟨i, bound'⟩) :=
    List.getElem?_eq_some_iff.mpr ⟨bound', rfl⟩
  have place := List.getElem?_eq_getElem bound₁
  -- A request that cannot be prepared is refused in the same way alone; a job has a run of its own,
  -- which goes with pure application code as it goes alone.
  cases outcome : (schema.prepared requests world).1[i] with
  | error error =>
      rw [outcome] at place
      have same := Option.some.inj (answered.symm.trans (refused error place))
      rw [same]
      exact alone.of_refusal (outcome ▸ prepares)
  | ok job =>
      rw [outcome] at place
      obtain ⟨response, same, of_run⟩ := run job place
      obtain rfl := Option.some.inj (answered.symm.trans same)
      obtain ⟨type, known, here⟩ := mapM_start executes.starts (readyJobs_turnOf place)
      obtain ⟨world', nonblocking, fuel', ended, last', alone_pure, ends, -, shown⟩ :=
        alone.of_job pure named (outcome ▸ prepares) known
      obtain ⟨rfl, done, done', there, single, response_eq⟩ :=
        Schedule.alone_of_ok scheduled ran here alone_pure ends
      rw [List.getElem?_map, there] at of_run
      rw [shown done' rfl single, ← response_eq]
      exact congrArg Except.ok (Option.some.inj of_run)

/-- Requests to pure application code that end when they are executed alone, and that end together,
are answered together if and only if each is answered alone. There is one response to each, in
order, and it is the response to the request alone, in any setting and surroundings. A request that
cannot be prepared is answered without data and with the one error. -/
theorem multiplexed_as_alone (finished : schema.Finished) (pure : schema.Pure loads)
    (keywise : world.Keywise loads)
    (together : schema.executeAll? config fuel requests world = some (result, after))
    (terminates : ∀ request ∈ requests, ∃ answer, schema.Alone loads request answer) :
    ((∃ responses, result = .ok responses) ↔
      ∀ request ∈ requests, ∃ response, schema.Alone loads request (.ok response)) ∧
    ∀ responses, result = .ok responses → List.Forall₂ (fun request response =>
      (∀ answer, schema.Alone loads request answer → answer = .ok response) ∧
      ∀ error, schema.Refuses loads request error → response.data? = none ∧
        response.errors = [{ message := error.message, locations := error.locations }])
      requests responses := by
  have named := finished.named
  refine ⟨⟨?_, fun answered => ?_⟩, ?_⟩
  · rintro ⟨responses, rfl⟩ request mem
    obtain ⟨answer, alone⟩ := terminates request mem
    have each := pure.answers_alone named keywise together
    obtain ⟨i, bound, rfl⟩ := List.getElem_of_mem mem
    obtain rfl := each.get bound (each.length_eq ▸ bound) answer alone
    exact ⟨_, alone⟩
  -- Together they end with a fatal error only if one of them does alone.
  · by_contra failed
    push Not at failed
    obtain ⟨error, -, request, mem, fails⟩ := pure.fails_alone named keywise together failed
    obtain ⟨response, alone⟩ := answered request mem
    cases fails _ alone
  · rintro responses rfl
    have each := pure.answers_alone named keywise together
    refine List.forall₂_iff_get.mpr ⟨each.length_eq, fun i bound bound' => ?_⟩
    have same := each.get bound bound'
    refine ⟨same, fun error refuses => ?_⟩
    obtain ⟨answer, alone⟩ := terminates _ (List.get_mem requests ⟨i, bound⟩)
    have refused := alone.of_refusal (pure.refuses refuses)
    obtain rfl := same answer alone
    rw [Except.ok.inj refused]
    exact ⟨rfl, rfl⟩

/-- A type with fields that are loaded. -/
def loadedType (name : String) (fields : List String) : ObjectType Unit where
  name
  fields := fields.map fun field =>
    (field,
      { name := field
        type := .named "String"
        resolve? := some fun _ => pure { result := .ok loadedName } })

def signing : SchemaBuilder Unit :=
  ({ SchemaBuilder.new "Query" with mutationType? := some "Mutation" }.register
    (.object (loadedType "Query" ["name"]))).register
    (.object (loadedType "Mutation" ["sign", "seal"]))

/-- A request for fields, each at an offset. -/
def fieldRequest (kind : OperationKind) (fields : List (String × Nat)) : Request :=
  { document :=
      { operations := .single
          { name? := none
            kind
            definitions := []
            selections := fields.map fun (name, offset) =>
              .field ⟨none, name, [], [], [], ⟨1, offset + 1⟩, offset⟩
            location := ⟨1, 1⟩ }
        fragments := [] } }

/-- The requests `{ name }`, `mutation { sign seal }`, and for an operation that is not there. -/
def signingRequests : List Request :=
  [fieldRequest .query [("name", 2)], fieldRequest .mutation [("sign", 11), ("seal", 16)],
    { fieldRequest .query [("name", 2)] with operationName? := some "Sign" }]

/-- The data of responses, as they are put in the places of the requests. -/
def dataOf : List (Except RequestError (Job σ)) → List Response → List (Option Json)
  | .error _ :: rest, responses => none :: dataOf rest responses
  | .ok _ :: rest, response :: responses => response.data? :: dataOf rest responses
  | _, _ => []

theorem dataOf_eq {prepared : List (Except RequestError (Job σ))} :
    ∀ {answers responses : List Response}, collectResponses prepared answers = .ok responses →
      responses.map (·.data?) = dataOf prepared answers := by
  induction prepared with
  | nil =>
      intro answers responses collected
      injection collected with collected
      exact collected ▸ rfl
  | cons first rest ih =>
      intro answers responses collected
      match first, answers with
      | .error error, answers =>
          obtain ⟨behind, others, collected⟩ := Except.bind_eq_ok.mp collected
          injection collected with collected
          exact collected ▸ congrArg (none :: ·) (ih others)
      | .ok job, [] => cases collected
      | .ok job, answer :: answers =>
          obtain ⟨behind, others, collected⟩ := Except.bind_eq_ok.mp collected
          injection collected with collected
          exact collected ▸ congrArg (answer.data? :: ·) (ih others)

/-- The data that a schema in the making answers to requests, in so many turns. -/
def answersTogether? (builder : SchemaBuilder σ) (config : Config) (fuel : Nat)
    (requests : List Request) (world : World σ) : Option (List (Option Json)) :=
  match builder.finish with
  | .ok schema =>
    match (readyJobs (schema.prepared requests world).1).mapM Job.start with
    | .ok runs =>
      match Schedule.run? fuel
        (.new runs (schema.prepared requests world).2 config.nonblocking) with
      | some (.ok (), last) =>
        some (dataOf (schema.prepared requests world).1
          (last.runs.map fun (_, run) => run.response))
      | _ => none
    | .error _ => none
  | .error _ => none

theorem answered_of_answersTogether? {builder : SchemaBuilder σ} {data : List (Option Json)}
    (answered : answersTogether? builder config fuel requests world = some data) :
    ∃ schema responses after, builder.finish = .ok schema ∧
      schema.executeAll? config fuel requests world = some (.ok responses, after) ∧
      responses.map (·.data?) = data := by
  unfold answersTogether? at answered
  split at answered
  · rename_i schema finish
    split at answered
    · rename_i runs starts
      split at answered
      · rename_i last ran
        obtain rfl := Option.some.inj answered
        obtain ⟨responses, collected, executed⟩ := executeAll?_of_run? starts ran
        exact ⟨schema, responses, last.world, finish, executed, dataOf_eq collected⟩
      · cases answered
    · cases answered
  · cases answered

/-- A request that is answered in a list of its own is answered alone. -/
theorem Alone.of_executeAll? (keywise : world.Keywise loads)
    (executed : schema.executeAll? config fuel [request] world = some (.ok responses, after)) :
    ∃ response, schema.Alone loads request (.ok response) := by
  obtain ⟨runs, last, executes⟩ := executes_of_executeAll? executed
  have length : responses.length = 1 := by
    rw [(collectResponses_eq executes.collected).1, length_prepared]
    rfl
  obtain ⟨response, rfl⟩ := List.length_eq_one_iff.mp length
  refine ⟨response, config, fuel, world, after, keywise, ?_⟩
  unfold execute?
  rw [executed]
  rfl


theorem loadedName_pure : loadedName.Pure fun _ key => .string key := by
  have loaded : (Lazy.load ⟨⟨0, ""⟩, mirror, "ada"⟩).Answers (fun _ key => .string key)
      (.ok (.string "ada")) := ⟨fun keys => rfl, rfl⟩
  refine .lazy (loaded.bind rfl) fun v same => ?_
  injection same with same
  exact same ▸ .value _

theorem signing_pure : signing.Pure fun _ key => .string key := by
  have fine : ∀ name fields,
      (TypeDefinition.object (loadedType name fields)).Pure fun _ key => .string key := by
    intro name fields
    refine ObjectType.Pure.mk (fun definition mem => ?_) nofun
    obtain ⟨entry, among, same⟩ := List.mem_map.mp mem
    obtain ⟨field, -, made⟩ := List.mem_map.mp among
    rw [← same, ← made]
    exact FieldDefinition.pure_constant _ _ loadedName_pure
  have new : (SchemaBuilder.new "Query" : SchemaBuilder Unit).Pure fun _ key => .string key :=
    SchemaBuilder.pure_new _
  have blank : ({ SchemaBuilder.new "Query" with mutationType? := some "Mutation" } :
      SchemaBuilder Unit).Pure fun _ key => .string key := ⟨new.types, new.directives, new.hooks⟩
  exact (blank.register (fine "Query" ["name"])).register (fine "Mutation" ["sign", "seal"])

theorem multiplexed_as_alone_signing : ∃ schema responses after, signing.finish = .ok schema ∧
    schema.executeAll? {} 100 signingRequests ⟨(), fun _ state => state, []⟩ =
      some (.ok responses, after) ∧
    responses.map (·.data?) = [some (.object [("name", .string "ada")]),
      some (.object [("sign", .string "ada"), ("seal", .string "ada")]), none] ∧
    (∀ request ∈ signingRequests, ∃ response,
      schema.Alone (fun _ key => .string key) request (.ok response)) ∧
    List.Forall₂ (fun request response =>
      ∀ answer, schema.Alone (fun _ key => .string key) request answer → answer = .ok response)
      signingRequests responses := by
  have ran : answersTogether? signing {} 100 signingRequests ⟨(), fun _ state => state, []⟩ =
      some [some (.object [("name", .string "ada")]),
        some (.object [("sign", .string "ada"), ("seal", .string "ada")]), none] := by cbv
  obtain ⟨schema, responses, after, finish, together, data⟩ := answered_of_answersTogether? ran
  have keywise : World.Keywise (fun _ key => .string key)
      (⟨(), fun _ state => state, []⟩ : World Unit) := by
    intro id state found
    cases found
  have alone : ∀ request ∈ signingRequests, ∃ response,
      schema.Alone (fun _ key => .string key) request (.ok response) := by
    have each : ∀ request ∈ signingRequests, ∃ data, answersTogether? signing
        { nonblocking := false } 100 [request] ⟨(), fun _ state => state, []⟩ = some data := by
      intro request mem
      unfold signingRequests at mem
      simp only [List.mem_cons, List.not_mem_nil, or_false] at mem
      rcases mem with rfl | rfl | rfl
      · exact ⟨[some (.object [("name", .string "ada")])], by cbv⟩
      · exact ⟨[some (.object [("sign", .string "ada"), ("seal", .string "ada")])], by cbv⟩
      · exact ⟨[none], by cbv⟩
    intro request mem
    obtain ⟨data, ran⟩ := each request mem
    obtain ⟨other, responses, after, finish', executed, -⟩ := answered_of_answersTogether? ran
    obtain rfl : other = schema := by
      rw [finish] at finish'
      exact (Except.ok.inj finish').symm
    exact Alone.of_executeAll? keywise executed
  have finished : schema.Finished :=
    ⟨signing, .register (.register (.configure (.new "Query") "Query" (some "Mutation") none {})
      _) _, finish⟩
  obtain ⟨-, same⟩ := multiplexed_as_alone finished (signing_pure.finish finish) keywise together
    fun request mem => (alone request mem).elim fun response answered => ⟨.ok response, answered⟩
  exact ⟨schema, responses, after, finish, together, data, alone,
    (same responses rfl).imp fun _ _ same => same.1⟩

end Schema

end GraphExec
