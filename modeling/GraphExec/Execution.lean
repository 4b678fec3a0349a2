import GraphExec.Environment
import GraphExec.Response
import GraphExec.Draft.Json
import GraphExec.Run.Schedule

/-!
# Execution

Several requests are executed together and share what they load. Requests that cannot be run are
answered with an error and take no part.
-/

namespace GraphExec

/-- Settings of an execution. -/
structure Config where
  /-- Whether what parked steps of one depth wait for is awaited together. -/
  nonblocking : Bool := true
  /-- Whether resolver calls are traced. -/
  fieldTracing : Bool := false
deriving DecidableEq, Repr

/-- The settings that an environment asks for. -/
def Config.ofEnvironment (env : Environment) : Except EnvError Config := do
  return { nonblocking := ← env.nonblocking, fieldTracing := ← env.fieldTracing }

variable {σ : Type}

namespace Schema

/-- Makes requests ready to be run, in order. -/
def prepareAll (schema : Schema σ) :
    List Request → Action σ (List (Except RequestError (Job σ)))
  | [] => pure []
  | request :: rest => do
    let job ← (schema.prepare request).run
    return job :: (← schema.prepareAll rest)

end Schema

/-- The run of a job that has not been begun. -/
def Job.start (job : Job σ) : Except FatalError (Job σ × Run σ) :=
  match job.schema.rootType? job.operation.kind with
  | some type => .ok (job, Run.start job type)
  | none => .error (.invariant (.noRootType job.operation.kind.keyword))

/-- The response that a run has come to. -/
def Run.response (run : Run σ) : Response :=
  ⟨some run.draft.toJson, run.errors⟩

/-- Puts the responses of runs in the places of the requests that were run. -/
def collectResponses : List (Except RequestError (Job σ)) → List Response →
    Except FatalError (List Response)
  | [], _ => .ok []
  | .error error :: rest, responses => do
    return Response.ofRequestError error :: (← collectResponses rest responses)
  | .ok _ :: rest, response :: responses => do
    return response :: (← collectResponses rest responses)
  | .ok _ :: _, [] => .error (.invariant .noRuntime)

/-- The jobs among prepared requests. -/
def readyJobs (prepared : List (Except RequestError (Job σ))) : List (Job σ) :=
  prepared.filterMap (·.toOption)

namespace Schema

/-- Executes requests together, if that takes fewer than `fuel` transitions: their responses in
order, or the fatal error that ended the runs, and what has become of the world. -/
def executeAll? (schema : Schema σ) (config : Config) (fuel : Nat) (requests : List Request)
    (world : World σ) : Option (Except FatalError (List Response) × World σ) :=
  let (prepared, world) := ((schema.prepareAll requests).run).run world
  match (readyJobs prepared).mapM Job.start with
  | .error error => some (.error error, world)
  | .ok runs =>
    (Schedule.run? fuel (Schedule.new runs world config.nonblocking)).map
      fun (result, schedule) =>
        (result.bind fun _ =>
          collectResponses prepared (schedule.runs.map fun (_, run) => run.response),
         schedule.world)

/-- Executes one request. -/
def execute? (schema : Schema σ) (config : Config) (fuel : Nat) (request : Request)
    (world : World σ) : Option (Except FatalError Response × World σ) :=
  (schema.executeAll? config fuel [request] world).map fun (result, world) =>
    (result.bind fun responses =>
      match responses.getLast? with
      | some response => .ok response
      | none => .error (.invariant .noResponse),
     world)

end Schema

end GraphExec
