import GraphExec.Proofs.Execution
import GraphExec.Proofs.Run.Loads

/-!
# How an execution begins

Requests are prepared, and the schedule of their runs begins in the world that this leaves. From
then on each run has its share in whatever the schedule goes through.
-/

namespace GraphExec

variable {σ : Type}

namespace Schedule

/-- What becomes of a schedule in some number of transitions, if it goes on for as long. -/
def goesOn? : Nat → Schedule σ → Option (Schedule σ)
  | 0, schedule => some schedule
  | n + 1, schedule =>
    match schedule.step with
    | .again next => goesOn? n next
    | _ => none

theorem visits_of_goesOn? : ∀ {n : Nat} {first middle last : Schedule σ}, first.Visits middle →
    goesOn? n middle = some last → first.Visits last := by
  intro n
  induction n with
  | zero =>
      intro first middle last visits gone
      injection gone with gone
      exact gone ▸ visits
  | succ n ih =>
      intro first middle last visits gone
      unfold goesOn? at gone
      split at gone
      · rename_i next turn
        exact ih (visits.step turn) gone
      · cases gone

end Schedule

/-- The runs of jobs have no arguments when they have not been begun. -/
theorem arguments_of_start {jobs : List (Job σ)} {runs : List (Job σ × Run σ)}
    (begun : jobs.mapM Job.start = .ok runs) : ∀ entry ∈ runs, entry.2.arguments = [] := by
  have each := forall₂_of_mapM begun
  intro entry mem
  obtain ⟨k, bound, rfl⟩ := List.getElem_of_mem mem
  obtain ⟨type, -, start⟩ := Job.start_eq (each.get (each.length_eq ▸ bound) bound)
  have same : (runs[k]).2 = Run.start _ type := congrArg Prod.snd start
  rw [same]
  unfold Run.start
  split
  rfl

namespace Schema

/-- The schedule that an execution of requests begins with. -/
def Begins (schema : Schema σ) (config : Config) (requests : List Request) (world : World σ)
    (first : Schedule σ) : Prop :=
  ∃ runs, (readyJobs (schema.prepared requests world).1).mapM Job.start = .ok runs ∧
    first = .new runs (schema.prepared requests world).2 config.nonblocking

variable {schema : Schema σ} {config : Config} {requests : List Request} {app : σ}
  {observe : Event → σ → σ} {first : Schedule σ}

/-- Nothing is held of a source when an execution begins, and what the preparation of the requests
enters into its ledger accounts for what is known. -/
theorem Begins.accounts (begins : schema.Begins config requests ⟨app, observe, []⟩ first)
    (watched : SourceId) :
    first.Quiet ∧ Schedule.Accounts watched .blank
      ((schema.prepareAll requests).ledger watched ⟨app, observe, []⟩) first := by
  obtain ⟨runs, begun, rfl⟩ := begins
  let fresh : World σ := ⟨app, observe, []⟩
  have quiet := Schedule.quiet_new (schema.prepared requests fresh).2 config.nonblocking
    (arguments_of_start begun)
  have works : World.Works watched fresh _ (schema.prepared requests fresh).2 :=
    (World.Works.idle fresh).run (schema.prepareAll requests)
  have none_known : fresh.Recorded watched [] := fun state found => absurd found nofun
  refine ⟨quiet, ?_, works.kept none_known⟩
  rw [quiet.holds_draining rfl watched]
  exact works.tallied ⟨rfl, rfl⟩

/-- A job begins with the world in which the preparation of the requests ends. -/
theorem Begins.shares_start {owner : Nat} {job : Job σ} {world : World σ}
    (begins : schema.Begins config requests world first)
    (place : (readyJobs (schema.prepared requests world).1)[owner]? = some job) :
    ∃ type, job.schema.rootType? job.operation.kind = some type ∧
      first.Shares owner job (.start job type (schema.prepared requests world).2) := by
  obtain ⟨runs, begun, rfl⟩ := begins
  obtain ⟨type, known, top⟩ := mapM_start begun place
  exact ⟨type, known, Schedule.shares_new _ config.nonblocking top⟩

/-- A job has its share in all that an execution goes through, from where its preparation ends. -/
theorem Begins.path_by {owner : Nat} {job : Job σ} {world : World σ} {now : Schedule σ}
    (begins : schema.Begins config requests world first)
    (place : (readyJobs (schema.prepared requests world).1)[owner]? = some job)
    (visits : first.Visits now) :
    ∃ type weave, job.schema.rootType? job.operation.kind = some type ∧
      Weave.Path job (first.SawBy now owner job)
        (.start job type (schema.prepared requests world).2) weave ∧
      now.Shares owner job weave := by
  obtain ⟨type, known, shares⟩ := begins.shares_start place
  obtain ⟨weave, path, shares⟩ := visits.shares_by shares
  exact ⟨type, weave, known, path, shares⟩

theorem Begins.path {owner : Nat} {job : Job σ} {world : World σ} {now : Schedule σ}
    (begins : schema.Begins config requests world first)
    (place : (readyJobs (schema.prepared requests world).1)[owner]? = some job)
    (visits : first.Visits now) :
    ∃ type weave, job.schema.rootType? job.operation.kind = some type ∧
      Weave.Path job (first.Saw owner job)
        (.start job type (schema.prepared requests world).2) weave ∧
      now.Shares owner job weave := by
  obtain ⟨type, weave, known, path, shares⟩ := begins.path_by place visits
  exact ⟨type, weave, known, path.mono fun _ saw => saw.saw, shares⟩

theorem Begins.shares {owner : Nat} {job : Job σ} {world : World σ} {now : Schedule σ}
    (begins : schema.Begins config requests world first)
    (place : (readyJobs (schema.prepared requests world).1)[owner]? = some job)
    (visits : first.Visits now) : ∃ type begun weave,
      Weave.Path job (first.Saw owner job) (.start job type begun) weave ∧
        now.Shares owner job weave := by
  obtain ⟨type, weave, -, path, shares⟩ := begins.path place visits
  exact ⟨type, _, weave, path, shares⟩

/-- Every run that an execution goes on with is that of a job, and has its share. -/
theorem Begins.job {owner : Nat} {job : Job σ} {run : Run σ} {world : World σ} {now : Schedule σ}
    (begins : schema.Begins config requests world first) (visits : first.Visits now)
    (here : now.runs[owner]? = some (job, run)) :
    (readyJobs (schema.prepared requests world).1)[owner]? = some job ∧
      ∃ weave, now.Shares owner job weave ∧ weave.run = run := by
  obtain ⟨runs, begun, same⟩ := begins
  have each := forall₂_of_mapM begun
  have bound : owner < (readyJobs (schema.prepared requests world).1).length := by
    rw [each.length_eq, show runs = first.runs by rw [same]; rfl, ← visits.length]
    exact (List.getElem?_eq_some_iff.mp here).1
  have place := List.getElem?_eq_getElem bound
  obtain ⟨-, -, weave, -, shares⟩ := Begins.shares ⟨runs, begun, same⟩ place visits
  obtain ⟨rfl, rfl⟩ := shares.same_run here
  exact ⟨place, weave, shares, rfl⟩

end Schema

/-- Whether requests to a schema that is built begin a schedule of which, in some number of
transitions, something holds. -/
def SchemaBuilder.comesTo (builder : SchemaBuilder σ) (config : Config) (requests : List Request)
    (world : World σ) (transitions : Nat) (holds : Schedule σ → Bool) : Bool :=
  match builder.finish with
  | .ok schema =>
    match (readyJobs (schema.prepared requests world).1).mapM Job.start with
    | .ok runs =>
      match Schedule.goesOn? transitions
        (.new runs (schema.prepared requests world).2 config.nonblocking) with
      | some now => holds now
      | none => false
    | .error _ => false
  | .error _ => false

theorem SchemaBuilder.visits_of_comesTo {builder : SchemaBuilder σ} {config : Config}
    {requests : List Request} {world : World σ} {transitions : Nat} {holds : Schedule σ → Bool}
    (comes : builder.comesTo config requests world transitions holds = true) :
    ∃ schema first now, builder.finish = .ok schema ∧
      schema.Begins config requests world first ∧ first.Visits now ∧ holds now = true := by
  unfold comesTo at comes
  split at comes
  · rename_i schema finish
    split at comes
    · rename_i runs begun
      split at comes
      · rename_i now gone
        exact ⟨schema, _, now, finish, ⟨runs, begun, rfl⟩, Schedule.visits_of_goesOn? .start gone,
          comes⟩
      · cases comes
    · cases comes
  · cases comes

/-- What holds of a schedule that has made no transition holds of one that requests begin. -/
theorem SchemaBuilder.begins_of_comesTo {builder : SchemaBuilder σ} {config : Config}
    {requests : List Request} {world : World σ} {holds : Schedule σ → Bool}
    (comes : builder.comesTo config requests world 0 holds = true) :
    ∃ schema first, builder.finish = .ok schema ∧
      schema.Begins config requests world first ∧ holds first = true := by
  unfold comesTo at comes
  split at comes
  · rename_i schema finish
    split at comes
    · rename_i runs begun
      exact ⟨schema, _, finish, ⟨runs, begun, rfl⟩, comes⟩
    · cases comes
  · cases comes

end GraphExec
