import GraphExec.Run.Item
import GraphExec.Run.Object

/-!
# The schedule of runs

The runs of several requests go on together. All steps that are ready are run, run by run, until
each is finished or parked. Then the parked steps of the least depth, a bucket, are taken up: first
every key that waits is fetched, then what the steps wait for is awaited, and they are made ready
again in the order in which they were parked.

What the steps of a bucket wait for is polled one at a time, by a line of places in the bucket.
When the line is empty and some steps still wait, they line up anew: the first of them, or all. In
a large bucket a step does not wait for that: it joins the line as soon as it is due.

The root fields of a mutation are released one at a time, each when nothing else of its run is
ready or parked; what the loader has cached is forgotten before.
-/

namespace GraphExec

namespace Step

variable {σ : Type}

/-- One transition of a step. -/
def advance (step : Step σ) (job : Job σ) : Engine σ (Progress σ) :=
  match step with
  | .object step => step.advance job
  | .field step => step.advance job
  | .item step => step.advance job

/-- Hands a step what it waits for. -/
def resume (step : Step σ) (resumption : Resumption σ) : Except FatalError (Step σ) :=
  match step with
  | .object step => .object <$> step.resume resumption
  | .field step => .field <$> step.resume resumption
  | .item step => .item <$> step.resume resumption

end Step

/-- A parked step: of which run, and what it waits for. -/
structure ParkedStep (σ : Type) where
  /-- The run, by its number. -/
  owner : Nat
  /-- The step. -/
  step : Step σ
  /-- What it waits for. -/
  wait : Wait σ

/-- A step of the bucket that is taken up. -/
inductive Awaited (σ : Type) where
  /-- What it waits for is not there yet. -/
  | waiting (parked : ParkedStep σ)
  /-- What it waited for is there. -/
  | answered (owner : Nat) (step : Step σ) (resumption : Resumption σ)

/-- Parked steps by depth, the least depth first, those of a depth in the order of parking. -/
abbrev Buckets (σ : Type) := List (Nat × List (ParkedStep σ))

/-- Parks a step at a depth, behind those that are. -/
def Buckets.park {σ : Type} : Buckets σ → Nat → ParkedStep σ → Buckets σ
  | [], depth, parked => [(depth, [parked])]
  | (d, bucket) :: rest, depth, parked =>
    if depth < d then (depth, [parked]) :: (d, bucket) :: rest
    else if depth = d then (d, bucket ++ [parked]) :: rest
    else (d, bucket) :: Buckets.park rest depth parked

/-- Whether two parked steps wait for the same bag of arguments. -/
def ParkedStep.shares {σ : Type} (a b : ParkedStep σ) : Bool :=
  match a.wait, b.wait with
  | .arguments key, .arguments other => a.owner = b.owner && key = other
  | _, _ => false

/-- In which order the steps of a bucket are polled. -/
inductive PollOrder where
  /-- The first that waits, until it is answered. -/
  | oneByOne
  /-- All that wait, round after round. -/
  | rounds
  /-- All that wait, and then each as soon as it is due, behind those that are already. -/
  | asDue
deriving DecidableEq, Repr

/-- The number of steps up to which a bucket is polled in rounds. -/
def roundLimit : Nat := 30

/-- The order for a bucket of some size. -/
def PollOrder.ofSize (nonblocking : Bool) (size : Nat) : PollOrder :=
  if !nonblocking then .oneByOne
  else if size ≤ roundLimit then .rounds
  else .asDue

/-- What is being done. -/
inductive Phase (σ : Type) where
  /-- The ready steps of a run are run. -/
  | draining (owner : Nat)
  /-- The keys that wait are fetched for a bucket. -/
  | flushing (bucket : List (ParkedStep σ)) (flushes : List (World.Flush σ))
  /-- What the steps of a bucket wait for is awaited; those at the places in line are polled
  next. -/
  | awaiting (bucket : List (Awaited σ)) (line : List Nat)

/-- The runs of several requests. -/
structure Schedule (σ : Type) where
  /-- The runs, each with its job. -/
  runs : List (Job σ × Run σ)
  /-- What surrounds them. -/
  world : World σ
  /-- The parked steps. -/
  buckets : Buckets σ
  /-- What is being done. -/
  phase : Phase σ
  /-- Whether the steps of a bucket are awaited together rather than one after another. -/
  nonblocking : Bool

/-- What a transition of a schedule comes to. -/
inductive Turn (σ : Type) where
  /-- The schedule goes on. -/
  | again (schedule : Schedule σ)
  /-- Nothing is left to do. -/
  | finished (schedule : Schedule σ)
  /-- A fatal error has ended the runs. -/
  | failed (error : FatalError) (schedule : Schedule σ)

namespace Run

variable {σ : Type}

/-- The run of a job whose operation has a root type. -/
def start (job : Job σ) (type : ObjectType σ) : Run σ :=
  let (subject, data) : Subject × Nat := match job.root with
    | .object o => (⟨job.root, .object o.identity⟩, 0)
    | .data _ => (⟨job.root, .data 0⟩, 1)
  { draft := Draft.new job.root
    errors := []
    arguments := []
    ready := [.object (ObjectStep.root job type subject)]
    held := []
    parked := 0
    data }

end Run

namespace Schedule

variable {σ : Type}

/-- Changes a run. -/
def modifyRun (schedule : Schedule σ) (owner : Nat) (f : Run σ → Run σ) : Schedule σ :=
  { schedule with runs := schedule.runs.modify owner fun (job, run) => (job, f run) }

/-- Takes up what a transition of a step has come to. -/
def place (schedule : Schedule σ) (owner : Nat) : Progress σ → Schedule σ
  | .again step => schedule.modifyRun owner fun run => { run with ready := step :: run.ready }
  | .finished => schedule
  | .parked step depth wait =>
    let counted := schedule.modifyRun owner fun run => { run with parked := run.parked + 1 }
    { counted with buckets := counted.buckets.park depth ⟨owner, step, wait⟩ }

/-- One transition of the first ready step of a run. -/
def advance (schedule : Schedule σ) (owner : Nat) (job : Job σ) (run : Run σ) (step : Step σ) :
    Turn σ :=
  let (result, stage) := (step.advance job).run.run ⟨run, schedule.world⟩
  let schedule :=
    { schedule with world := stage.world }.modifyRun owner fun _ => stage.run
  match result with
  | .ok progress => .again (schedule.place owner progress)
  | .error error => .failed error schedule

/-- Takes up the bucket of the least depth, if there is one. -/
def takeBucket (schedule : Schedule σ) : Turn σ :=
  match schedule.buckets with
  | [] => .finished schedule
  | (_, bucket) :: buckets =>
    .again { schedule with buckets, phase := .flushing bucket schedule.world.dueFetches }

/-- Goes on with the ready steps of a run. When none is left, a held one is released, or it is the
turn of the next run. -/
def drain (schedule : Schedule σ) (owner : Nat) : Turn σ :=
  match schedule.runs[owner]? with
  | none => schedule.takeBucket
  | some (job, run) =>
    match run.ready, run.held with
    | step :: ready, _ => schedule.advance owner job { run with ready } step
    | [], step :: held =>
      if run.parked = 0 then
        let released := schedule.modifyRun owner fun run => { run with ready := [step], held }
        .again { released with world := released.world.clearCache }
      else .again { schedule with phase := .draining (owner + 1) }
    | [], [] => .again { schedule with phase := .draining (owner + 1) }

/-- Goes on with fetches, and then with the bucket that they are made for. -/
def flush (schedule : Schedule σ) (bucket : List (ParkedStep σ))
    (flushes : List (World.Flush σ)) : Turn σ :=
  if flushes.isEmpty then .again { schedule with phase := .awaiting (bucket.map .waiting) [] }
  else
    let (flushes, world) := (World.pollFlushes flushes).run schedule.world
    .again { schedule with world, phase := .flushing bucket flushes }

/-- The bag of arguments under a key of a run. -/
def arguments? (schedule : Schedule σ) (owner : Nat) (key : ArgumentKey) :
    Option (SharedArguments σ) :=
  (schedule.runs[owner]?).bind fun (_, run) => run.arguments.get? key

/-- Drives forward what a parked step waits for. -/
def poll (schedule : Schedule σ) (parked : ParkedStep σ) : Awaited σ × Schedule σ :=
  let pollBy {α : Type} (rest : Pending σ α) (answer : α → Resumption σ)
      (wait : Pending σ α → Wait σ) : Awaited σ × Schedule σ :=
    match rest.poll.run schedule.world with
    | (.ready result, world) =>
      (.answered parked.owner parked.step (answer result), { schedule with world })
    | (.pending rest, world) =>
      (.waiting { parked with wait := wait rest }, { schedule with world })
  match parked.wait with
  | .value rest => pollBy rest .value .value
  | .type rest => pollBy rest .type .type
  | .authorization rest => pollBy rest .authorization .authorization
  | .directive rest => pollBy rest .directive .directive
  | .arguments key =>
    match schedule.arguments? parked.owner key with
    | none => (.waiting parked, schedule)
    | some bag =>
      let (bag, world) := bag.poll.run schedule.world
      let schedule := { schedule with world }.modifyRun parked.owner fun run =>
        { run with arguments := run.arguments.insert key bag }
      match bag.result? with
      | some result => (.answered parked.owner parked.step (.arguments result), schedule)
      | none => (.waiting parked, schedule)

/-- Whether a poll of what a parked step waits for would get any further. -/
def canGoOn (schedule : Schedule σ) (parked : ParkedStep σ) : Bool :=
  match parked.wait with
  | .value rest => rest.canGoOn schedule.world
  | .type rest => rest.canGoOn schedule.world
  | .authorization rest => rest.canGoOn schedule.world
  | .directive rest => rest.canGoOn schedule.world
  | .arguments key =>
    match schedule.arguments? parked.owner key with
    | some (.pending rest) => rest.canGoOn schedule.world
    | _ => true

/-- The order in which the steps of a bucket are polled. -/
def order (schedule : Schedule σ) (bucket : List (Awaited σ)) : PollOrder :=
  PollOrder.ofSize schedule.nonblocking bucket.length

/-- The steps of a bucket that wait, each with its place. -/
def waiting (bucket : List (Awaited σ)) : List (ParkedStep σ × Nat) :=
  bucket.zipIdx.filterMap fun (awaited, place) =>
    match awaited with
    | .waiting parked => some (parked, place)
    | .answered _ _ _ => none

/-- The places of a bucket that line up when nobody is in line. -/
def lineUp (schedule : Schedule σ) (bucket : List (Awaited σ)) : List Nat :=
  let places := (waiting bucket).map (·.2)
  if schedule.order bucket = .oneByOne then places.take 1 else places

/-- For each place of a bucket of some size, whether it is in line. -/
def marks (size : Nat) (line : List Nat) : Array Bool :=
  line.foldl (fun marks place => marks.setIfInBounds place true) (Array.replicate size false)

/-- The places of a bucket that have become due by the poll of a step and are not in line yet:
first those for which a ticket has come up, then those that wait for the same as the step. -/
def due (schedule : Schedule σ) (bucket : List (Awaited σ)) (line : List Nat)
    (polled : ParkedStep σ) (place : Nat) : List Nat :=
  let inLine := marks bucket.length line
  let fresh := (waiting bucket).filter fun (parked, other) =>
    !(inLine[other]?.getD false) && schedule.canGoOn parked
  let (others, same) := fresh.partition fun (parked, other) =>
    other != place && !polled.shares parked
  (others ++ same).map (·.2)

/-- Drives forward what the step at a place of a bucket waits for, unless it has been answered. -/
def pollAt (schedule : Schedule σ) (bucket : List (Awaited σ)) (place : Nat) (line : List Nat) :
    Schedule σ :=
  match bucket[place]? with
  | some (.waiting parked) =>
    let (awaited, schedule) := schedule.poll parked
    let bucket := bucket.set place awaited
    let joining :=
      if schedule.order bucket = .asDue then schedule.due bucket line parked place else []
    { schedule with phase := .awaiting bucket (line ++ joining) }
  | _ => { schedule with phase := .awaiting bucket line }

/-- The answers of a bucket, if they are all there. -/
def answers? : List (Awaited σ) → Option (List (Nat × Step σ × Resumption σ))
  | [] => some []
  | .answered owner step resumption :: rest =>
    (answers? rest).map fun answers => (owner, step, resumption) :: answers
  | .waiting _ :: _ => none

/-- Resumes steps in order and makes them ready. -/
def resumeAll (schedule : Schedule σ) : List (Nat × Step σ × Resumption σ) → Turn σ
  | [] => .again { schedule with phase := .draining 0 }
  | (owner, step, resumption) :: rest =>
    let counted := schedule.modifyRun owner fun run => { run with parked := run.parked - 1 }
    match step.resume resumption with
    | .error error => .failed error counted
    | .ok step =>
      (counted.modifyRun owner fun run => { run with ready := run.ready ++ [step] }).resumeAll rest

/-- Goes on with a bucket: the first in line is polled. When nobody is in line, the steps are
resumed if all are answered, and line up otherwise. -/
def await (schedule : Schedule σ) (bucket : List (Awaited σ)) (line : List Nat) : Turn σ :=
  match line with
  | place :: line => .again (schedule.pollAt bucket place line)
  | [] =>
    match answers? bucket with
    | some answers => schedule.resumeAll answers
    | none => .again { schedule with phase := .awaiting bucket (schedule.lineUp bucket) }

/-- One transition of a schedule. -/
def step (schedule : Schedule σ) : Turn σ :=
  match schedule.phase with
  | .draining owner => schedule.drain owner
  | .flushing bucket flushes => schedule.flush bucket flushes
  | .awaiting bucket line => schedule.await bucket line

/-- The schedule of runs that have not been begun. -/
def new (runs : List (Job σ × Run σ)) (world : World σ) (nonblocking : Bool) : Schedule σ :=
  { runs, world, buckets := [], phase := .draining 0, nonblocking }

/-- Runs a schedule to its end, if that takes fewer than `fuel` transitions. -/
def run? : Nat → Schedule σ → Option (Except FatalError Unit × Schedule σ)
  | 0, _ => none
  | fuel + 1, schedule =>
    match schedule.step with
    | .again schedule => run? fuel schedule
    | .finished schedule => some (.ok (), schedule)
    | .failed error schedule => some (.error error, schedule)

end Schedule

end GraphExec
