import GraphExec.Proofs.Engine
import GraphExec.Run.Schedule

/-!
# The transitions of a schedule

All that a transition of a schedule can do, once and for all: `GoesOn` has one case for each, with
everything that is known there. What a transition keeps is shown case by case, without another look
at how the transition is found.
-/

namespace GraphExec

variable {σ : Type}

/-- A place of a list splits it, and what is put there stands between the same parts. -/
theorem set_eq {α : Type} {list : List α} {place : Nat} {y : α} (found : list[place]? = some y) :
    ∃ front back, list = front ++ y :: back ∧ ∀ x, list.set place x = front ++ x :: back := by
  obtain ⟨bound, rfl⟩ := List.getElem?_eq_some_iff.mp found
  have split : ∀ x, list.set place x = list.take place ++ x :: list.drop (place + 1) :=
    fun x => List.set_eq_take_append_cons_drop.trans (if_pos bound)
  exact ⟨_, _, (List.set_getElem_self bound).symm.trans (split _), split⟩

namespace Schedule

variable {schedule next last : Schedule σ} {owner : Nat} {job : Job σ} {run : Run σ} {step : Step σ}
  {ready held : List (Step σ)}

@[simp] theorem length_modifyRun (schedule : Schedule σ) (changed : Nat) (f : Run σ → Run σ) :
    (schedule.modifyRun changed f).runs.length = schedule.runs.length :=
  List.length_modify _ _ _

theorem getElem?_modifyRun (schedule : Schedule σ) (changed owner : Nat) (f : Run σ → Run σ) :
    (schedule.modifyRun changed f).runs[owner]? =
      if changed = owner then (schedule.runs[owner]?).map fun entry => (entry.1, f entry.2)
      else schedule.runs[owner]? := by
  unfold modifyRun
  rw [List.getElem?_modify]
  split
  · rfl
  · simp

/-! ### Ready steps -/

/-- A transition of a schedule by a ready step is one of the step. -/
theorem advance_again (turn : schedule.advance owner job run step = .again next) :
    ∃ progress s, (step.advance job).Gives ⟨run, schedule.world⟩ progress s ∧
      next = ({ schedule with world := s.world }.modifyRun owner fun _ => s.run).place owner
        progress := by
  unfold Schedule.advance at turn
  rcases gives : (step.advance job).run.run ⟨run, schedule.world⟩ with ⟨error | progress, s⟩
  · rw [gives] at turn
    cases turn
  · rw [gives] at turn
    injection turn with turn
    exact ⟨progress, s, gives, turn.symm⟩

/-- A transition of a step is one of the schedule. -/
theorem advance_of_gives {progress : Progress σ} {s : Stage σ}
    (gives : (step.advance job).Gives ⟨run, schedule.world⟩ progress s) :
    schedule.advance owner job run step =
      .again ((({ schedule with world := s.world } : Schedule σ).modifyRun owner
        fun _ => s.run).place owner progress) := by
  have ran : (step.advance job).run.run ⟨run, schedule.world⟩ = (.ok progress, s) := gives
  unfold Schedule.advance
  rw [ran]

theorem advance_goes_on : schedule.advance owner job run step ≠ .finished last := by
  intro turn
  unfold Schedule.advance at turn
  rcases gives : (step.advance job).run.run ⟨run, schedule.world⟩ with ⟨error | progress, s⟩
  · rw [gives] at turn
    cases turn
  · rw [gives] at turn
    cases turn

/-! ### Resumption -/

section
variable {resumption : Resumption σ} {rest : List (Nat × Step σ × Resumption σ)}

/-- The schedule when a parked step of a run goes on as another step. -/
def wake (schedule : Schedule σ) (owner : Nat) (step : Step σ) : Schedule σ :=
  (schedule.modifyRun owner fun run => { run with parked := run.parked - 1 }).modifyRun owner
    fun run => { run with ready := run.ready ++ [step] }

theorem wake_own (here : schedule.runs[owner]? = some (job, run)) (step : Step σ) :
    (schedule.wake owner step).runs[owner]? =
      some (job, { run with parked := run.parked - 1, ready := run.ready ++ [step] }) := by
  simp [wake, getElem?_modifyRun, here]

theorem wake_other {other : Nat} (differs : other ≠ owner) (step : Step σ) :
    (schedule.wake other step).runs[owner]? = schedule.runs[owner]? := by
  simp [wake, getElem?_modifyRun, differs]

/-- The first step takes its answer, and then the others take theirs. -/
theorem resumeAll_of_resume {next : Step σ} (resumes : step.resume resumption = .ok next) :
    schedule.resumeAll ((owner, step, resumption) :: rest) =
      (schedule.wake owner next).resumeAll rest := by
  rw [Schedule.resumeAll]
  simp only [resumes]
  rfl

theorem resumeAll_cons
    (turn : schedule.resumeAll ((owner, step, resumption) :: rest) = .again next) :
    ∃ step', step.resume resumption = .ok step' ∧
      (schedule.wake owner step').resumeAll rest = .again next := by
  cases resumes : step.resume resumption with
  | error error => simp [Schedule.resumeAll, resumes] at turn
  | ok step' => exact ⟨step', rfl, resumeAll_of_resume resumes ▸ turn⟩

end

/-- The resumption of the steps of a bucket leaves everything but their runs as it is. -/
theorem resumeAll_eq : ∀ (answers : List (Nat × Step σ × Resumption σ)) {schedule : Schedule σ},
    schedule.resumeAll answers = .again next →
      next.world = schedule.world ∧ next.phase = .draining 0 ∧ next.buckets = schedule.buckets ∧
        next.runs.length = schedule.runs.length := by
  intro answers
  induction answers with
  | nil =>
      intro schedule turn
      injection turn with turn
      subst turn
      exact ⟨rfl, rfl, rfl, rfl⟩
  | cons entry rest ih =>
      intro schedule turn
      obtain ⟨step', -, turn⟩ := resumeAll_cons turn
      obtain ⟨world, phase, buckets, length⟩ := ih turn
      exact ⟨world, phase, buckets, by simpa [wake] using length⟩

theorem resumeAll_goes_on :
    ∀ (answers : List (Nat × Step σ × Resumption σ)) (schedule : Schedule σ),
      schedule.resumeAll answers ≠ .finished last := by
  intro answers
  induction answers with
  | nil => intro schedule turn; cases turn
  | cons entry rest ih =>
      intro schedule turn
      obtain ⟨owner, step, resumption⟩ := entry
      cases resumes : step.resume resumption with
      | error error => simp [Schedule.resumeAll, resumes] at turn
      | ok step' => exact ih _ (resumeAll_of_resume resumes ▸ turn)

/-! ### Which transition is made -/

section
variable {depth : Nat} {bucket : List (ParkedStep σ)} {rest : Buckets σ}

theorem step_ready (phase : schedule.phase = .draining owner)
    (here : schedule.runs[owner]? = some (job, run)) (first : run.ready = step :: ready) :
    schedule.step = schedule.advance owner job { run with ready } step := by
  simp only [Schedule.step, phase, Schedule.drain, here, first]

theorem step_release (phase : schedule.phase = .draining owner)
    (here : schedule.runs[owner]? = some (job, run)) (idle : run.ready = [])
    (first : run.held = step :: held) (none_parked : run.parked = 0) :
    schedule.step = .again { schedule.modifyRun owner fun run => { run with ready := [step], held }
      with world := schedule.world.clearCache } := by
  simp only [Schedule.step, phase, Schedule.drain, here, idle, first, none_parked, if_true]
  rfl

theorem step_pass (phase : schedule.phase = .draining owner)
    (here : schedule.runs[owner]? = some (job, run)) (idle : run.ready = [])
    (waits : run.held = [] ∨ run.parked ≠ 0) :
    schedule.step = .again { schedule with phase := .draining (owner + 1) } := by
  simp only [Schedule.step, phase, Schedule.drain, here, idle]
  cases held : run.held with
  | nil => rfl
  | cons step held' =>
      have parked : run.parked ≠ 0 := waits.resolve_left (by rw [held]; nofun)
      simp only [if_neg parked]

theorem step_take (phase : schedule.phase = .draining owner) (none_left : schedule.runs[owner]? = none)
    (buckets : schedule.buckets = (depth, bucket) :: rest) :
    schedule.step = .again { schedule with
      buckets := rest, phase := .flushing bucket schedule.world.dueFetches } := by
  simp only [Schedule.step, phase, Schedule.drain, none_left, takeBucket, buckets]

theorem step_done (phase : schedule.phase = .draining owner) (none_left : schedule.runs[owner]? = none)
    (buckets : schedule.buckets = []) : schedule.step = .finished schedule := by
  simp only [Schedule.step, phase, Schedule.drain, none_left, takeBucket, buckets]

end

section
variable {bucket : List (Awaited σ)}

theorem step_poll {place : Nat} {line : List Nat}
    (phase : schedule.phase = .awaiting bucket (place :: line)) :
    schedule.step = .again (schedule.pollAt bucket place line) := by
  simp only [Schedule.step, phase, Schedule.await]

theorem step_line_up (phase : schedule.phase = .awaiting bucket [])
    (some_wait : answers? bucket = none) :
    schedule.step = .again { schedule with
      phase := .awaiting bucket (schedule.lineUp bucket) } := by
  simp only [Schedule.step, phase, Schedule.await, some_wait]

theorem step_resume {answers : List (Nat × Step σ × Resumption σ)}
    (phase : schedule.phase = .awaiting bucket []) (found : answers? bucket = some answers) :
    schedule.step = schedule.resumeAll answers := by
  simp only [Schedule.step, phase, Schedule.await, found]

end

/-- How a schedule goes on by a transition. -/
inductive GoesOn (schedule : Schedule σ) : Schedule σ → Prop
  /-- The first ready step of the run whose turn it is has made a transition. -/
  | advanced {owner : Nat} {job : Job σ} {run : Run σ} {step : Step σ} {ready : List (Step σ)}
      {progress : Progress σ} {s : Stage σ} (phase : schedule.phase = .draining owner)
      (here : schedule.runs[owner]? = some (job, run)) (first : run.ready = step :: ready)
      (gives : (step.advance job).Gives ⟨{ run with ready }, schedule.world⟩ progress s) :
      GoesOn schedule (({ schedule with world := s.world }.modifyRun owner fun _ => s.run).place owner
        progress)
  /-- A held step has been released, and what the loader has cached is forgotten. -/
  | released {owner : Nat} {job : Job σ} {run : Run σ} {step : Step σ} {held : List (Step σ)}
      (phase : schedule.phase = .draining owner) (here : schedule.runs[owner]? = some (job, run))
      (idle : run.ready = []) (first : run.held = step :: held) (none_parked : run.parked = 0) :
      GoesOn schedule { schedule.modifyRun owner fun run => { run with ready := [step], held } with
        world := schedule.world.clearCache }
  /-- It is the turn of the next run. -/
  | passed {owner : Nat} {job : Job σ} {run : Run σ} (phase : schedule.phase = .draining owner)
      (here : schedule.runs[owner]? = some (job, run)) (idle : run.ready = [])
      (waits : run.held = [] ∨ run.parked ≠ 0) :
      GoesOn schedule { schedule with phase := .draining (owner + 1) }
  /-- Every run has had its turn, and a bucket is taken up. -/
  | taken {owner depth : Nat} {bucket : List (ParkedStep σ)} {buckets : Buckets σ}
      (phase : schedule.phase = .draining owner) (none_left : schedule.runs[owner]? = none)
      (first : schedule.buckets = (depth, bucket) :: buckets) :
      GoesOn schedule { schedule with
        buckets, phase := .flushing bucket schedule.world.dueFetches }
  /-- The fetches for a bucket have been driven forward. -/
  | fetching {bucket : List (ParkedStep σ)} {flushes : List (World.Flush σ)}
      (phase : schedule.phase = .flushing bucket flushes) (some_left : flushes ≠ []) :
      GoesOn schedule { schedule with
        world := ((World.pollFlushes flushes).run schedule.world).2
        phase := .flushing bucket ((World.pollFlushes flushes).run schedule.world).1 }
  /-- There is nothing left to fetch, and the bucket is awaited. -/
  | fetched {bucket : List (ParkedStep σ)} (phase : schedule.phase = .flushing bucket []) :
      GoesOn schedule { schedule with phase := .awaiting (bucket.map .waiting) [] }
  /-- The first in line has been polled. -/
  | polled {bucket : List (Awaited σ)} {place : Nat} {line : List Nat}
      (phase : schedule.phase = .awaiting bucket (place :: line)) :
      GoesOn schedule (schedule.pollAt bucket place line)
  /-- Nobody was in line, and the steps that wait line up anew. -/
  | linedUp {bucket : List (Awaited σ)} (phase : schedule.phase = .awaiting bucket [])
      (some_wait : answers? bucket = none) :
      GoesOn schedule { schedule with phase := .awaiting bucket (schedule.lineUp bucket) }
  /-- All steps of the bucket have been answered, and are resumed. -/
  | resumed {bucket : List (Awaited σ)} {answers : List (Nat × Step σ × Resumption σ)}
      {next : Schedule σ} (phase : schedule.phase = .awaiting bucket [])
      (found : answers? bucket = some answers)
      (resumes : schedule.resumeAll answers = .again next) : GoesOn schedule next

/-- A transition that goes on is one of these. -/
theorem goesOn_of_step (turn : schedule.step = .again next) : schedule.GoesOn next := by
  cases phase : schedule.phase with
  | draining owner =>
      cases here : schedule.runs[owner]? with
      | none =>
          cases first : schedule.buckets with
          | nil =>
              rw [step_done phase here first] at turn
              cases turn
          | cons entry buckets =>
              rw [step_take phase here first] at turn
              injection turn with turn
              exact turn ▸ .taken phase here first
      | some entry =>
          obtain ⟨job, run⟩ := entry
          cases first : run.ready with
          | cons step ready =>
              rw [step_ready phase here first] at turn
              obtain ⟨progress, s, gives, rfl⟩ := advance_again turn
              exact .advanced phase here first gives
          | nil =>
              have passes (waits : run.held = [] ∨ run.parked ≠ 0) : schedule.GoesOn next := by
                rw [step_pass phase here first waits] at turn
                injection turn with turn
                exact turn ▸ .passed phase here first waits
              cases some_held : run.held with
              | nil => exact passes (.inl some_held)
              | cons step held =>
                  by_cases none_parked : run.parked = 0
                  · rw [step_release phase here first some_held none_parked] at turn
                    injection turn with turn
                    exact turn ▸ .released phase here first some_held none_parked
                  · exact passes (.inr none_parked)
  | flushing bucket flushes =>
      simp only [Schedule.step, phase, Schedule.flush] at turn
      cases flushes with
      | nil =>
          injection turn with turn
          exact turn ▸ .fetched phase
      | cons flush flushes =>
          injection turn with turn
          exact turn ▸ .fetching phase (List.cons_ne_nil _ _)
  | awaiting bucket line =>
      cases line with
      | cons place line =>
          rw [step_poll phase] at turn
          injection turn with turn
          exact turn ▸ .polled phase
      | nil =>
          cases found : answers? bucket with
          | none =>
              rw [step_line_up phase found] at turn
              injection turn with turn
              exact turn ▸ .linedUp phase found
          | some answers =>
              rw [step_resume phase found] at turn
              exact .resumed phase found turn

/-- A transition that ends the schedule finds nothing left to do. -/
theorem step_finished (turn : schedule.step = .finished last) :
    last = schedule ∧ schedule.buckets = [] ∧
      ∃ next, schedule.phase = .draining next ∧ schedule.runs[next]? = none := by
  unfold Schedule.step at turn
  split at turn
  · rename_i next phase
    unfold Schedule.drain at turn
    split at turn
    · rename_i none_left
      unfold takeBucket at turn
      split at turn
      · rename_i no_buckets
        injection turn with turn
        exact ⟨turn.symm, no_buckets, next, phase, none_left⟩
      · cases turn
    · split at turn
      · exact absurd turn advance_goes_on
      · split at turn <;> cases turn
      · cases turn
  · unfold Schedule.flush at turn
    split at turn
    · cases turn
    · injection turn
  · unfold Schedule.await at turn
    split at turn
    · cases turn
    · split at turn
      · exact absurd turn (resumeAll_goes_on _ _)
      · cases turn

/-- A transition that fails is one of a ready step, or resumes the steps of a bucket. -/
theorem step_failed {error : FatalError} (turn : schedule.step = .failed error last) :
    (∃ owner job run step ready, schedule.phase = .draining owner ∧
      schedule.runs[owner]? = some (job, run) ∧ run.ready = step :: ready ∧
      schedule.advance owner job { run with ready } step = .failed error last) ∨
    ∃ bucket answers, schedule.phase = .awaiting bucket [] ∧ answers? bucket = some answers ∧
      schedule.resumeAll answers = .failed error last := by
  unfold Schedule.step at turn
  split at turn
  · rename_i owner phase
    unfold Schedule.drain at turn
    split at turn
    · unfold takeBucket at turn
      split at turn <;> cases turn
    · rename_i job run here
      split at turn
      · rename_i step ready first
        exact .inl ⟨owner, job, run, step, ready, phase, here, first, turn⟩
      · split at turn <;> cases turn
      · cases turn
  · unfold Schedule.flush at turn
    split at turn <;> cases turn
  · rename_i bucket line phase
    unfold Schedule.await at turn
    split at turn
    · cases turn
    · split at turn
      · rename_i answers found
        exact .inr ⟨bucket, answers, phase, found, turn⟩
      · cases turn

/-- A poll at a place of a bucket is one of the step that waits there, if there is one; else the
line has become shorter. -/
theorem pollAt_cases (schedule : Schedule σ) (bucket : List (Awaited σ)) (place : Nat)
    (line : List Nat) :
    (∃ parked front back line', bucket[place]? = some (.waiting parked) ∧
      bucket = front ++ .waiting parked :: back ∧
      schedule.pollAt bucket place line = { (schedule.poll parked).2 with
        phase := .awaiting (front ++ (schedule.poll parked).1 :: back) line' }) ∨
    (∀ parked, bucket[place]? ≠ some (.waiting parked)) ∧
      schedule.pollAt bucket place line = { schedule with phase := .awaiting bucket line } := by
  unfold pollAt
  split
  · rename_i parked found
    obtain ⟨front, back, split, set⟩ := set_eq found
    exact .inl ⟨parked, front, back, _, found, split, by simp only [set]; rfl⟩
  · rename_i nobody
    exact .inr ⟨nobody, rfl⟩

end Schedule

end GraphExec
