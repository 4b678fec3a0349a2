import GraphExec.Proofs.Execution
import GraphExec.Proofs.Pure.Evaluation
import GraphExec.Proofs.Run.Futures

/-!
# Schedules of pure runs

A schedule of pure runs stays one: whatever is done for a run leaves the sources keywise that
surround the others.
-/

namespace GraphExec

variable {σ : Type} {loads : Loads}

namespace Schedule

variable {schedule next : Schedule σ}

/-! ### Pure schedules -/

/-- A schedule of jobs that are pure, as are their runs. -/
structure Pure (loads : Loads) (schedule : Schedule σ) : Prop where
  world : schedule.world.Keywise loads
  flushes : World.FlushesKeywise loads schedule.phase.flushes
  owned : schedule.Owned
  fine : ∀ (owner : Nat) (job : Job σ) (run : Run σ), schedule.runs[owner]? = some (job, run) →
    job.Fine loads (job.Tells loads)
  runs : ∀ (owner : Nat) (job : Job σ) (run : Run σ), schedule.runs[owner]? = some (job, run) →
    ∃ weave, schedule.Shares owner job weave ∧ weave.Pure loads (job.Tells loads) job

/-- A schedule of pure runs that have not been begun. -/
theorem pure_new {runs : List (Job σ × Run σ)} {world : World σ} (keywise : world.Keywise loads)
    (nonblocking : Bool) (each : ∀ (owner : Nat) (job : Job σ) (run : Run σ),
      runs[owner]? = some (job, run) → job.Fine loads (job.Tells loads) ∧
        ∃ type, job.schema.rootType? job.operation.kind = some type ∧ run = .start job type) :
    (Schedule.new runs world nonblocking).Pure loads where
  world := keywise
  flushes _ _ mem := absurd mem List.not_mem_nil
  owned _ mem := absurd mem List.not_mem_nil
  fine owner job run here := (each owner job run here).1
  runs owner job run here := by
    obtain ⟨fine, type, known, rfl⟩ := each owner job run here
    exact ⟨_, shares_new world nonblocking here, Weave.pure_start fine known keywise⟩

/-- The flushes that are due have not been begun. -/
theorem keywise_dueFetches (world : World σ) : World.FlushesKeywise loads world.dueFetches := by
  intro id progress mem
  obtain ⟨entry, -, same⟩ := List.mem_map.mp mem
  cases same

/-- What surrounds pure runs stays keywise. -/
theorem Pure.keywise (pure : schedule.Pure loads) (turn : schedule.step = .again next) :
    next.world.Keywise loads ∧ World.FlushesKeywise loads next.phase.flushes := by
  have nothing {phase : Phase σ} (none_there : phase.flushes = []) :
      World.FlushesKeywise loads phase.flushes := by
    intro id progress mem
    rw [none_there] at mem
    cases mem
  have idle {owner : Nat} (phase : schedule.phase = .draining owner) :
      World.FlushesKeywise loads schedule.phase.flushes := nothing (by rw [phase]; rfl)
  cases goesOn_of_step turn with
  | @advanced owner job run step ready progress s phase here first gives =>
      obtain ⟨weave, shares, own⟩ := pure.runs owner job run here
      obtain ⟨-, rfl⟩ := shares.same_run here
      have picked : weave.run.ready.Perm (step :: ready) := .of_eq first
      rw [← shares.world] at gives
      obtain ⟨-, after⟩ := (Weave.Move.advance picked gives).pure (pure.fine owner job _ here) own
        nofun
      have keywise : s.world.Keywise loads := by
        cases progress <;> exact after.stage.here
      cases progress <;> exact ⟨keywise, idle phase⟩
  | released phase => exact ⟨pure.world.clearCache, idle phase⟩
  | passed | fetched | linedUp => exact ⟨pure.world, nothing rfl⟩
  | taken => exact ⟨pure.world, keywise_dueFetches _⟩
  | fetching phase =>
      have going := pure.flushes
      rw [phase] at going
      exact pure.world.pollFlushes going
  | @polled bucket place line phase =>
      rcases schedule.pollAt_cases bucket place line with
        ⟨parked, front, back, line', found, -, same⟩ | ⟨-, same⟩
      · rw [same]
        have waits := mem_parkedSteps phase (List.mem_of_getElem? found)
        obtain ⟨⟨job, run⟩, here⟩ : ∃ entry, schedule.runs[parked.owner]? = some entry :=
          ⟨_, List.getElem?_eq_getElem (pure.owned parked waits)⟩
        obtain ⟨weave, shares, own⟩ := pure.runs _ job run here
        obtain ⟨-, rfl⟩ := shares.same_run here
        have asleep : (parked.step, parked.wait) ∈ weave.asleep := by
          refine shares.asleep.mem_iff.mpr (List.mem_filterMap.mpr ⟨parked, waits, ?_⟩)
          exact if_pos rfl
        have polls := Wait.polls (own.asleep _ asleep).2 own.stage
        obtain ⟨-, world, -⟩ := poll_own parked here
        have keywise : (schedule.poll parked).2.world.Keywise loads := by
          rw [world, ← shares.world]
          exact polls.stage.here
        exact ⟨keywise, nothing rfl⟩
      · rw [same]
        exact ⟨pure.world, nothing rfl⟩
  | resumed phase found resumes =>
      obtain ⟨world, phase', -, -⟩ := resumeAll_eq _ resumes
      exact ⟨world ▸ pure.world, nothing (by rw [phase']; rfl)⟩

/-- A transition of a schedule of pure runs leaves one. -/
theorem Pure.step (pure : schedule.Pure loads) (turn : schedule.step = .again next) :
    next.Pure loads := by
  obtain ⟨world, flushes⟩ := pure.keywise turn
  have keeps := keeps_step turn
  -- Each run of the next schedule is one of the former, some moves later.
  have follows : ∀ (owner : Nat) (job : Job σ) (run : Run σ),
      next.runs[owner]? = some (job, run) → job.Fine loads (job.Tells loads) ∧
        ∃ weave, next.Shares owner job weave ∧ weave.Pure loads (job.Tells loads) job := by
    intro owner job run here
    have bound : owner < schedule.runs.length :=
      keeps.length ▸ (List.getElem?_eq_some_iff.mp here).1
    obtain ⟨⟨job', run'⟩, before⟩ : ∃ entry, schedule.runs[owner]? = some entry :=
      ⟨_, List.getElem?_eq_getElem bound⟩
    obtain ⟨weave, shares, own⟩ := pure.runs owner job' run' before
    have fine := pure.fine owner job' run' before
    have shown : ∀ sight, schedule.Sights owner job' sight → schedule.Sights owner job' sight :=
      fun _ seen => seen
    obtain ⟨after, path, shares'⟩ := shares.step shown turn
    obtain ⟨rfl, rfl⟩ := shares'.same_run here
    refine ⟨fine, after, shares', (path.pure fine own ?_).2⟩
    rintro world' ⟨next', turn', rfl⟩
    rw [turn] at turn'
    injection turn' with same
    exact same ▸ world
  exact ⟨world, flushes, keeps.owned pure.owned, fun owner job run here =>
    (follows owner job run here).1, fun owner job run here => (follows owner job run here).2⟩

theorem Visits.pure {first last : Schedule σ} (visits : first.Visits last)
    (pure : first.Pure loads) : last.Pure loads := by
  induction visits with
  | start => exact pure
  | step _ turn ih => exact ih.step turn

/-- What surrounds the runs of a pure schedule stays keywise, as each of them sees it. -/
theorem Pure.saw {first : Schedule σ} (pure : first.Pure loads) {owner : Nat} {job : Job σ}
    {world : World σ} (saw : first.Saw owner job (.changed world)) : world.Keywise loads := by
  obtain ⟨middle, visits, next, turn, rfl⟩ := saw
  exact ((visits.pure pure).step turn).world

end Schedule

end GraphExec
