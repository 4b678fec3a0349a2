import GraphExec.Proofs.Run.Flush

/-!
# How a bucket is awaited

While a bucket is awaited, each of its steps keeps its place, and what it waits for is polled by
itself. When all have been answered, the steps are resumed in the order in which they were parked,
each with the answer to what it waited for; none of them refuses its answer.
-/

namespace GraphExec

variable {σ : Type}

/-- What may become of a parked step by polls of what it waits for: it waits for an answer of the
same kind, or has been given one. -/
def Awaited.Continues (parked : ParkedStep σ) : Awaited σ → Prop
  | .waiting rest => rest.owner = parked.owner ∧ rest.step = parked.step ∧
      ∀ answer, rest.wait.Admits answer → parked.wait.Admits answer
  | .answered owner step answer =>
      owner = parked.owner ∧ step = parked.step ∧ parked.wait.Admits answer

theorem Awaited.Continues.trans {parked rest : ParkedStep σ} {awaited : Awaited σ}
    (first : Continues parked (.waiting rest)) (second : awaited.Continues rest) :
    awaited.Continues parked := by
  obtain ⟨owner, step, admits⟩ := first
  cases awaited with
  | waiting other =>
      obtain ⟨owner', step', admits'⟩ := second
      exact ⟨owner'.trans owner, step'.trans step, fun answer mem => admits _ (admits' _ mem)⟩
  | answered other next answer =>
      obtain ⟨owner', step', admits'⟩ := second
      exact ⟨owner'.trans owner, step'.trans step, admits _ admits'⟩

/-- A step takes whatever it may be answered, or what it has been answered. -/
def Awaited.Takes : Awaited σ → Prop
  | .waiting parked => parked.step.Expects parked.wait
  | .answered _ step answer => ∃ next, step.resume answer = .ok next

theorem Awaited.Continues.takes {parked : ParkedStep σ} {awaited : Awaited σ}
    (continues : awaited.Continues parked) (expects : parked.step.Expects parked.wait) :
    awaited.Takes := by
  cases awaited with
  | waiting rest =>
      obtain ⟨-, step, admits⟩ := continues
      exact fun answer mem => step ▸ expects answer (admits answer mem)
  | answered owner step answer =>
      obtain ⟨-, rfl, admits⟩ := continues
      exact expects answer admits

/-- The steps of the bucket that is taken up, in the order in which they were parked. -/
def Phase.entries : Phase σ → List (Awaited σ)
  | draining _ => []
  | flushing bucket _ => bucket.map .waiting
  | awaiting bucket _ => bucket

namespace Schedule

variable {schedule next first middle last : Schedule σ} {passed : List (Schedule σ)}
  {bucket : List (ParkedStep σ)} {owner : Nat} {job : Job σ} {run : Run σ}

/-! ### Polls -/

theorem poll_continues (schedule : Schedule σ) (parked : ParkedStep σ) :
    (schedule.poll parked).1.Continues parked := by
  have same (wait : Wait σ) (admits : ∀ answer, wait.Admits answer → parked.wait.Admits answer) :
      (Awaited.waiting { parked with wait }).Continues parked := ⟨rfl, rfl, admits⟩
  unfold Schedule.poll
  cases waits : parked.wait with
  | arguments key =>
      have still : (Awaited.waiting parked).Continues parked := ⟨rfl, rfl, fun _ => id⟩
      simp only
      split
      · exact still
      · rename_i bag _
        rcases bag.poll.run schedule.world with ⟨bag, world⟩
        cases bag with
        | ready result =>
            refine ⟨rfl, rfl, ?_⟩
            rw [waits]
            exact ⟨_, rfl⟩
        | pending rest => exact still
  | value rest | type rest | authorization rest | directive rest =>
      simp only
      split
      · exact ⟨rfl, rfl, by rw [waits]; exact ⟨_, rfl⟩⟩
      · exact same _ fun answer admits => by rw [waits]; exact admits

/-- The next transition of a schedule polls a step of the bucket that is awaited. -/
def Polls (schedule : Schedule σ) (parked : ParkedStep σ) : Prop :=
  ∃ bucket place line, schedule.phase = .awaiting bucket (place :: line) ∧
    bucket[place]? = some (.waiting parked)

/-- What becomes of a step of a bucket from when it is awaited: whenever it is polled, what it waits
for is driven forward, and nothing else is done to it. -/
inductive Becomes (first : Schedule σ) (parked : ParkedStep σ) : Awaited σ → Prop
  | waits : Becomes first parked (.waiting parked)
  | polled {rest : ParkedStep σ} {schedule : Schedule σ}
      (before : Becomes first parked (.waiting rest)) (visits : first.Visits schedule)
      (polls : schedule.Polls rest) : Becomes first parked (schedule.poll rest).1

theorem Becomes.continues {parked : ParkedStep σ} {awaited : Awaited σ}
    (becomes : first.Becomes parked awaited) : awaited.Continues parked := by
  induction becomes with
  | waits => exact ⟨rfl, rfl, fun _ => id⟩
  | polled _ _ _ ih => exact ih.trans (poll_continues _ _)

/-! ### While a bucket is awaited -/

/-- A bucket is awaited. -/
def IsAwaiting (schedule : Schedule σ) : Prop :=
  ∃ bucket line, schedule.phase = .awaiting bucket line

/-- A run has what it had, but for its bags of arguments. -/
structure Rests (run run' : Run σ) : Prop where
  ready : run'.ready = run.ready
  held : run'.held = run.held
  parked : run'.parked = run.parked

/-- How a bucket is awaited: its steps are in their places. -/
structure Awaits (first : Schedule σ) (bucket : List (ParkedStep σ)) (schedule : Schedule σ) :
    Prop where
  places : ∃ awaited line, schedule.phase = .awaiting awaited line ∧
    List.Forall₂ first.Becomes bucket awaited
  buckets : schedule.buckets = first.buckets
  runs : ∀ (owner : Nat) (job : Job σ) (run : Run σ), first.runs[owner]? = some (job, run) →
    ∃ run', schedule.runs[owner]? = some (job, run') ∧ Rests run run'

theorem rests_poll (schedule : Schedule σ) (parked : ParkedStep σ)
    (here : schedule.runs[owner]? = some (job, run)) :
    ∃ run', (schedule.poll parked).2.runs[owner]? = some (job, run') ∧ Rests run run' := by
  by_cases mine : parked.owner = owner
  · subst mine
    obtain ⟨-, -, there⟩ := poll_own parked here
    have same := parked.wait.sameTree_poll ⟨run, schedule.world⟩
    exact ⟨_, there, same.ready, same.held, same.parked⟩
  · obtain ⟨-, others, -⟩ := schedule.poll_aside parked
    exact ⟨run, (others owner mine).trans here, rfl, rfl, rfl⟩

theorem awaits_start (phase : first.phase = .awaiting (bucket.map .waiting) []) :
    first.Awaits bucket first := by
  refine ⟨⟨_, _, phase, ?_⟩, rfl, fun owner job run here => ⟨run, here, rfl, rfl, rfl⟩⟩
  clear phase
  induction bucket with
  | nil => exact .nil
  | cons parked rest ih => exact .cons .waits ih

theorem Awaits.pollAt (awaits : first.Awaits bucket schedule) (visits : first.Visits schedule)
    {awaited : List (Awaited σ)} {place : Nat} {line : List Nat}
    (phase : schedule.phase = .awaiting awaited (place :: line)) :
    first.Awaits bucket (schedule.pollAt awaited place line) := by
  obtain ⟨⟨awaited', line', phase', places⟩, buckets, runs⟩ := awaits
  obtain ⟨rfl, rfl⟩ : awaited' = awaited ∧ line' = place :: line := by
    rw [phase] at phase'
    injection phase' with same same'
    exact ⟨same.symm, same'.symm⟩
  rcases schedule.pollAt_cases awaited' place line with
    ⟨parked, front, back, line', found, rfl, same⟩ | ⟨-, same⟩
  · have polls : schedule.Polls parked := ⟨_, _, _, phase, found⟩
    rw [same]
    refine ⟨⟨_, _, rfl, ?_⟩, (schedule.poll_aside parked).2.2.trans buckets,
      fun owner job run here => ?_⟩
    · have before := List.forall₂_take_append _ _ _ places
      have behind := List.forall₂_drop_append _ _ _ places
      rw [← List.take_append_drop front.length bucket]
      generalize bucket.drop front.length = later at behind ⊢
      cases behind with
      | cons one others => exact List.rel_append before (.cons (.polled one visits polls) others)
    · obtain ⟨run', there, rests⟩ := runs owner job run here
      obtain ⟨run'', there', rests'⟩ := rests_poll schedule parked there
      exact ⟨run'', there', rests'.ready.trans rests.ready, rests'.held.trans rests.held,
        rests'.parked.trans rests.parked⟩
  · rw [same]
    exact ⟨⟨_, _, rfl, places⟩, buckets, runs⟩

/-- While a bucket is awaited, its steps keep their places. -/
theorem Awaits.step (awaits : first.Awaits bucket schedule) (visits : first.Visits schedule)
    (turn : schedule.step = .again next) (still : next.IsAwaiting) :
    first.Awaits bucket next := by
  obtain ⟨⟨awaited, line, phase, places⟩, buckets, runs⟩ := awaits
  cases goesOn_of_step turn with
  | polled phase' =>
      cases phase.symm.trans phase'
      exact Awaits.pollAt ⟨⟨_, _, phase, places⟩, buckets, runs⟩ visits phase
  | linedUp phase' =>
      cases phase.symm.trans phase'
      exact ⟨⟨_, _, rfl, places⟩, buckets, runs⟩
  | resumed phase' found resumes =>
      obtain ⟨bucket', line', now⟩ := still
      cases (resumeAll_eq _ resumes).2.1.symm.trans now
  | advanced phase' | released phase' | passed phase' | taken phase' | fetching phase'
  | fetched phase' => cases phase.symm.trans phase'

theorem Course.awaits (course : first.Course passed last)
    (phase : first.phase = .awaiting (bucket.map .waiting) [])
    (all : ∀ schedule ∈ passed, schedule.IsAwaiting) (still : last.IsAwaiting) :
    first.Awaits bucket last := by
  induction course with
  | start => exact awaits_start phase
  | @step passed middle last course turn ih =>
      have here := all middle (List.mem_append_right _ (List.mem_singleton_self _))
      have before := ih (fun schedule mem => all schedule (List.mem_append_left _ mem)) here
      exact before.step course.visits turn still

/-! ### Resumption -/

theorem answers_eq {awaited : List (Awaited σ)} :
    ∀ {answers : List (Nat × Step σ × Resumption σ)}, answers? awaited = some answers →
      awaited = answers.map fun entry => .answered entry.1 entry.2.1 entry.2.2 := by
  induction awaited with
  | nil =>
      intro answers all
      injection all with all
      subst all
      rfl
  | cons one rest ih =>
      intro answers all
      cases one with
      | waiting parked => cases all
      | answered owner step answer =>
          obtain ⟨behind, found, rfl⟩ := Option.map_eq_some_iff.mp all
          rw [ih found]
          rfl

/-- Steps that all take their answers are all resumed. -/
theorem resumeAll_of_ok : ∀ (answers : List (Nat × Step σ × Resumption σ)) (schedule : Schedule σ),
    (∀ entry ∈ answers, ∃ step, entry.2.1.resume entry.2.2 = .ok step) →
    ∃ next, schedule.resumeAll answers = .again next := by
  intro answers
  induction answers with
  | nil => exact fun schedule _ => ⟨_, rfl⟩
  | cons entry rest ih =>
      intro schedule all
      obtain ⟨owner, step, answer⟩ := entry
      obtain ⟨step', resumed⟩ := all _ List.mem_cons_self
      rw [resumeAll_of_resume resumed]
      exact ih _ fun entry mem => all entry (List.mem_cons_of_mem _ mem)

/-! ### Steps that take their answers -/

/-- Every step in a bucket takes whatever it may be answered. -/
def Expectant (schedule : Schedule σ) : Prop :=
  ∀ parked ∈ schedule.buckets.flatMap (·.2), parked.step.Expects parked.wait

theorem Expectant.place (expectant : schedule.Expectant) (owner : Nat) {progress : Progress σ}
    {asking : Bool} (fits : progress.Fits asking) : (schedule.place owner progress).Expectant := by
  cases progress with
  | again step => exact expectant
  | finished => exact expectant
  | parked step depth wait =>
      intro parked mem
      rcases List.mem_cons.mp ((Buckets.park_perm _ depth _).mem_iff.mp mem) with rfl | mem
      · exact fits.2.1
      · exact expectant parked mem

theorem Expectant.step (expectant : schedule.Expectant) (turn : schedule.step = .again next) :
    next.Expectant := by
  have aside {other : Schedule σ} (same : other.buckets = schedule.buckets) : other.Expectant := by
    unfold Expectant
    rw [same]
    exact expectant
  cases goesOn_of_step turn with
  | @advanced owner job run step ready progress s phase here first gives =>
      have moved : ({ schedule with world := s.world }.modifyRun owner fun _ => s.run).Expectant :=
        aside rfl
      exact moved.place owner (Step.advance_fits gives)
  | taken phase none_left first =>
      intro parked mem
      refine expectant parked ?_
      rw [first]
      exact List.mem_append_right _ mem
  | released | passed | fetching | fetched | linedUp => exact aside rfl
  | polled => exact aside (buckets_pollAt _ _ _)
  | resumed phase found resumes => exact aside (resumeAll_eq _ resumes).2.2.1

theorem Visits.expectant (visits : first.Visits last) (expectant : first.Expectant) :
    last.Expectant := by
  induction visits with
  | start => exact expectant
  | step _ turn ih => exact ih.step turn

/-- Every step that is parked or taken up takes its answer. -/
structure Receptive (schedule : Schedule σ) : Prop where
  expectant : schedule.Expectant
  entries : ∀ awaited ∈ schedule.phase.entries, awaited.Takes

theorem receptive_new (runs : List (Job σ × Run σ)) (world : World σ) (nonblocking : Bool) :
    (Schedule.new runs world nonblocking).Receptive :=
  ⟨fun _ mem => absurd mem List.not_mem_nil, fun _ mem => absurd mem List.not_mem_nil⟩

theorem Receptive.step (receptive : schedule.Receptive) (turn : schedule.step = .again next) :
    next.Receptive := by
  refine ⟨receptive.expectant.step turn, ?_⟩
  have kept := receptive.entries
  have nothing {owner : Nat} {phase : Phase σ} (drains : phase = .draining owner) :
      ∀ awaited ∈ phase.entries, awaited.Takes := by
    rw [drains]
    exact fun _ mem => absurd mem List.not_mem_nil
  cases goesOn_of_step turn with
  | @advanced _ _ _ _ _ progress _ phase => cases progress <;> exact nothing phase
  | released phase => exact nothing phase
  | passed => exact nothing rfl
  | taken phase none_left first =>
      intro awaited mem
      obtain ⟨parked, member, rfl⟩ := List.mem_map.mp mem
      refine receptive.expectant parked ?_
      rw [first]
      exact List.mem_append_left _ member
  | fetching phase | fetched phase | linedUp phase =>
      rw [phase] at kept
      exact kept
  | @polled bucket place line phase =>
      rw [phase] at kept
      rcases schedule.pollAt_cases bucket place line with
        ⟨parked, front, back, line', -, rfl, same⟩ | ⟨-, same⟩
      · rw [same]
        intro awaited mem
        rcases List.mem_append.mp mem with before | mem
        · exact kept awaited (List.mem_append_left _ before)
        · rcases List.mem_cons.mp mem with rfl | behind
          · have expects := kept _ (List.mem_append_right _ List.mem_cons_self)
            exact (poll_continues schedule parked).takes expects
          · exact kept awaited (List.mem_append_right _ (List.mem_cons_of_mem _ behind))
      · rw [same]
        exact kept
  | resumed phase found resumes => exact nothing (resumeAll_eq _ resumes).2.1

theorem Visits.receptive (visits : first.Visits last) (receptive : first.Receptive) :
    last.Receptive := by
  induction visits with
  | start => exact receptive
  | step _ turn ih => exact ih.step turn

/-- Nothing but a transition of a ready step ends a schedule with a fatal error. -/
theorem Receptive.failed (receptive : schedule.Receptive) {error : FatalError}
    (turn : schedule.step = .failed error last) :
    ∃ owner job run step ready, schedule.phase = .draining owner ∧
      schedule.runs[owner]? = some (job, run) ∧ run.ready = step :: ready ∧
      schedule.advance owner job { run with ready } step = .failed error last := by
  refine (step_failed turn).resolve_right ?_
  rintro ⟨bucket, answers, phase, found, fails⟩
  have kept := receptive.entries
  rw [phase, answers_eq found] at kept
  obtain ⟨next, resumes⟩ := resumeAll_of_ok answers schedule fun entry mem =>
    kept _ (List.mem_map_of_mem mem)
  cases fails.symm.trans resumes

/-- The steps of a bucket are resumed: each with the answer to what it waited for, in the order in
which they were parked, those of each run behind what is ready of it. -/
structure Resumes (first : Schedule σ) (bucket : List (ParkedStep σ))
    (answers : List (Nat × Step σ × Resumption σ)) (next : Schedule σ) : Prop where
  answered : List.Forall₂ (fun parked entry => entry.1 = parked.owner ∧ entry.2.1 = parked.step ∧
    first.Becomes parked (.answered entry.1 entry.2.1 entry.2.2)) bucket answers
  ready : ∀ (owner : Nat) (job : Job σ) (run : Run σ), first.runs[owner]? = some (job, run) →
    ∃ steps run', next.runs[owner]? = some (job, run') ∧ run'.ready = run.ready ++ steps ∧
      run'.held = run.held ∧ run'.parked = run.parked - (own owner answers).length ∧
      List.Forall₂ (fun entry step => entry.1.resume entry.2 = .ok step) (own owner answers) steps
  phase : next.phase = .draining 0

/-- A bucket is awaited until its steps are resumed. -/
theorem Awaits.goes_on (awaits : first.Awaits bucket schedule)
    (expects : ∀ parked ∈ bucket, parked.step.Expects parked.wait) :
    ∃ next, schedule.step = .again next ∧
      (next.IsAwaiting ∨ ∃ answers, first.Resumes bucket answers next) := by
  obtain ⟨⟨awaited, line, phase, places⟩, buckets, runs⟩ := awaits
  cases line with
  | cons place line =>
      refine ⟨_, step_poll phase, .inl ?_⟩
      rcases schedule.pollAt_cases awaited place line with ⟨_, _, _, _, -, -, same⟩ | ⟨-, same⟩
      · exact ⟨_, _, congrArg Schedule.phase same⟩
      · exact ⟨_, _, congrArg Schedule.phase same⟩
  | nil =>
      cases found : answers? awaited with
      | none => exact ⟨_, step_line_up phase found, .inl ⟨_, _, rfl⟩⟩
      | some answers =>
          obtain rfl := answers_eq found
          have answered : List.Forall₂ (fun parked entry => entry.1 = parked.owner ∧
              entry.2.1 = parked.step ∧
              first.Becomes parked (.answered entry.1 entry.2.1 entry.2.2)) bucket answers := by
            refine (List.forall₂_map_right_iff.mp places).imp fun parked entry becomes => ?_
            obtain ⟨owner, step, -⟩ := becomes.continues
            exact ⟨owner, step, becomes⟩
          obtain ⟨next, turn⟩ := resumeAll_of_ok answers schedule fun entry mem => by
            obtain ⟨i, bound, rfl⟩ := List.getElem_of_mem mem
            have bound' : i < bucket.length := answered.length_eq ▸ bound
            obtain ⟨-, step, becomes⟩ := answered.get bound' bound
            obtain ⟨-, -, admits⟩ := becomes.continues
            have takes := expects bucket[i] (List.getElem_mem bound')
            exact (show (answers.get ⟨i, bound⟩).2.1 = _ from step) ▸ takes _ admits
          refine ⟨next, (step_resume phase found).trans turn, .inr ⟨answers, answered,
            fun owner job run here => ?_, (resumeAll_eq _ turn).2.1⟩⟩
          obtain ⟨run', there, rests⟩ := runs owner job run here
          obtain ⟨steps, there', resumed⟩ := resumeAll_run answers turn there
          refine ⟨steps, _, there', ?_, rests.held, ?_, resumed⟩
          · show run'.ready ++ steps = _
            rw [rests.ready]
          · show run'.parked - _ = _
            rw [rests.parked]

end Schedule

end GraphExec
