import GraphExec.Proofs.Pure.Transits

/-!
# A run by itself

What a run of a schedule does, it does by itself as well: a schedule of that run alone comes to the
same, step by step. It stands still while other runs go on, and until the steps of the run are
resumed that are taken up.
-/

namespace GraphExec

variable {σ : Type} {loads : Loads} {job : Job σ}

/-- A run that has taken up what a transition of a step has come to. -/
def Run.placed (run : Run σ) : Progress σ → Run σ
  | .again step => { run with ready := step :: run.ready }
  | .finished => run
  | .parked _ _ _ => { run with parked := run.parked + 1 }

theorem Alike.placed {good : ArgumentKey → ArgumentsResult → Prop} {s t : Stage σ}
    (alike : Alike loads good job s t) {progress : Progress σ}
    (pure : progress.Pure loads good job) :
    Alike loads good job { s with run := s.run.placed progress }
      { t with run := t.run.placed progress } := by
  refine alike.modify (f := (·.placed progress)) (fun run arguments => ?_) fun step mem => ?_
  · cases progress <;> rfl
  · cases progress with
    | again next =>
        rcases List.mem_cons.mp mem with rfl | mem
        · exact pure
        · exact alike.steps step mem
    | finished => exact alike.steps step mem
    | parked next depth wait => exact alike.steps step mem

namespace Schedule

variable {many alone schedule next first last : Schedule σ} {owner owner' : Nat}
  {before before' run run' : Run σ} {taken : List (ParkedStep σ)}

/-! ### Ends -/

/-- A schedule comes to its end from wherever it has got. -/
theorem Visits.run? (visits : first.Visits schedule) {fuel : Nat}
    {out : Except FatalError Unit × Schedule σ} (ran : Schedule.run? fuel first = some out) :
    ∃ fuel, Schedule.run? fuel schedule = some out := by
  induction visits with
  | start => exact ⟨fuel, ran⟩
  | step _ turn ih =>
      obtain ⟨fuel, ran⟩ := ih
      cases fuel with
      | zero => cases ran
      | succ fuel =>
          rw [Schedule.run?, turn] at ran
          exact ⟨fuel, ran⟩

/-! ### Steps of a run that are taken up in two schedules -/

/-- Where the steps of a run have been answered in both of two schedules, the bags of the run come to
the same. -/
theorem Transit.meets {good : ArgumentKey → ArgumentsResult → Prop}
    (transit : many.Transit loads job taken before owner run)
    (transit' : alone.Transit loads job taken before' owner' run')
    (twins : ∀ key, Twins loads (good key) (before.arguments.get? key) (before'.arguments.get? key))
    (ready : ∀ parked ∈ taken, ∀ key, parked.wait = .arguments key →
      run.arguments.IsReady key ∧ run'.arguments.IsReady key) (state : σ) (key : ArgumentKey) :
    Twins loads (good key) (run.arguments.get? key) (run'.arguments.get? key) := by
  by_cases waits : ∃ parked ∈ taken, parked.wait = .arguments key
  · obtain ⟨parked, mem, same⟩ := waits
    obtain ⟨⟨result, there⟩, result', there'⟩ := ready parked mem key same
    have one : Twins loads (before.arguments.ComesTo loads key) (run.arguments.get? key)
      (run.arguments.get? key) := transit.alike.bags key
    have two : Twins loads (before'.arguments.ComesTo loads key) (run'.arguments.get? key)
      (run'.arguments.get? key) := transit'.alike.bags key
    rw [there] at one ⊢
    rw [there'] at two ⊢
    cases one with
    | ready comes =>
        cases two with
        | ready comes' =>
            obtain ⟨rfl, fine⟩ := ArgumentStore.ComesTo.unique (twins key) comes comes' state
            exact .ready fine
  · push Not at waits
    rw [transit.others key waits, transit'.others key waits]
    exact twins key

/-! ### Mirrors -/

/-- How a schedule of one run mirrors a run of another schedule: its run is as the other one was when
its steps were taken up that are taken up, and it has parked these steps and those that the other one
has parked. -/
structure Mirrors (loads : Loads) (job : Job σ) (owner : Nat) (taken : List (ParkedStep σ))
    (before run run' : Run σ) (many alone : Schedule σ) : Prop where
  phase : alone.phase = .draining 0
  length : alone.runs.length = 1
  there : alone.runs[0]? = some (job, run')
  single : Buckets.partOf 0 taken = taken
  ordered : many.buckets.Ordered
  transit : many.Transit loads job taken before owner run
  alike : Alike loads (job.Tells loads) job ⟨before, many.world⟩ ⟨run', alone.world⟩
  buckets : ∃ depth, alone.buckets = Buckets.shelve depth taken ++ many.buckets.part owner

/-- A schedule of one run mirrors a run of another schedule. -/
def Mirrored (loads : Loads) (job : Job σ) (owner : Nat) (many alone : Schedule σ) : Prop :=
  ∃ taken before run run', Mirrors loads job owner taken before run run' many alone

/-- A run of which no step is taken up is mirrored by one that is alike. -/
theorem mirrored_of_rest (pure : many.Pure loads) (here : many.runs[owner]? = some (job, run))
    (nothing : many.phase.entriesOf owner = []) (ordered : many.buckets.Ordered)
    (phase : alone.phase = .draining 0) (length : alone.runs.length = 1)
    (there : alone.runs[0]? = some (job, run'))
    (alike : Alike loads (job.Tells loads) job ⟨run, many.world⟩ ⟨run', alone.world⟩)
    (buckets : alone.buckets = many.buckets.part owner) : Mirrored loads job owner many alone :=
  ⟨[], run, run, run', phase, length, there, rfl, ordered, pure.rests here nothing, alike, 0, buckets⟩

/-! ### What a step has come to -/

theorem advance_ok {step : Step σ} {progress : Progress σ} {s : Stage σ}
    (gives : (step.advance job).runAt ⟨run, schedule.world⟩ = (.ok progress, s)) :
    schedule.advance owner job run step =
      .again (({ schedule with world := s.world }.modifyRun owner fun _ => s.run).place owner
        progress) := by
  have gives : (step.advance job).run.run ⟨run, schedule.world⟩ = (.ok progress, s) := gives
  unfold Schedule.advance
  rw [gives]

theorem advance_error {step : Step σ} {error : FatalError} {s : Stage σ}
    (gives : (step.advance job).runAt ⟨run, schedule.world⟩ = (.error error, s)) :
    schedule.advance owner job run step =
      .failed error ({ schedule with world := s.world }.modifyRun owner fun _ => s.run) := by
  have gives : (step.advance job).run.run ⟨run, schedule.world⟩ = (.error error, s) := gives
  unfold Schedule.advance
  rw [gives]

theorem getElem?_place (here : schedule.runs[owner]? = some (job, run)) (progress : Progress σ) :
    (schedule.place owner progress).runs[owner]? = some (job, run.placed progress) := by
  cases progress with
  | again step => simp [place, getElem?_modifyRun, here, Run.placed]
  | finished => exact here
  | parked step depth wait => simp [place, getElem?_modifyRun, here, Run.placed]

@[simp] theorem phase_place (schedule : Schedule σ) (owner : Nat) (progress : Progress σ) :
    (schedule.place owner progress).phase = schedule.phase := by
  cases progress <;> rfl

@[simp] theorem world_place (schedule : Schedule σ) (owner : Nat) (progress : Progress σ) :
    (schedule.place owner progress).world = schedule.world := by
  cases progress <;> rfl

theorem ordered_place (ordered : schedule.buckets.Ordered) (owner : Nat) (progress : Progress σ) :
    (schedule.place owner progress).buckets.Ordered := by
  cases progress with
  | again step => exact ordered
  | finished => exact ordered
  | parked step depth wait => exact ordered.park depth _

theorem part_place_other (differs : owner' ≠ owner) (progress : Progress σ) :
    (schedule.place owner' progress).buckets.part owner = schedule.buckets.part owner := by
  cases progress with
  | again step => rfl
  | finished => rfl
  | parked step depth wait => exact Buckets.part_park_other _ depth differs

theorem part_place_own (ordered : many.buckets.Ordered)
    (same : alone.buckets = many.buckets.part owner) (progress : Progress σ) :
    (alone.place 0 progress).buckets = (many.place owner progress).buckets.part owner := by
  cases progress with
  | again step => exact same
  | finished => exact same
  | parked step depth wait =>
      have parked : (many.buckets.park depth ⟨owner, step, wait⟩).part owner =
        (many.buckets.part owner).park depth ⟨0, step, wait⟩ := ordered.part_park depth rfl
      exact (congrArg (Buckets.park · depth ⟨0, step, wait⟩) same).trans parked.symm

/-! ### Steps of a mirror -/

/-- While no step of a run is taken up, its mirror is alike. -/
theorem Mirrors.resting (mirrors : Mirrors loads job owner [] before run run' many alone) :
    Alike loads (job.Tells loads) job ⟨run, many.world⟩ ⟨run', alone.world⟩ ∧
      alone.buckets = many.buckets.part owner := by
  obtain ⟨-, -, -, -, -, transit, alike, depth, buckets⟩ := mirrors
  refine ⟨⟨?_, alike.here, alike.there, fun key => ?_, transit.alike.steps⟩, buckets⟩
  · have same : before = { run' with arguments := before.arguments } := alike.same
    calc
      run = { before with arguments := run.arguments } := transit.same
      _ = { run' with arguments := run.arguments } := by rw [same]
  · show Twins loads _ (run.arguments.get? key) (run'.arguments.get? key)
    rw [transit.others key fun _ mem => absurd mem List.not_mem_nil]
    exact alike.bags key

/-- A transition of the first ready step of a run is mirrored. -/
theorem Mirrors.advance (mirrors : Mirrors loads job owner [] before run run' many alone)
    (pure : many.Pure loads) (phase : many.phase = .draining owner) {step : Step σ}
    {ready : List (Step σ)} (first : run.ready = step :: ready) :
    (∀ next, many.step = .again next → ∃ after, alone.step = .again after ∧
      Mirrored loads job owner next after) ∧
    ∀ error last, many.step = .failed error last → ∃ last', alone.step = .failed error last' := by
  obtain ⟨alike, buckets⟩ := mirrors.resting
  have same : run = { run' with arguments := run.arguments } := alike.same
  have first' : run'.ready = step :: ready := by
    rw [same] at first
    exact first
  have own : step.Pure loads job :=
    alike.steps step (List.mem_append_left _ (first ▸ List.mem_cons_self))
  have fine := pure.fine owner job run mirrors.transit.here
  have picked : Alike loads (job.Tells loads) job ⟨{ run with ready }, many.world⟩
      ⟨{ run' with ready }, alone.world⟩ := by
    refine alike.modify (f := fun run => { run with ready }) (fun _ _ => rfl) fun other mem => ?_
    refine alike.steps other ?_
    rcases List.mem_append.mp mem with mem | mem
    · exact List.mem_append_left _ (first ▸ List.mem_cons_of_mem _ mem)
    · exact List.mem_append_right _ mem
  have agree := Step.agrees_advance fine own _ _ picked
  rw [step_ready phase mirrors.transit.here first, step_ready mirrors.phase mirrors.there first']
  generalize left : (step.advance job).runAt ⟨{ run with ready }, many.world⟩ = one at agree
  generalize right : (step.advance job).runAt ⟨{ run' with ready }, alone.world⟩ = two at agree
  cases agree with
  | error error s t =>
      rw [advance_error left, advance_error right]
      refine ⟨nofun, fun other last same => ?_⟩
      injection same with same
      subst same
      exact ⟨_, rfl⟩
  | @ok progress s t progress_pure after =>
      rw [advance_ok left, advance_ok right]
      refine ⟨fun next same => ⟨_, rfl, ?_⟩, nofun⟩
      injection same with same
      have goes : many.step = .again next := by
        rw [step_ready phase mirrors.transit.here first, advance_ok left, same]
      have next_pure := pure.step goes
      subst same
      let many' : Schedule σ := { many with world := s.world }.modifyRun owner fun _ => s.run
      let alone' : Schedule σ := { alone with world := t.world }.modifyRun 0 fun _ => t.run
      have here : many'.runs[owner]? = some (job, s.run) := by
        simp [many', getElem?_modifyRun, mirrors.transit.here]
      have there : alone'.runs[0]? = some (job, t.run) := by
        simp [alone', getElem?_modifyRun, mirrors.there]
      have ordered : many'.buckets.Ordered := mirrors.ordered
      have same : alone'.buckets = many'.buckets.part owner := buckets
      have nothing : many.phase.entriesOf owner = [] := by
        rw [phase]
        rfl
      refine mirrored_of_rest next_pure (getElem?_place here progress) ?_ ?_ ?_ ?_
        (getElem?_place there progress) ?_ ?_
      · rw [phase_place]
        exact nothing
      · exact ordered_place ordered owner progress
      · rw [phase_place]
        exact mirrors.phase
      · exact (keeps_place _ (by simp [mirrors.length]) progress).length.trans
          ((length_modifyRun _ _ _).trans mirrors.length)
      · rw [world_place, world_place]
        exact after.placed progress_pure
      · exact part_place_own ordered same progress

/-- The mirror of a run of which no step is taken up goes along with a schedule that drains. -/
theorem Mirrors.drain (mirrors : Mirrors loads job owner [] before run run' many alone)
    (pure : many.Pure loads) {turn : Nat} (phase : many.phase = .draining turn)
    (goes : many.step = .again next) :
    ∃ after, alone.Visits after ∧ Mirrored loads job owner next after := by
  obtain ⟨alike, buckets⟩ := mirrors.resting
  have here := mirrors.transit.here
  have next_pure := pure.step goes
  have nothing : many.phase.entriesOf owner = [] := by
    rw [phase]
    rfl
  have around : Alike loads (job.Tells loads) job ⟨run, next.world⟩ ⟨run', alone.world⟩ :=
    ⟨alike.same, next_pure.world, alike.there, alike.bags, alike.steps⟩
  -- The mirror stands still unless something is done for its own run.
  have still (runs : next.runs[owner]? = many.runs[owner]?)
      (same : next.phase.entriesOf owner = []) (ordered : next.buckets.Ordered)
      (kept : next.buckets.part owner = many.buckets.part owner) :
      ∃ after, alone.Visits after ∧ Mirrored loads job owner next after :=
    ⟨alone, .start, mirrored_of_rest next_pure (runs.trans here) same ordered mirrors.phase
      mirrors.length mirrors.there around (buckets.trans kept.symm)⟩
  cases goesOn_of_step goes with
  | @advanced other job' run₁ step ready progress s phase' found first gives =>
      cases phase.symm.trans phase'
      by_cases own : turn = owner
      · subst own
        obtain ⟨rfl, rfl⟩ := Prod.mk.inj (Option.some.inj (here.symm.trans found))
        obtain ⟨after, turn', mirrored⟩ := (mirrors.advance pure phase first).1 _ goes
        exact ⟨after, .step .start turn', mirrored⟩
      · have steps : many.advance turn job' { run₁ with ready } step = .again _ :=
          advance_of_gives gives
        obtain ⟨runs, -, same_phase⟩ := advance_aside own steps
        let moved : Schedule σ := { many with world := s.world }.modifyRun turn fun _ => s.run
        have ordered : moved.buckets.Ordered := mirrors.ordered
        refine still runs ?_ (ordered_place ordered turn progress) ?_
        · rw [same_phase]
          exact nothing
        · have kept : (moved.place turn progress).buckets.part owner = moved.buckets.part owner :=
            part_place_other own progress
          exact kept
  | @released other job' run₁ step held phase' found idle first none_parked =>
      cases phase.symm.trans phase'
      by_cases own : turn = owner
      · subst own
        obtain ⟨rfl, rfl⟩ := Prod.mk.inj (Option.some.inj (here.symm.trans found))
        have same : run = { run' with arguments := run.arguments } := alike.same
        have before : run'.ready = [] ∧ run'.held = step :: held ∧ run'.parked = 0 := by
          rw [same] at idle first none_parked
          exact ⟨idle, first, none_parked⟩
        have released := step_release mirrors.phase mirrors.there before.1 before.2.1 before.2.2
        have cleared : Alike loads (job.Tells loads) job ⟨run, many.world.clearCache⟩
            ⟨run', alone.world.clearCache⟩ :=
          ⟨alike.same, alike.here.clearCache, alike.there.clearCache, alike.bags, alike.steps⟩
        have after := cleared.modify (f := fun run => { run with ready := [step], held })
          (fun _ _ => rfl) fun other mem => alike.steps other (by rw [idle, first]; exact mem)
        refine ⟨_, .step .start released, mirrored_of_rest next_pure ?_ nothing mirrors.ordered
          mirrors.phase ?_ ?_ after buckets⟩
        · simp [getElem?_modifyRun, here]
        · simp [mirrors.length]
        · simp [getElem?_modifyRun, mirrors.there]
      · refine still ?_ nothing mirrors.ordered rfl
        simp [getElem?_modifyRun, own]
  | passed phase' => exact still rfl rfl mirrors.ordered rfl
  | @taken _ depth bucket rest phase' none_left first =>
      have ordered := mirrors.ordered
      rw [first] at ordered
      rw [first, Buckets.part_cons] at buckets
      exact ⟨alone, .start, Buckets.partOf owner bucket, run, run, run', mirrors.phase,
        mirrors.length, mirrors.there, Buckets.partOf_partOf owner bucket,
        (List.pairwise_cons.mp ordered).2, next_pure.transit here rfl, around, depth, buckets⟩
  | fetching phase' | fetched phase' | polled phase' | linedUp phase' | resumed phase' =>
      cases phase.symm.trans phase'

/-! ### Steps that are taken up -/

/-- A run of which steps are taken up has nothing else to do. -/
theorem Pure.idle (pure : many.Pure loads) (here : many.runs[owner]? = some (job, run))
    (busy : many.Busy) : run.ready = [] ∧ (run.held = [] ∨ run.parked ≠ 0) := by
  obtain ⟨weave, shares, -⟩ := pure.runs owner job run here
  obtain ⟨-, rfl⟩ := shares.same_run here
  exact shares.idle fun turn phase => absurd phase (busy turn)

/-- The mirror takes up its own steps, and they come to be answered. -/
theorem Mirrors.catch_up (mirrors : Mirrors loads job owner taken before run run' many alone)
    (pure : many.Pure loads) (alone_pure : alone.Pure loads) (busy : many.Busy)
    {fuel : Nat} {out : Except FatalError Unit × Schedule σ}
    (ends : Schedule.run? fuel alone = some out) (some_taken : taken ≠ []) :
    ∃ later run₁ bucket answers, alone.Visits later ∧
      later.Transit loads job taken run' 0 run₁ ∧ later.buckets = many.buckets.part owner ∧
      later.phase = .awaiting bucket [] ∧ answers? bucket = some answers := by
  obtain ⟨depth, buckets⟩ := mirrors.buckets
  have same : before = { run' with arguments := before.arguments } := mirrors.alike.same
  have idle : run'.ready = [] ∧ (run'.held = [] ∨ run'.parked ≠ 0) := by
    have idle := pure.idle mirrors.transit.here busy
    rw [mirrors.transit.same, same] at idle
    exact idle
  have filled : alone.buckets = (depth, taken) :: many.buckets.part owner := by
    rw [buckets]
    cases taken with
    | nil => exact absurd rfl some_taken
    | cons parked rest => rfl
  have none_left : alone.runs[1]? = none :=
    List.getElem?_eq_none_iff.mpr (Nat.le_of_eq mirrors.length)
  have passes := step_pass mirrors.phase mirrors.there idle.1 idle.2
  let waits : Schedule σ := { alone with phase := .draining (0 + 1) }
  have takes : waits.step = _ := step_take rfl none_left filled
  have visits := Visits.step (.step .start passes) takes
  obtain ⟨fuel, ran⟩ := visits.run? ends
  have taken_up := (visits.pure alone_pure).transit mirrors.there rfl
  rw [mirrors.single] at taken_up
  obtain ⟨later, run₁, bucket, answers, onward, transit, kept, phase, found⟩ :=
    taken_up.ends ran (visits.pure alone_pure) nofun
  exact ⟨later, run₁, bucket, answers, visits.trans onward, transit, kept, phase, found⟩

/-- A schedule whose steps in a bucket have all been answered resumes them. -/
theorem Receptive.resumes (receptive : schedule.Receptive) {bucket : List (Awaited σ)}
    {answers : List (Nat × Step σ × Resumption σ)} (phase : schedule.phase = .awaiting bucket [])
    (found : answers? bucket = some answers) :
    schedule.step = schedule.resumeAll answers ∧
      ∃ next, schedule.resumeAll answers = .again next := by
  have turn : schedule.step = schedule.resumeAll answers := by
    simp only [Schedule.step, phase, Schedule.await, found]
  refine ⟨turn, ?_⟩
  cases resumed : schedule.resumeAll answers with
  | again next => exact ⟨next, rfl⟩
  | finished last => exact absurd resumed (resumeAll_goes_on _ _)
  | failed error last =>
      obtain ⟨owner, job, run, step, ready, draining, -⟩ := receptive.failed (turn.trans resumed)
      rw [phase] at draining
      cases draining

/-- Steps that are resumed with the same answers go on as the same. -/
theorem resumed_agree {answers : List (Step σ × Resumption σ)} {steps steps' : List (Step σ)}
    (one : List.Forall₂ (fun entry step => entry.1.resume entry.2 = .ok step) answers steps)
    (two : List.Forall₂ (fun entry step => entry.1.resume entry.2 = .ok step) answers steps') :
    steps = steps' := by
  induction one generalizing steps' with
  | nil =>
      cases two
      rfl
  | cons first _ ih =>
      cases two with
      | cons first' rest' =>
          rw [ih rest']
          exact congrArg (· :: _) (Except.ok.inj (first.symm.trans first'))

/-- The mirror of a run resumes its own steps when the steps of the bucket are resumed. -/
theorem Mirrors.resume (mirrors : Mirrors loads job owner taken before run run' many alone)
    (pure : many.Pure loads) (alone_pure : alone.Pure loads) (receptive : alone.Receptive)
    (busy : many.Busy) {bucket : List (Awaited σ)} {answers : List (Nat × Step σ × Resumption σ)}
    (phase : many.phase = .awaiting bucket []) (found : answers? bucket = some answers)
    (goes : many.step = .again next) {fuel : Nat} {out : Except FatalError Unit × Schedule σ}
    (ends : Schedule.run? fuel alone = some out) :
    ∃ after, alone.Visits after ∧ Mirrored loads job owner next after := by
  have next_pure := pure.step goes
  have resumes : many.resumeAll answers = .again next := by
    simp only [Schedule.step, phase, Schedule.await, found] at goes
    exact goes
  obtain ⟨world, drains, kept, -⟩ := resumeAll_eq answers resumes
  obtain ⟨steps, here, resumed⟩ := resumeAll_run answers resumes mirrors.transit.here
  have answered := mirrors.transit.answered phase found
  have ordered : next.buckets.Ordered := kept ▸ mirrors.ordered
  have nothing : next.phase.entriesOf owner = [] := by
    rw [drains]
    rfl
  by_cases some_taken : taken = []
  · subst some_taken
    -- None of the steps that are resumed is one of the run.
    obtain ⟨alike, buckets⟩ := mirrors.resting
    generalize own owner answers = entries at here resumed answered
    cases answered
    cases resumed
    rw [List.append_nil] at here
    have around : Alike loads (job.Tells loads) job ⟨run, next.world⟩ ⟨run', alone.world⟩ :=
      ⟨alike.same, next_pure.world, alike.there, alike.bags, alike.steps⟩
    exact ⟨alone, .start, mirrored_of_rest next_pure here nothing ordered mirrors.phase
      mirrors.length mirrors.there around (by rw [kept]; exact buckets)⟩
  · obtain ⟨later, run₁, bucket', answers', visits, transit, left, phase', found'⟩ :=
      mirrors.catch_up pure alone_pure busy ends some_taken
    have answered' := transit.answered phase' found'
    have agree : own owner answers = own 0 answers' :=
      answers_agree (fun key a b one two =>
        (ArgumentStore.ComesTo.unique (mirrors.alike.bags key) one two many.world.app).1)
        many.world.app answered answered'
    obtain ⟨turn', after, resumes'⟩ := (visits.receptive receptive).resumes phase' found'
    have visits' := visits.step (turn'.trans resumes')
    obtain ⟨-, drains', kept', length'⟩ := resumeAll_eq answers' resumes'
    obtain ⟨steps', there, resumed'⟩ := resumeAll_run answers' resumes' transit.here
    rw [← agree] at there resumed'
    obtain rfl := resumed_agree resumed resumed'
    refine ⟨after, visits', mirrored_of_rest next_pure here nothing ordered drains'
      (length'.trans (visits.length.trans mirrors.length)) there ⟨?_, next_pure.world,
        (visits'.pure alone_pure).world, ?_, (next_pure.alike here).steps⟩
      (kept'.trans (left.trans (by rw [kept])))⟩
    · have same : before = { run' with arguments := before.arguments } := mirrors.alike.same
      show ({ run with
          parked := run.parked - (own owner answers).length
          ready := run.ready ++ steps } : Run σ) =
        { run₁ with
          parked := run₁.parked - (own owner answers).length
          ready := run₁.ready ++ steps
          arguments := run.arguments }
      rw [mirrors.transit.same, same, transit.same]
    · refine fun key => mirrors.transit.meets transit mirrors.alike.bags (fun parked mem key waits => ?_)
        many.world.app key
      obtain ⟨place, bound, rfl⟩ := List.getElem_of_mem mem
      have bound₁ : place < (own owner answers).length := answered.length_eq ▸ bound
      have bound₂ : place < (own 0 answers').length := answered'.length_eq ▸ bound
      exact ⟨(answered.get bound bound₁).2.2 key waits, (answered'.get bound bound₂).2.2 key waits⟩

/-- The mirror of a run goes along with its schedule. -/
theorem Mirrors.step (mirrors : Mirrors loads job owner taken before run run' many alone)
    (pure : many.Pure loads) (alone_pure : alone.Pure loads) (receptive : alone.Receptive)
    (goes : many.step = .again next) {fuel : Nat} {out : Except FatalError Unit × Schedule σ}
    (ends : Schedule.run? fuel alone = some out) :
    ∃ after, alone.Visits after ∧ Mirrored loads job owner next after := by
  by_cases drains : ∃ turn, many.phase = .draining turn
  · obtain ⟨turn, phase⟩ := drains
    have entries := mirrors.transit.entries
    rw [phase] at entries
    cases entries
    exact mirrors.drain pure phase goes
  · have busy : many.Busy := fun turn phase => drains ⟨turn, phase⟩
    rcases busy.goes_on with ⟨next', goes', still⟩ | ⟨bucket, answers, phase, found⟩
    · obtain rfl : next = next' := by
        rw [goes] at goes'
        injection goes'
      have next_pure := pure.step goes
      obtain ⟨⟨run₁, transit⟩, kept⟩ := mirrors.transit.step pure busy goes still
      have alike := mirrors.alike
      exact ⟨alone, .start, taken, before, run₁, run', mirrors.phase, mirrors.length, mirrors.there,
        mirrors.single, kept ▸ mirrors.ordered, transit,
        ⟨alike.same, next_pure.world, alike.there, alike.bags, alike.steps⟩,
        kept ▸ mirrors.buckets⟩
    · exact mirrors.resume pure alone_pure receptive busy phase found goes ends

/-! ### Whole schedules -/

/-- A run that has not been begun is mirrored by itself, whatever surrounds it. -/
theorem mirrored_new {runs : List (Job σ × Run σ)} {world world' : World σ} {nonblocking : Bool}
    (pure : (Schedule.new runs world nonblocking).Pure loads)
    (here : runs[owner]? = some (job, run)) (keywise : world'.Keywise loads) (nonblocking' : Bool) :
    Mirrored loads job owner (.new runs world nonblocking) (.new [(job, run)] world' nonblocking') := by
  have alike := pure.alike here
  exact mirrored_of_rest pure here rfl .nil rfl rfl rfl
    ⟨alike.same, pure.world, keywise, alike.bags, alike.steps⟩ rfl

/-- Wherever a schedule gets, the mirrors of its runs get as well. -/
theorem Mirrored.visits (mirrored : Mirrored loads job owner first alone) (visits : first.Visits many)
    (pure : first.Pure loads) (alone_pure : alone.Pure loads) (receptive : alone.Receptive)
    {fuel : Nat} {out : Except FatalError Unit × Schedule σ}
    (ends : Schedule.run? fuel alone = some out) :
    ∃ after, alone.Visits after ∧ Mirrored loads job owner many after := by
  induction visits with
  | start => exact ⟨alone, .start, mirrored⟩
  | step visits turn ih =>
      obtain ⟨middle, before, taken, start, run, run', mirrors⟩ := ih
      obtain ⟨fuel, ran⟩ := before.run? ends
      obtain ⟨after, onward, mirrored⟩ := mirrors.step (visits.pure pure) (before.pure alone_pure)
        (before.receptive receptive) turn ran
      exact ⟨after, before.trans onward, mirrored⟩

/-- When a schedule has ended, the mirror of a run has nothing left to do, and shows the same. -/
theorem Mirrored.finished (mirrored : Mirrored loads job owner many alone) (pure : many.Pure loads)
    (turn : many.step = .finished last) :
    ∃ run later last' run', last.runs[owner]? = some (job, run) ∧ alone.Visits later ∧
      later.step = .finished last' ∧ last'.runs = [(job, run')] ∧ run.response = run'.response := by
  obtain ⟨taken, before, run, run', mirrors⟩ := mirrored
  obtain ⟨rfl, none_parked, next, phase, none_left⟩ := step_finished turn
  have entries := mirrors.transit.entries
  rw [phase] at entries
  cases entries
  obtain ⟨alike, buckets⟩ := mirrors.resting
  have here := mirrors.transit.here
  have same : run = { run' with arguments := run.arguments } := alike.same
  obtain ⟨weave, shares, -⟩ := pure.runs owner job run here
  obtain ⟨⟨idle, none_held, -⟩, last_run⟩ := shares.finished turn
  obtain ⟨-, rfl⟩ := shares.same_run here
  have before : run'.ready = [] ∧ (run'.held = [] ∨ run'.parked ≠ 0) := by
    rw [same] at idle none_held
    exact ⟨idle, .inl none_held⟩
  have passes := step_pass mirrors.phase mirrors.there before.1 before.2
  have beyond : alone.runs[0 + 1]? = none :=
    List.getElem?_eq_none_iff.mpr (Nat.le_of_eq mirrors.length)
  have emptied : alone.buckets = [] := by
    rw [buckets, none_parked]
    rfl
  let passed : Schedule σ := { alone with phase := .draining (0 + 1) }
  have done : passed.step = .finished passed := step_done rfl beyond emptied
  refine ⟨weave.run, passed, passed, run', last_run, .step .start passes, done, ?_, ?_⟩
  · obtain ⟨entry, single⟩ := List.length_eq_one_iff.mp mirrors.length
    have there := mirrors.there
    rw [single] at there
    show alone.runs = _
    rw [single, Option.some.inj there]
  · unfold Run.response
    rw [same]

/-- When a schedule ends with a fatal error, so does the mirror of a run. -/
theorem Receptive.mirrored (receptive : many.Receptive) (pure : many.Pure loads) {error : FatalError}
    (turn : many.step = .failed error last) :
    ∃ (owner : Nat) (job : Job σ) (run : Run σ), many.runs[owner]? = some (job, run) ∧
      ∀ alone, Mirrored loads job owner many alone → ∃ last', alone.step = .failed error last' := by
  obtain ⟨owner, job, run, step, ready, phase, here, first, -⟩ := receptive.failed turn
  refine ⟨owner, job, run, here, fun alone mirrored => ?_⟩
  obtain ⟨taken, before, run₁, run', mirrors⟩ := mirrored
  have entries := mirrors.transit.entries
  rw [phase] at entries
  cases entries
  obtain ⟨-, rfl⟩ := Prod.mk.inj (Option.some.inj (here.symm.trans mirrors.transit.here))
  exact (mirrors.advance pure phase first).2 error last turn

section
variable {runs : List (Job σ × Run σ)} {world world' : World σ} {nonblocking nonblocking' : Bool}
  {fuel fuel' : Nat} {result : Except FatalError Unit}

/-- What a schedule comes to that is run to its end is what its last transition comes to. -/
theorem Visits.run?_eq (visits : first.Visits schedule) {out : Except FatalError Unit × Schedule σ}
    (ran : Schedule.run? fuel first = some out) :
    (schedule.step = .finished last → out = (.ok (), last)) ∧
      ∀ error, schedule.step = .failed error last → out = (.error error, last) := by
  obtain ⟨fuel, ran⟩ := visits.run? ran
  cases fuel with
  | zero => cases ran
  | succ fuel =>
      unfold Schedule.run? at ran
      refine ⟨fun turn => ?_, fun error turn => ?_⟩
      · rw [turn] at ran
        exact (Option.some.inj ran).symm
      · rw [turn] at ran
        exact (Option.some.inj ran).symm

/-- A run that ends together with others ends by itself, and shows the same. -/
theorem alone_of_ok (pure : (Schedule.new runs world nonblocking).Pure loads)
    (ran : run? fuel (.new runs world nonblocking) = some (.ok (), last))
    (here : runs[owner]? = some (job, run))
    (alone_pure : (Schedule.new [(job, run)] world' nonblocking').Pure loads) {alone_last : Schedule σ}
    (ends : run? fuel' (.new [(job, run)] world' nonblocking') = some (result, alone_last)) :
    result = .ok () ∧ ∃ done done', last.runs[owner]? = some (job, done) ∧
      alone_last.runs = [(job, done')] ∧ done.response = done'.response := by
  obtain ⟨many, visits, ⟨-, turn⟩ | ⟨error, wrong, -⟩⟩ := visits_of_run? ran
  swap
  · cases wrong
  have mirrored := mirrored_new pure here alone_pure.world nonblocking'
  obtain ⟨alone, before, mirrored⟩ :=
    mirrored.visits visits pure alone_pure (receptive_new _ _ _) ends
  obtain ⟨done, later, alone_last', done', there, onward, turn', single, same⟩ :=
    mirrored.finished (visits.pure pure) turn
  obtain ⟨rfl, rfl⟩ := Prod.mk.inj (((before.trans onward).run?_eq ends).1 turn')
  exact ⟨rfl, done, done', there, single, same⟩

/-- When runs end together with a fatal error, one of them ends with it by itself. -/
theorem alone_of_error (pure : (Schedule.new runs world nonblocking).Pure loads) {error : FatalError}
    (ran : run? fuel (.new runs world nonblocking) = some (.error error, last)) :
    ∃ (owner : Nat) (job : Job σ) (run : Run σ), runs[owner]? = some (job, run) ∧
      ∀ world' nonblocking' fuel' result alone_last,
        (Schedule.new [(job, run)] world' nonblocking').Pure loads →
        run? fuel' (.new [(job, run)] world' nonblocking') = some (result, alone_last) →
        result = .error error := by
  obtain ⟨many, visits, ⟨wrong, -⟩ | ⟨error', same, turn⟩⟩ := visits_of_run? ran
  · cases wrong
  obtain rfl := Except.error.inj same
  obtain ⟨owner, job, now, found, fails⟩ :=
    (visits.receptive (receptive_new runs world nonblocking)).mirrored (visits.pure pure) turn
  have bound : owner < runs.length := by
    have bound := (List.getElem?_eq_some_iff.mp found).1
    rwa [visits.length] at bound
  obtain ⟨⟨job', run⟩, here⟩ : ∃ entry, runs[owner]? = some entry :=
    ⟨_, List.getElem?_eq_getElem bound⟩
  -- The run that fails has been the same job from the first.
  obtain ⟨weave, shares, -⟩ := pure.runs owner job' run here
  obtain ⟨after, -, shares'⟩ := visits.shares shares
  obtain ⟨rfl, -⟩ := shares'.same_run found
  refine ⟨owner, _, run, here, fun world' nonblocking' fuel' result alone_last alone_pure ends => ?_⟩
  have mirrored := mirrored_new pure here alone_pure.world nonblocking'
  obtain ⟨alone, before, mirrored⟩ :=
    mirrored.visits visits pure alone_pure (receptive_new _ _ _) ends
  obtain ⟨last', turn'⟩ := fails alone mirrored
  obtain ⟨rfl, -⟩ := Prod.mk.inj ((before.run?_eq ends).2 error turn')
  rfl

end

end Schedule

end GraphExec
