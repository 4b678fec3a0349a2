import GraphExec.Proofs.Run.Course
import GraphExec.Proofs.Run.Turns

/-!
# The share of a run in a schedule

A schedule of many runs is, for each of them, one of the orders in which its moves may be made: the
moves of the other runs only change what surrounds it.
-/

namespace GraphExec

variable {σ : Type}

/-! ### Parked steps of a run -/

/-- The step and its wait, if it is one of a run. -/
def ParkedStep.of? (owner : Nat) (parked : ParkedStep σ) : Option (Step σ × Wait σ) :=
  if parked.owner = owner then some (parked.step, parked.wait) else none

namespace Awaited

def waiting? : Awaited σ → Option (ParkedStep σ)
  | waiting parked => some parked
  | answered _ _ _ => none

/-- The step and its answer, if it is one of a run. -/
def answered? (owner : Nat) : Awaited σ → Option (Step σ × Resumption σ)
  | waiting _ => none
  | answered other step resumption =>
    if other = owner then some (step, resumption) else none

end Awaited

namespace Phase

/-- The steps of the bucket that is taken up which wait. -/
def waiting : Phase σ → List (ParkedStep σ)
  | draining _ => []
  | flushing bucket _ => bucket
  | awaiting bucket _ => bucket.filterMap Awaited.waiting?

/-- The steps of the bucket that is taken up which have been answered. -/
def answered (owner : Nat) : Phase σ → List (Step σ × Resumption σ)
  | awaiting bucket _ => bucket.filterMap (Awaited.answered? owner)
  | _ => []

end Phase

namespace Schedule

/-- The steps of a run that wait. -/
def asleep (schedule : Schedule σ) (owner : Nat) : List (Step σ × Wait σ) :=
  (schedule.phase.waiting ++ schedule.buckets.flatMap (·.2)).filterMap (ParkedStep.of? owner)

/-- What may be seen of a run in the next transition of a schedule. -/
def Sights (schedule : Schedule σ) (owner : Nat) (job : Job σ) : Sight σ → Prop
  | .advanced step s => ∃ run ready, schedule.phase = .draining owner ∧
      schedule.runs[owner]? = some (job, run) ∧ run.ready = step :: ready ∧
      s = ⟨{ run with ready }, schedule.world⟩
  | .polled wait s => ∃ run, schedule.runs[owner]? = some (job, run) ∧
      s = ⟨run, schedule.world⟩ ∧ ∃ parked ∈ schedule.phase.waiting,
        parked.owner = owner ∧ parked.wait = wait
  | .changed world => ∃ next, schedule.step = .again next ∧ next.world = world
  | .woken => True

end Schedule

/-- A run to which nothing is left to do until a step of it is resumed. -/
def Weave.Idle (weave : Weave σ) : Prop :=
  weave.run.ready = [] ∧ (weave.run.held = [] ∨ weave.run.parked ≠ 0)

theorem Weave.Drives.idle {first last : Weave σ} {step : Step σ} {wait : Wait σ}
    (drives : first.Drives step wait last) (idle : first.Idle) : last.Idle := by
  have same := drives.sameTree
  unfold Weave.Idle at idle ⊢
  rwa [show last.run.ready = first.run.ready from same.ready,
    show last.run.held = first.run.held from same.held,
    show last.run.parked = first.run.parked from same.parked]

/-- The share of a run in a schedule. -/
structure Schedule.Shares (schedule : Schedule σ) (owner : Nat) (job : Job σ) (weave : Weave σ) :
    Prop where
  run : schedule.runs[owner]? = some (job, weave.run)
  world : weave.world = schedule.world
  asleep : weave.asleep.Perm (schedule.asleep owner)
  called : weave.called.Perm (schedule.phase.answered owner)
  counted : weave.run.parked = weave.asleep.length + weave.called.length
  idle : (∀ next, schedule.phase = .draining next → owner < next) → weave.Idle

/-! ### Steps that are parked -/

theorem Buckets.park_perm (buckets : Buckets σ) (depth : Nat) (parked : ParkedStep σ) :
    ((buckets.park depth parked).flatMap (·.2)).Perm (parked :: buckets.flatMap (·.2)) := by
  induction buckets with
  | nil => exact .refl _
  | cons entry rest ih =>
      obtain ⟨d, bucket⟩ := entry
      unfold park
      split
      · exact .refl _
      · split
        · simp only [List.flatMap_cons]
          rw [List.append_assoc]
          exact List.perm_middle
        · simp only [List.flatMap_cons]
          exact (ih.append_left bucket).trans List.perm_middle

namespace Schedule

variable {schedule next : Schedule σ} {owner : Nat} {job : Job σ} {weave : Weave σ}
  {seen : Sight σ → Prop}

/-- A run has one share. -/
theorem Shares.same_run (shares : schedule.Shares owner job weave) {job' : Job σ} {run : Run σ}
    (here : schedule.runs[owner]? = some (job', run)) : job = job' ∧ weave.run = run :=
  Prod.mk.inj (Option.some.inj (shares.run.symm.trans here))

/-- A transition of a schedule is made of moves of a run. -/
def Follows (seen : Sight σ → Prop) (owner : Nat) (job : Job σ) (weave : Weave σ)
    (next : Schedule σ) : Prop :=
  ∃ after, Weave.Path job seen weave after ∧ next.Shares owner job after

/-- A transition that only changes what surrounds a run is a move of the run as well. -/
theorem Shares.follows (shares : next.Shares owner job { weave with world := next.world })
    (turn : schedule.step = .again next)
    (allowed : ∀ sight, schedule.Sights owner job sight → seen sight) :
    Follows seen owner job weave next :=
  ⟨_, .step (.refl weave) (allowed (.changed next.world) ⟨next, turn, rfl⟩) (.change next.world),
    shares⟩

/-- A run has the same share when a transition does not touch it. -/
theorem Shares.aside (shares : schedule.Shares owner job weave)
    (run : next.runs[owner]? = schedule.runs[owner]?)
    (asleep : (schedule.asleep owner).Perm (next.asleep owner))
    (answered : (schedule.phase.answered owner).Perm (next.phase.answered owner))
    (idle : (∀ other, next.phase = .draining other → owner < other) → weave.Idle) :
    next.Shares owner job { weave with world := next.world } :=
  ⟨run.trans shares.run, rfl, shares.asleep.trans asleep, shares.called.trans answered,
    shares.counted, idle⟩

/-! ### Draining -/

theorem runs_place_parked (schedule : Schedule σ) (other : Nat) (step : Step σ) (depth : Nat)
    (wait : Wait σ) :
    (schedule.place other (.parked step depth wait)).runs =
      (schedule.modifyRun other fun run => { run with parked := run.parked + 1 }).runs := rfl

theorem asleep_place_parked (schedule : Schedule σ) (other owner : Nat) (step : Step σ)
    (depth : Nat) (wait : Wait σ) :
    ((schedule.place other (.parked step depth wait)).asleep owner).Perm
      (([⟨other, step, wait⟩].filterMap (ParkedStep.of? owner)) ++ schedule.asleep owner) := by
  unfold asleep
  rw [← List.filterMap_append]
  refine List.Perm.filterMap _ ?_
  have parked := schedule.buckets.park_perm depth ⟨other, step, wait⟩
  exact (parked.append_left schedule.phase.waiting).trans List.perm_middle

/-- The transition of a ready step of a run is a move of the run. -/
theorem Shares.advance (shares : schedule.Shares owner job weave)
    (phase : schedule.phase = .draining owner) {step : Step σ} {ready : List (Step σ)}
    (first : weave.run.ready = step :: ready)
    (steps : schedule.advance owner job { weave.run with ready } step = .again next) :
    ∃ after, Weave.Move job weave (.advanced step ⟨{ weave.run with ready }, weave.world⟩) after ∧
      next.Shares owner job after := by
  obtain ⟨progress, s, gives, rfl⟩ := advance_again steps
  have advanced : (step.advance job).Gives ⟨{ weave.run with ready }, weave.world⟩ progress s := by
    rw [shares.world]
    exact gives
  refine ⟨_, .advance (.of_eq first) advanced, ?_⟩
  have here : ({ schedule with world := s.world }.modifyRun owner fun _ => s.run).runs[owner]? =
      some (job, s.run) := by
    rw [getElem?_modifyRun, if_pos rfl, shares.run]
    rfl
  have count : s.run.parked = weave.asleep.length + weave.called.length :=
    (step.advance_parked advanced).trans shares.counted
  have busy : ∀ {after : Weave σ}, (∀ other, schedule.phase = .draining other → owner < other) →
      after.Idle := fun before => absurd (before owner phase) (Nat.lt_irrefl _)
  cases progress with
  | again other =>
      refine ⟨?_, rfl, shares.asleep, shares.called, count, busy⟩
      show (modifyRun _ _ _).runs[owner]? = _
      rw [getElem?_modifyRun, if_pos rfl, here]
      rfl
  | finished => exact ⟨here, rfl, shares.asleep, shares.called, count, busy⟩
  | parked other depth wait =>
      refine ⟨?_, rfl, ?_, shares.called, ?_, busy⟩
      · rw [runs_place_parked, getElem?_modifyRun, if_pos rfl, here]
        rfl
      · refine List.Perm.trans ?_ (asleep_place_parked _ owner owner other depth wait).symm
        simp only [ParkedStep.of?, List.filterMap_cons, if_true, List.filterMap_nil]
        exact shares.asleep.cons _
      · show s.run.parked + 1 = (weave.asleep.length + 1) + weave.called.length
        omega

/-- The transition of a ready step of another run. -/
theorem advance_aside {other : Nat} {job' : Job σ} {run : Run σ} {step : Step σ}
    (differs : other ≠ owner) (steps : schedule.advance other job' run step = .again next) :
    next.runs[owner]? = schedule.runs[owner]? ∧
      (schedule.asleep owner).Perm (next.asleep owner) ∧ next.phase = schedule.phase := by
  obtain ⟨progress, s, gives, rfl⟩ := advance_again steps
  have here : ({ schedule with world := s.world }.modifyRun other fun _ => s.run).runs[owner]? =
      schedule.runs[owner]? := by
    rw [getElem?_modifyRun, if_neg differs]
  cases progress with
  | again step' =>
      refine ⟨?_, .refl _, rfl⟩
      exact (getElem?_modifyRun _ other owner _).trans ((if_neg differs).trans here)
  | finished => exact ⟨here, .refl _, rfl⟩
  | parked step' depth wait =>
      refine ⟨?_, ?_, rfl⟩
      · rw [runs_place_parked, getElem?_modifyRun, if_neg differs, here]
      · refine List.Perm.trans ?_ (asleep_place_parked _ other owner step' depth wait).symm
        simp only [ParkedStep.of?, List.filterMap_cons, if_neg differs, List.filterMap_nil]
        exact .refl _

/-- A run is left alone while the ready steps of another one are run. -/
theorem Shares.advance_other (shares : schedule.Shares owner job weave) {other : Nat}
    {job' : Job σ} {run : Run σ} {step : Step σ} (differs : other ≠ owner)
    (steps : schedule.advance other job' run step = .again next) :
    next.Shares owner job { weave with world := next.world } := by
  obtain ⟨same_run, asleep, same_phase⟩ := advance_aside differs steps
  refine shares.aside same_run asleep (by rw [same_phase]) fun before => ?_
  exact shares.idle fun k here => before k (same_phase.trans here)

/-- A run with nothing to do is passed over. -/
theorem Shares.pass (shares : schedule.Shares owner job weave) {other : Nat}
    (phase : schedule.phase = .draining other) (idle : other = owner → weave.Idle) :
    Shares { schedule with phase := .draining (other + 1) } owner job
      { weave with world := schedule.world } := by
  have asleep : (schedule.asleep owner).Perm
      (Schedule.asleep { schedule with phase := .draining (other + 1) } owner) := by
    unfold Schedule.asleep
    rw [phase]
    exact .refl _
  refine shares.aside rfl asleep (by rw [phase]; exact .refl _) fun before => ?_
  by_cases here : other = owner
  · exact idle here
  · refine shares.idle fun k there => ?_
    rw [phase] at there
    injection there with there
    have bound := before (other + 1) rfl
    omega

/-- The release of a held step of a run is a move of the run. -/
theorem Shares.release (shares : schedule.Shares owner job weave)
    (phase : schedule.phase = .draining owner) {step : Step σ} {held : List (Step σ)}
    (idle : weave.run.ready = []) (first : weave.run.held = step :: held)
    (none_parked : weave.run.parked = 0) :
    ∃ after, Weave.Move job weave .woken after ∧
      Shares { schedule.modifyRun owner fun run => { run with ready := [step], held } with
        world := schedule.world.clearCache } owner job after := by
  refine ⟨_, .release idle first none_parked, ?_⟩
  refine ⟨?_, by rw [shares.world], shares.asleep, shares.called, shares.counted,
    fun before => absurd (before owner phase) (Nat.lt_irrefl _)⟩
  simp only [getElem?_modifyRun, if_true, shares.run, Option.map_some]

/-- No bucket is taken up before each run has had its turn. -/
theorem Shares.take (shares : schedule.Shares owner job weave) {other depth : Nat}
    {bucket : List (ParkedStep σ)} {buckets : Buckets σ} (phase : schedule.phase = .draining other)
    (none_left : schedule.runs[other]? = none)
    (first : schedule.buckets = (depth, bucket) :: buckets) :
    Shares { schedule with buckets, phase := .flushing bucket schedule.world.dueFetches } owner job
      { weave with world := schedule.world } := by
  have passed : owner < other := by
    have known := (List.getElem?_eq_some_iff.mp shares.run).1
    have beyond := List.getElem?_eq_none_iff.mp none_left
    omega
  refine shares.aside rfl ?_ ?_ fun _ => shares.idle fun k here => ?_
  · unfold Schedule.asleep
    rw [phase, first]
    exact .refl _
  · rw [phase]
    exact .refl _
  · rw [phase] at here
    injection here with here
    exact here ▸ passed

/-! ### Fetching -/

theorem waiting_awaiting (bucket : List (ParkedStep σ)) :
    (bucket.map Awaited.waiting).filterMap Awaited.waiting? = bucket := by
  rw [List.filterMap_map]
  exact List.filterMap_some

theorem answered_awaiting (owner : Nat) (bucket : List (ParkedStep σ)) :
    (bucket.map Awaited.waiting).filterMap (Awaited.answered? owner) = [] := by
  rw [List.filterMap_map]
  exact List.filterMap_none bucket

theorem waiting_fetched (bucket : List (ParkedStep σ)) :
    (Phase.awaiting (bucket.map .waiting) []).waiting = bucket := waiting_awaiting bucket

theorem answered_fetched (owner : Nat) (bucket : List (ParkedStep σ)) :
    (Phase.awaiting (bucket.map .waiting) []).answered owner = [] := answered_awaiting owner bucket

/-- A run is left alone while fetches are made for a bucket. -/
theorem Shares.flush (shares : schedule.Shares owner job weave) {bucket : List (ParkedStep σ)}
    {flushes : List (World.Flush σ)} (phase : schedule.phase = .flushing bucket flushes)
    (world : World σ) {phase' : Phase σ} (waiting : phase'.waiting = bucket)
    (answered : phase'.answered owner = []) :
    Shares { schedule with world, phase := phase' } owner job { weave with world } := by
  refine shares.aside rfl ?_ ?_ fun _ => shares.idle fun k here => ?_
  · unfold Schedule.asleep
    rw [phase, waiting]
    exact .refl _
  · rw [phase, answered]
    exact .refl _
  · rw [phase] at here
    cases here

/-! ### Awaiting -/

/-- What a poll of a parked step makes of it. -/
def polled (parked : ParkedStep σ) : Polled (Resumption σ) (Wait σ) → Awaited σ
  | .ready resumption => .answered parked.owner parked.step resumption
  | .pending wait => .waiting { parked with wait }

/-- Drives forward the answer of a lazy value that a parked step waits for. -/
def pollBy {α : Type} (schedule : Schedule σ) (parked : ParkedStep σ) (rest : Pending σ α)
    (answer : α → Resumption σ) (wait : Pending σ α → Wait σ) : Awaited σ × Schedule σ :=
  match rest.poll.run schedule.world with
  | (.ready result, world) =>
    (.answered parked.owner parked.step (answer result), { schedule with world })
  | (.pending rest, world) =>
    (.waiting { parked with wait := wait rest }, { schedule with world })

/-- Driving forward what a step waits for by its own kind touches no run. -/
theorem poll_eq_pollBy (schedule : Schedule σ) (parked : ParkedStep σ) (run : Run σ)
    (kind : ∀ key, parked.wait ≠ .arguments key) :
    schedule.poll parked = (polled parked (parked.wait.poll ⟨run, schedule.world⟩).1,
      { schedule with world := (parked.wait.poll ⟨run, schedule.world⟩).2.world }) ∧
    (parked.wait.poll ⟨run, schedule.world⟩).2.run = run := by
  have by_kind : ∀ {α : Type} (rest : Pending σ α) (answer : α → Resumption σ)
      (wait : Pending σ α → Wait σ),
      schedule.pollBy parked rest answer wait =
        (polled parked (Wait.pollBy rest answer wait ⟨run, schedule.world⟩).1,
          { schedule with
            world := (Wait.pollBy rest answer wait ⟨run, schedule.world⟩).2.world }) ∧
      (Wait.pollBy rest answer wait ⟨run, schedule.world⟩).2.run = run := by
    intro α rest answer wait
    unfold Wait.pollBy Schedule.pollBy
    rcases rest.poll.run schedule.world with ⟨result | rest, world⟩
    · exact ⟨rfl, rfl⟩
    · exact ⟨rfl, rfl⟩
  unfold Schedule.poll
  cases wait : parked.wait with
  | value rest => exact by_kind rest .value .value
  | type rest => exact by_kind rest .type .type
  | authorization rest => exact by_kind rest .authorization .authorization
  | directive rest => exact by_kind rest .directive .directive
  | arguments key => exact absurd wait (kind key)

/-- A poll drives forward what the step of a run waits for. -/
theorem poll_own (parked : ParkedStep σ) {run : Run σ}
    (found : schedule.runs[parked.owner]? = some (job, run)) :
    (schedule.poll parked).1 = polled parked (parked.wait.poll ⟨run, schedule.world⟩).1 ∧
      (schedule.poll parked).2.world = (parked.wait.poll ⟨run, schedule.world⟩).2.world ∧
      (schedule.poll parked).2.runs[parked.owner]? =
        some (job, (parked.wait.poll ⟨run, schedule.world⟩).2.run) := by
  by_cases kind : ∀ key, parked.wait ≠ .arguments key
  · obtain ⟨polls, same⟩ := poll_eq_pollBy schedule parked run kind
    rw [polls, same]
    exact ⟨rfl, rfl, found⟩
  · push Not at kind
    obtain ⟨key, kind⟩ := kind
    unfold Schedule.poll Wait.poll Wait.pollBag Schedule.arguments?
    rw [kind, found]
    simp only [Option.bind_some]
    cases run.arguments.get? key with
    | none =>
        refine ⟨?_, rfl, found⟩
        show _ = Awaited.waiting { parked with wait := .arguments key }
        rw [← kind]
    | some bag =>
        simp only
        rcases bag.poll.run schedule.world with ⟨bag, world⟩
        have here : ({ schedule with world }.modifyRun parked.owner fun run =>
            { run with arguments := run.arguments.insert key bag }).runs[parked.owner]? =
            some (job, { run with arguments := run.arguments.insert key bag }) := by
          simp only [getElem?_modifyRun, if_true, found, Option.map_some]
        cases bag with
        | ready result => exact ⟨rfl, rfl, here⟩
        | pending rest =>
            refine ⟨?_, rfl, here⟩
            show _ = Awaited.waiting { parked with wait := .arguments key }
            rw [← kind]
            rfl

/-- A poll leaves the other runs alone, and all that is parked. -/
theorem poll_aside (schedule : Schedule σ) (parked : ParkedStep σ) :
    (∃ outcome, (schedule.poll parked).1 = polled parked outcome) ∧
      (∀ owner, parked.owner ≠ owner →
        (schedule.poll parked).2.runs[owner]? = schedule.runs[owner]?) ∧
      (schedule.poll parked).2.buckets = schedule.buckets := by
  have by_kind {α : Type} (rest : Pending σ α) (answer : α → Resumption σ)
      (wait : Pending σ α → Wait σ) :
      (∃ outcome, (schedule.pollBy parked rest answer wait).1 = polled parked outcome) ∧
        (∀ owner, parked.owner ≠ owner →
          (schedule.pollBy parked rest answer wait).2.runs[owner]? = schedule.runs[owner]?) ∧
        (schedule.pollBy parked rest answer wait).2.buckets = schedule.buckets := by
    unfold Schedule.pollBy
    rcases rest.poll.run schedule.world with ⟨result | rest, world⟩
    · exact ⟨⟨.ready (answer result), rfl⟩, fun _ _ => rfl, rfl⟩
    · exact ⟨⟨.pending (wait rest), rfl⟩, fun _ _ => rfl, rfl⟩
  unfold Schedule.poll
  cases wait : parked.wait with
  | value rest => exact by_kind rest .value .value
  | type rest => exact by_kind rest .type .type
  | authorization rest => exact by_kind rest .authorization .authorization
  | directive rest => exact by_kind rest .directive .directive
  | arguments key =>
      have unchanged : Awaited.waiting parked = polled parked (.pending (.arguments key)) := by
        unfold polled
        rw [← wait]
      simp only
      split
      · exact ⟨⟨_, unchanged⟩, fun _ _ => rfl, rfl⟩
      · rename_i bag _
        rcases bag.poll.run schedule.world with ⟨bag, world⟩
        have others : ∀ owner, parked.owner ≠ owner →
            ({ schedule with world }.modifyRun parked.owner fun run =>
              { run with arguments := run.arguments.insert key bag }).runs[owner]? =
              schedule.runs[owner]? := by
          intro owner differs
          simp only [getElem?_modifyRun, if_neg differs]
        cases bag with
        | ready result => exact ⟨⟨.ready (.arguments result), rfl⟩, others, rfl⟩
        | pending rest => exact ⟨⟨_, unchanged⟩, others, rfl⟩

/-- The steps of a run that wait, one place of the bucket apart. -/
theorem waiting_cons (owner : Nat) (front back : List (Awaited σ)) (x : Awaited σ)
    (buckets : Buckets σ) :
    (((front ++ x :: back).filterMap Awaited.waiting? ++ buckets.flatMap (·.2)).filterMap
        (ParkedStep.of? owner)).Perm
      (([x].filterMap Awaited.waiting?).filterMap (ParkedStep.of? owner) ++
        ((front ++ back).filterMap Awaited.waiting? ++ buckets.flatMap (·.2)).filterMap
          (ParkedStep.of? owner)) := by
  rw [← List.filterMap_append, ← List.append_assoc, ← List.filterMap_append]
  refine List.Perm.filterMap _ (List.Perm.append_right _ (List.Perm.filterMap _ ?_))
  exact List.perm_middle

theorem answered_cons (owner : Nat) (front back : List (Awaited σ)) (x : Awaited σ) :
    ((front ++ x :: back).filterMap (Awaited.answered? owner)).Perm
      ([x].filterMap (Awaited.answered? owner) ++
        (front ++ back).filterMap (Awaited.answered? owner)) := by
  rw [← List.filterMap_append]
  exact List.Perm.filterMap _ List.perm_middle

/-- The poll of a step of a run drives forward what the step waits for. -/
theorem Shares.poll_own (shares : schedule.Shares owner job weave) {front back : List (Awaited σ)}
    {line line' : List Nat} {step : Step σ} {wait : Wait σ}
    (phase : schedule.phase = .awaiting (front ++ .waiting ⟨owner, step, wait⟩ :: back) line) :
    ∃ after, weave.Drives step wait after ∧
      Shares { (schedule.poll ⟨owner, step, wait⟩).2 with
        phase := .awaiting (front ++ (schedule.poll ⟨owner, step, wait⟩).1 :: back) line' }
        owner job after := by
  obtain ⟨outcome, world, run⟩ := Schedule.poll_own ⟨owner, step, wait⟩ shares.run
  obtain ⟨-, -, buckets⟩ := schedule.poll_aside ⟨owner, step, wait⟩
  have stage : weave.stage = ⟨weave.run, schedule.world⟩ := by
    unfold Weave.stage
    rw [shares.world]
  let others := ((front ++ back).filterMap Awaited.waiting? ++
    schedule.buckets.flatMap (·.2)).filterMap (ParkedStep.of? owner)
  let answers := (front ++ back).filterMap (Awaited.answered? owner)
  have asleep : weave.asleep.Perm ((step, wait) :: others) := by
    refine shares.asleep.trans ?_
    unfold Schedule.asleep
    rw [phase]
    refine (waiting_cons owner front back (.waiting ⟨owner, step, wait⟩) schedule.buckets).trans ?_
    simp only [Awaited.waiting?, ParkedStep.of?, List.filterMap_cons, List.filterMap_nil, if_true]
    exact .refl _
  have called : weave.called.Perm answers := by
    refine shares.called.trans ?_
    rw [phase]
    exact answered_cons owner front back (.waiting ⟨owner, step, wait⟩)
  have idle : weave.Idle := shares.idle fun k here => by
    rw [phase] at here
    cases here
  -- Whichever it comes to, the step is still parked, so that its run is still idle.
  rcases polled : wait.poll weave.stage with ⟨resumption | rest, s⟩
  · have drives : weave.Drives step wait _ := .answers asleep polled
    rw [← stage, show (Wait.poll weave.stage wait) = _ from polled] at outcome world run
    refine ⟨_, drives, run, world.symm, ?_, ?_, drives.counted shares.counted,
      fun _ => drives.idle idle⟩
    · unfold Schedule.asleep
      simp only [buckets, outcome]
      refine List.Perm.trans ?_ (waiting_cons owner front back _ schedule.buckets).symm
      exact .refl _
    · simp only [Phase.answered, outcome]
      refine List.Perm.trans ?_ (answered_cons owner front back _).symm
      simp only [Schedule.polled, Awaited.answered?, List.filterMap_cons, List.filterMap_nil,
        if_true]
      exact called.cons _
  · have drives : weave.Drives step wait _ := .waits asleep polled
    rw [← stage, show (Wait.poll weave.stage wait) = _ from polled] at outcome world run
    refine ⟨_, drives, run, world.symm, ?_, ?_, drives.counted shares.counted,
      fun _ => drives.idle idle⟩
    · unfold Schedule.asleep
      simp only [buckets, outcome]
      refine List.Perm.trans ?_ (waiting_cons owner front back _ schedule.buckets).symm
      simp only [Schedule.polled, Awaited.waiting?, ParkedStep.of?, List.filterMap_cons,
        List.filterMap_nil, if_true]
      exact .refl _
    · simp only [Phase.answered, outcome]
      refine List.Perm.trans ?_ (answered_cons owner front back _).symm
      exact called

/-- The poll of a step of another run. -/
theorem Shares.poll_other (shares : schedule.Shares owner job weave)
    {front back : List (Awaited σ)} {line line' : List Nat} {parked : ParkedStep σ}
    (differs : parked.owner ≠ owner)
    (phase : schedule.phase = .awaiting (front ++ .waiting parked :: back) line) :
    Shares { (schedule.poll parked).2 with
      phase := .awaiting (front ++ (schedule.poll parked).1 :: back) line' } owner job
      { weave with world := (schedule.poll parked).2.world } := by
  obtain ⟨⟨outcome, same⟩, others, buckets⟩ := schedule.poll_aside parked
  have not_waiting : ([(schedule.poll parked).1].filterMap Awaited.waiting?).filterMap
      (ParkedStep.of? owner) = [] := by
    rw [same]
    cases outcome with
    | ready resumption => rfl
    | pending wait => simp [Schedule.polled, Awaited.waiting?, ParkedStep.of?, differs]
  have not_answered : [(schedule.poll parked).1].filterMap (Awaited.answered? owner) = [] := by
    rw [same]
    cases outcome with
    | ready resumption => simp [Schedule.polled, Awaited.answered?, differs]
    | pending wait => rfl
  refine shares.aside (others owner differs) ?_ ?_ fun _ => shares.idle fun k here => ?_
  · unfold Schedule.asleep
    rw [phase]
    simp only [buckets]
    refine (waiting_cons owner front back (.waiting parked) schedule.buckets).trans
      (List.Perm.trans ?_ (waiting_cons owner front back _ schedule.buckets).symm)
    rw [not_waiting]
    simp only [Awaited.waiting?, ParkedStep.of?, List.filterMap_cons, List.filterMap_nil,
      if_neg differs]
    exact .refl _
  · rw [phase]
    refine (answered_cons owner front back (.waiting parked)).trans
      (List.Perm.trans ?_ (answered_cons owner front back _).symm)
    rw [not_answered]
    exact .refl _
  · rw [phase] at here
    cases here

/-- Another line, or none, leaves every run alone. -/
theorem Shares.line (shares : schedule.Shares owner job weave) {bucket : List (Awaited σ)}
    {line : List Nat} (phase : schedule.phase = .awaiting bucket line) (line' : List Nat) :
    Shares { schedule with phase := .awaiting bucket line' } owner job
      { weave with world := schedule.world } := by
  refine shares.aside rfl ?_ ?_ fun _ => shares.idle fun k here => ?_
  · unfold Schedule.asleep
    rw [phase]
    exact .refl _
  · rw [phase]
    exact .refl _
  · rw [phase] at here
    cases here

theorem Shares.pollAt (shares : schedule.Shares owner job weave) {bucket : List (Awaited σ)}
    {place : Nat} {line : List Nat} (phase : schedule.phase = .awaiting bucket (place :: line))
    (allowed : ∀ sight, schedule.Sights owner job sight → seen sight)
    (turn : schedule.step = .again (schedule.pollAt bucket place line)) :
    Follows seen owner job weave (schedule.pollAt bucket place line) := by
  rcases schedule.pollAt_cases bucket place line with
    ⟨parked, front, back, line', found, rfl, same⟩ | ⟨-, same⟩
  · rw [same] at turn ⊢
    by_cases own : parked.owner = owner
    · obtain ⟨other, step, wait⟩ := parked
      obtain rfl : other = owner := own
      obtain ⟨after, drives, shares'⟩ := shares.poll_own phase
      refine ⟨after, .step (.refl weave) (allowed _ ?_) drives.move, shares'⟩
      refine ⟨weave.run, shares.run, ?_, ⟨other, step, wait⟩, ?_, rfl, rfl⟩
      · unfold Weave.stage
        rw [shares.world]
      · rw [phase]
        simp [Phase.waiting, Awaited.waiting?]
    · exact (shares.poll_other own phase).follows turn allowed
  · rw [same] at turn ⊢
    exact (shares.line phase line).follows turn allowed

/-! ### Resuming -/

/-- The answered steps of a run. -/
def own (owner : Nat) (answers : List (Nat × Step σ × Resumption σ)) :
    List (Step σ × Resumption σ) :=
  answers.filterMap fun entry => if entry.1 = owner then some entry.2 else none

theorem own_answers (owner : Nat) {bucket : List (Awaited σ)} :
    ∀ {answers : List (Nat × Step σ × Resumption σ)}, answers? bucket = some answers →
      bucket.filterMap Awaited.waiting? = [] ∧
        bucket.filterMap (Awaited.answered? owner) = own owner answers := by
  induction bucket with
  | nil =>
      intro answers h
      injection h with h
      subst h
      exact ⟨rfl, rfl⟩
  | cons awaited rest ih =>
      intro answers h
      cases awaited with
      | waiting parked => cases h
      | answered other step resumption =>
          obtain ⟨behind, found, rfl⟩ := Option.map_eq_some_iff.mp h
          obtain ⟨none_waits, answered⟩ := ih found
          refine ⟨none_waits, ?_⟩
          unfold own at answered ⊢
          simp only [List.filterMap_cons, Awaited.answered?, answered]

/-- When steps are resumed, those of a run come behind what is ready of it, in order, and nothing else
happens to the run. -/
theorem resumeAll_run :
    ∀ (answers : List (Nat × Step σ × Resumption σ)) {schedule : Schedule σ} {run : Run σ},
      schedule.resumeAll answers = .again next → schedule.runs[owner]? = some (job, run) →
      ∃ steps, next.runs[owner]? = some (job, { run with
          parked := run.parked - (own owner answers).length
          ready := run.ready ++ steps }) ∧
        List.Forall₂ (fun entry step => entry.1.resume entry.2 = .ok step) (own owner answers)
          steps := by
  intro answers
  induction answers with
  | nil =>
      intro schedule run turn here
      injection turn with turn
      subst turn
      refine ⟨[], ?_, .nil⟩
      rw [List.append_nil]
      exact here
  | cons entry rest ih =>
      intro schedule run turn here
      obtain ⟨other, step, answer⟩ := entry
      obtain ⟨step', resumed, turn⟩ := resumeAll_cons turn
      by_cases mine : other = owner
      · subst mine
        have picked : own other ((other, step, answer) :: rest) =
            (step, answer) :: own other rest := by simp [own]
        obtain ⟨steps, there, all⟩ := ih turn (wake_own here step')
        refine ⟨step' :: steps, ?_, ?_⟩
        · rw [there, picked, List.length_cons]
          have count : run.parked - 1 - (own other rest).length =
              run.parked - ((own other rest).length + 1) := by omega
          simp only [count, List.append_assoc, List.cons_append, List.nil_append]
        · rw [picked]
          exact .cons resumed all
      · have picked : own owner ((other, step, answer) :: rest) = own owner rest := by
          simp [own, mine]
        rw [picked]
        exact ih turn ((wake_other mine step').trans here)

/-- The resumption of the steps of a bucket is made of moves of a run. -/
theorem resumeAll_follows :
    ∀ (answers : List (Nat × Step σ × Resumption σ)) (schedule : Schedule σ) (weave : Weave σ),
      schedule.runs[owner]? = some (job, weave.run) → weave.world = schedule.world →
      weave.asleep.Perm ((schedule.buckets.flatMap (·.2)).filterMap (ParkedStep.of? owner)) →
      weave.called.Perm (own owner answers) →
      weave.run.parked = weave.asleep.length + weave.called.length →
      schedule.resumeAll answers = .again next → Follows (· = .woken) owner job weave next := by
  intro answers
  induction answers with
  | nil =>
      intro schedule weave run world asleep called counted resumes
      injection resumes with resumes
      subst resumes
      exact ⟨weave, .refl weave, run, world, asleep, called, counted,
        fun before => absurd (before 0 rfl) (Nat.not_lt_zero _)⟩
  | cons entry rest ih =>
      intro schedule weave run world asleep called counted resumes
      obtain ⟨other, step, resumption⟩ := entry
      obtain ⟨step', resumed, resumes⟩ := resumeAll_cons resumes
      by_cases here : other = owner
      · subst here
        have picked : weave.called.Perm ((step, resumption) :: own other rest) := by
          refine called.trans ?_
          simp [own]
        let after : Weave σ := { weave with
          run := { weave.run with
            parked := weave.run.parked - 1
            ready := weave.run.ready ++ [step'] }
          called := own other rest }
        have count : after.run.parked = after.asleep.length + after.called.length := by
          have length := picked.length_eq
          simp only [List.length_cons] at length
          show weave.run.parked - 1 = weave.asleep.length + (own other rest).length
          omega
        obtain ⟨last, path, shares⟩ :=
          ih _ after (wake_own run step') world asleep (.refl _) count resumes
        refine ⟨last, Weave.Path.trans ?_ path, shares⟩
        exact .step (.refl weave) rfl (.resume picked resumed)
      · have called' : weave.called.Perm (own owner rest) := by
          refine called.trans ?_
          simp [own, here]
        exact ih _ weave ((wake_other here step').trans run) world asleep called' counted resumes

/-- The steps of a run whose answers are there are resumed together. -/
theorem Shares.resume (shares : schedule.Shares owner job weave) {bucket : List (Awaited σ)}
    {line : List Nat} (phase : schedule.phase = .awaiting bucket line)
    {answers : List (Nat × Step σ × Resumption σ)} (found : answers? bucket = some answers)
    (resumes : schedule.resumeAll answers = .again next) :
    Follows (· = .woken) owner job weave next := by
  obtain ⟨none_waits, answered⟩ := own_answers owner found
  refine resumeAll_follows _ _ weave shares.run shares.world ?_ ?_ shares.counted resumes
  · have asleep := shares.asleep
    unfold Schedule.asleep at asleep
    rw [phase] at asleep
    simpa [Phase.waiting, none_waits] using asleep
  · have called := shares.called
    rw [phase] at called
    simpa [Phase.answered, answered] using called

/-- Every transition of a schedule is made of moves of each run. -/
theorem Shares.step (shares : schedule.Shares owner job weave)
    (allowed : ∀ sight, schedule.Sights owner job sight → seen sight)
    (turn : schedule.step = .again next) : Follows seen owner job weave next := by
  cases goesOn_of_step turn with
  | @advanced other job' run step ready progress s phase here first gives =>
      have steps : schedule.advance other job' { run with ready } step = .again _ :=
        advance_of_gives gives
      by_cases own : other = owner
      · subst own
        obtain ⟨rfl, rfl⟩ := shares.same_run here
        obtain ⟨after, move, shares'⟩ := shares.advance phase first steps
        refine ⟨after, .step (.refl weave) (allowed _ ?_) move, shares'⟩
        exact ⟨weave.run, ready, phase, shares.run, first, by rw [shares.world]⟩
      · exact (shares.advance_other own steps).follows turn allowed
  | @released other job' run step held phase here idle first none_parked =>
      by_cases own : other = owner
      · subst own
        obtain ⟨rfl, rfl⟩ := shares.same_run here
        obtain ⟨after, move, shares'⟩ := shares.release phase idle first none_parked
        exact ⟨after, .step (.refl weave) (allowed .woken trivial) move, shares'⟩
      · refine Shares.follows (shares.aside ?_ (.refl _) (.refl _) shares.idle) turn allowed
        simp only [getElem?_modifyRun, if_neg own]
  | passed phase here idle waits =>
      refine (shares.pass phase fun own => ?_).follows turn allowed
      subst own
      obtain ⟨rfl, rfl⟩ := shares.same_run here
      exact ⟨idle, waits⟩
  | taken phase none_left first => exact (shares.take phase none_left first).follows turn allowed
  | fetching phase => exact (shares.flush phase _ rfl rfl).follows turn allowed
  | fetched phase =>
      exact (shares.flush phase _ (waiting_fetched _) (answered_fetched _ _)).follows turn allowed
  | polled phase => exact shares.pollAt phase allowed turn
  | linedUp phase => exact (shares.line phase _).follows turn allowed
  | resumed phase found resumes =>
      obtain ⟨after, path, shares'⟩ := shares.resume phase found resumes
      exact ⟨after, path.mono fun _ same => same ▸ allowed .woken trivial, shares'⟩

/-! ### Whole schedules -/

/-- What a schedule goes through. -/
inductive Visits (first : Schedule σ) : Schedule σ → Prop
  | start : Visits first first
  | step {middle last : Schedule σ} (visits : Visits first middle)
      (turn : middle.step = .again last) : Visits first last

/-- What is seen of a run in the course of a schedule. -/
def Saw (first : Schedule σ) (owner : Nat) (job : Job σ) (sight : Sight σ) : Prop :=
  ∃ schedule, first.Visits schedule ∧ schedule.Sights owner job sight

/-- What has been seen of a run by the time that a schedule has come to another one. -/
def SawBy (first now : Schedule σ) (owner : Nat) (job : Job σ) (sight : Sight σ) : Prop :=
  ∃ schedule next, first.Visits schedule ∧ schedule.step = .again next ∧ next.Visits now ∧
    schedule.Sights owner job sight

theorem SawBy.saw {first now : Schedule σ} {sight : Sight σ}
    (saw : first.SawBy now owner job sight) : first.Saw owner job sight := by
  obtain ⟨schedule, -, visits, -, -, sees⟩ := saw
  exact ⟨schedule, visits, sees⟩

theorem SawBy.step {first middle last : Schedule σ} {sight : Sight σ}
    (saw : first.SawBy middle owner job sight) (turn : middle.step = .again last) :
    first.SawBy last owner job sight := by
  obtain ⟨schedule, next, visits, goes, after, sees⟩ := saw
  exact ⟨schedule, next, visits, goes, after.step turn, sees⟩

theorem Visits.shares_by {first last : Schedule σ} (visits : first.Visits last)
    (shares : first.Shares owner job weave) :
    Follows (first.SawBy last owner job) owner job weave last := by
  induction visits with
  | start => exact ⟨weave, .refl weave, shares⟩
  | @step middle last visits turn ih =>
      obtain ⟨after, path, shares⟩ := ih
      have allowed : ∀ sight, middle.Sights owner job sight → first.SawBy last owner job sight :=
        fun sight sees => ⟨middle, last, visits, turn, .start, sees⟩
      obtain ⟨end_, path', shares'⟩ := shares.step allowed turn
      have before := path.mono fun _ saw => SawBy.step saw turn
      exact ⟨end_, before.trans path', shares'⟩

theorem Visits.shares {first last : Schedule σ} (visits : first.Visits last)
    (shares : first.Shares owner job weave) : Follows (first.Saw owner job) owner job weave last := by
  obtain ⟨after, path, shares⟩ := visits.shares_by shares
  exact ⟨after, path.mono fun _ saw => saw.saw, shares⟩

/-- A schedule that is run to its end comes to a last transition. -/
theorem visits_of_run? : ∀ {fuel : Nat} {first last : Schedule σ}
    {result : Except FatalError Unit}, run? fuel first = some (result, last) →
      ∃ schedule, first.Visits schedule ∧
        ((result = .ok () ∧ schedule.step = .finished last) ∨
          ∃ error, result = .error error ∧ schedule.step = .failed error last) := by
  intro fuel
  induction fuel with
  | zero => intro first last result ran; cases ran
  | succ fuel ih =>
      intro first last result ran
      unfold run? at ran
      split at ran
      · rename_i next turn
        obtain ⟨schedule, visits, ends⟩ := ih ran
        refine ⟨schedule, ?_, ends⟩
        clear ends
        induction visits with
        | start => exact .step .start turn
        | step _ turn' ih => exact .step ih turn'
      · rename_i finished turn
        injection ran with ran
        injection ran with ran ran'
        subst ran ran'
        exact ⟨first, .start, .inl ⟨rfl, turn⟩⟩
      · rename_i error failed turn
        injection ran with ran
        injection ran with ran ran'
        subst ran ran'
        exact ⟨first, .start, .inr ⟨error, rfl, turn⟩⟩

/-- Nothing is left to do of a run when its schedule has ended. -/
theorem Shares.finished (shares : schedule.Shares owner job weave) {last : Schedule σ}
    (turn : schedule.step = .finished last) :
    weave.Finished ∧ last.runs[owner]? = some (job, weave.run) := by
  obtain ⟨rfl, no_buckets, next, phase, none_left⟩ := step_finished turn
  have asleep : weave.asleep = [] := by
    have parked := shares.asleep
    unfold Schedule.asleep at parked
    rw [phase, no_buckets] at parked
    exact parked.eq_nil
  have called : weave.called = [] := by
    have answered := shares.called
    rw [phase] at answered
    exact answered.eq_nil
  have count := shares.counted
  rw [asleep, called] at count
  have passed : owner < next := by
    have known := (List.getElem?_eq_some_iff.mp shares.run).1
    have beyond := List.getElem?_eq_none_iff.mp none_left
    omega
  obtain ⟨ready, held⟩ := shares.idle fun k here => by
    rw [phase] at here
    injection here with here
    exact here ▸ passed
  exact ⟨⟨ready, held.resolve_right fun parked => parked count, asleep, called⟩, shares.run⟩

/-- A run of a schedule that has not been begun. -/
theorem shares_new {runs : List (Job σ × Run σ)} {type : ObjectType σ} (world : World σ)
    (nonblocking : Bool) (here : runs[owner]? = some (job, Run.start job type)) :
    (Schedule.new runs world nonblocking).Shares owner job (.start job type world) := by
  refine ⟨here, rfl, .refl _, .refl _, ?_, fun before => absurd (before 0 rfl) (Nat.not_lt_zero _)⟩
  show (Run.start job type).parked = 0
  unfold Run.start
  cases job.root <;> rfl

/-- Each run of a schedule that has ended well has made its moves in some order, to its end. -/
theorem path_of_run? {runs : List (Job σ × Run σ)} {type : ObjectType σ} {world : World σ}
    {nonblocking : Bool} {fuel : Nat} {last : Schedule σ}
    (ran : run? fuel (.new runs world nonblocking) = some (.ok (), last))
    (here : runs[owner]? = some (job, Run.start job type)) :
    ∃ weave, Weave.Path job ((Schedule.new runs world nonblocking).Saw owner job)
        (.start job type world) weave ∧
      weave.Finished ∧ last.runs[owner]? = some (job, weave.run) := by
  obtain ⟨schedule, visits, ⟨-, turn⟩ | ⟨error, wrong, -⟩⟩ := visits_of_run? ran
  · obtain ⟨weave, path, shares⟩ := visits.shares (shares_new world nonblocking here)
    exact ⟨weave, path, shares.finished turn⟩
  · cases wrong

end Schedule

end GraphExec
