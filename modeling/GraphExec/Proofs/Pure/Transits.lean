import GraphExec.Proofs.Pure.Schedules
import GraphExec.Proofs.Run.Awaiting
import GraphExec.Proofs.Run.Bags
import GraphExec.Proofs.Run.Parts

/-!
# The steps of a run in a bucket that is taken up

From when a bucket is taken up until its steps are resumed, nothing happens to a run but that the
bags of arguments are driven forward that its steps in the bucket wait for. What each of these steps
is answered depends on what it waits for when the bucket is taken up, and on nothing that surrounds
the run.
-/

namespace GraphExec

variable {σ : Type} {loads : Loads} {job : Job σ}

/-! ### Results of bags -/

/-- A store has a bag under a key that comes to a result. -/
def ArgumentStore.ComesTo (loads : Loads) (store : ArgumentStore σ) (key : ArgumentKey)
    (result : ArgumentsResult) : Prop :=
  ∃ bag, store.get? key = some bag ∧ bag.Answers loads result

/-- A store has a bag under a key that is there. -/
def ArgumentStore.IsReady (store : ArgumentStore σ) (key : ArgumentKey) : Prop :=
  ∃ result, store.get? key = some (.ready result)

namespace ArgumentStore

variable {store store' : ArgumentStore σ} {key : ArgumentKey} {a b : ArgumentsResult}

/-- Bags that come to the same come to one thing. -/
theorem ComesTo.unique {good : ArgumentsResult → Prop}
    (twins : Twins loads good (store.get? key) (store'.get? key)) (one : store.ComesTo loads key a)
    (two : store'.ComesTo loads key b) (state : σ) : a = b ∧ good a := by
  obtain ⟨bag, there, answers⟩ := one
  obtain ⟨bag', there', answers'⟩ := two
  rw [there, there'] at twins
  cases twins with
  | ready fine =>
      obtain rfl : _ = a := answers
      obtain rfl : _ = b := answers'
      exact ⟨rfl, fine⟩
  | pending fine here twin =>
      obtain rfl := Pending.Answers.unique here answers state
      obtain rfl := Pending.Answers.unique twin answers' state
      exact ⟨rfl, fine⟩

theorem Becomes.isReady (becomes : store.Becomes store') (ready : store.IsReady key) :
    store'.IsReady key := by
  obtain ⟨result, there⟩ := ready
  obtain ⟨bag, there', became⟩ := becomes key _ there
  exact ⟨result, there'.trans (congrArg some became.of_ready)⟩

end ArgumentStore

/-- What a run waits for comes to one thing wherever its bags come to the same. -/
theorem Wait.Answers.agree {good good' : ArgumentKey → ArgumentsResult → Prop} {wait : Wait σ}
    {one two : Resumption σ} (answers : wait.Answers loads good one)
    (answers' : wait.Answers loads good' two)
    (same : ∀ key a b, good key a → good' key b → a = b) (state : σ) : one = two := by
  cases answers with
  | value answers _ =>
      cases answers' with
      | value answers' _ => rw [answers.unique answers' state]
  | type answers =>
      cases answers' with
      | type answers' => rw [answers.unique answers' state]
  | authorization answers =>
      cases answers' with
      | authorization answers' => rw [answers.unique answers' state]
  | directive answers =>
      cases answers' with
      | directive answers' => rw [answers.unique answers' state]
  | arguments fine =>
      cases answers' with
      | arguments fine' => rw [same _ _ _ fine fine']

/-! ### Polls -/

namespace Wait

/-- A poll changes nothing of a run but its bags. -/
theorem run_poll (s : Stage σ) (wait : Wait σ) :
    (wait.poll s).2.run = { s.run with arguments := (wait.poll s).2.run.arguments } := by
  have by_kind : ∀ {α : Type} (rest : Pending σ α) (answer : α → Resumption σ)
      (wait : Pending σ α → Wait σ), (pollBy rest answer wait s).2.run =
        { s.run with arguments := (pollBy rest answer wait s).2.run.arguments } := by
    intro α rest answer wait
    unfold pollBy
    split <;> rfl
  cases wait with
  | value rest => exact by_kind rest _ _
  | type rest => exact by_kind rest _ _
  | authorization rest => exact by_kind rest _ _
  | directive rest => exact by_kind rest _ _
  | arguments key =>
      show (pollBag key s).2.run = { s.run with arguments := (pollBag key s).2.run.arguments }
      unfold pollBag
      cases s.run.arguments.get? key with
      | none => rfl
      | some bag =>
          simp only
          rcases bag.poll.run s.world with ⟨bag', world⟩
          cases bag' <;> rfl

/-- A poll drives forward no bag but the one that is waited for. -/
theorem poll_elsewhere {wait : Wait σ} {key : ArgumentKey} (other : wait ≠ .arguments key)
    (s : Stage σ) : (wait.poll s).2.run.arguments.get? key = s.run.arguments.get? key := by
  rcases wait.poll_bags s with same | ⟨key', bag, rfl, there, put, -⟩
  · rw [same]
  · rw [put, ArgumentStore.get?_insert, if_neg]
    rintro rfl
    exact other rfl

/-- What is not waited for as a bag is pure; a bag is, if it is there. Otherwise a poll does nothing. -/
theorem pure_or_idle {good : ArgumentKey → ArgumentsResult → Prop} {wait : Wait σ}
    (pure : (∀ key, wait ≠ .arguments key) → wait.Pure loads good) {s : Stage σ}
    (alike : Alike loads good job s s) :
    wait.Pure loads good ∨ wait.poll s = (.pending wait, s) := by
  by_cases other : ∀ key, wait ≠ .arguments key
  · exact .inl (pure other)
  · push Not at other
    obtain ⟨key, rfl⟩ := other
    have twins := alike.bags key
    cases there : s.run.arguments.get? key with
    | none =>
        right
        show pollBag key s = _
        unfold pollBag
        rw [there]
    | some bag =>
        left
        rw [there] at twins
        obtain ⟨result, -, fine⟩ := twins.self
        exact ⟨_, .arguments fine⟩

theorem becomes_poll (wait : Wait σ) (s : Stage σ) :
    s.run.arguments.Becomes (wait.poll s).2.run.arguments := by
  rcases wait.poll_bags s with same | ⟨key, bag, -, there, put, -⟩
  · exact same ▸ .refl _
  · exact put ▸ .drive there s.world

end Wait

/-! ### Steps of a bucket -/

/-- The run that a step of a bucket belongs to. -/
def Awaited.owner : Awaited σ → Nat
  | waiting parked => parked.owner
  | answered owner _ _ => owner

/-- What has become of a step that was taken up, with the bags of its run as they were then and as
they are now: it waits for the same answer, or has been given it. -/
inductive Awaited.Stands (loads : Loads) (before now : ArgumentStore σ) (taken : ParkedStep σ) :
    Awaited σ → Prop
  | waiting {owner : Nat} {wait : Wait σ}
      (pure : (∀ key, wait ≠ .arguments key) → wait.Pure loads (before.ComesTo loads))
      (admits : ∀ answer, wait.Answers loads (before.ComesTo loads) answer →
        taken.wait.Answers loads (before.ComesTo loads) answer)
      (key : ∀ key, wait = .arguments key ↔ taken.wait = .arguments key) :
      Stands loads before now taken (.waiting ⟨owner, taken.step, wait⟩)
  | answered {owner : Nat} {answer : Resumption σ}
      (answers : taken.wait.Answers loads (before.ComesTo loads) answer)
      (there : ∀ key, taken.wait = .arguments key → now.IsReady key) :
      Stands loads before now taken (.answered owner taken.step answer)

theorem Awaited.Stands.becomes {before now later : ArgumentStore σ} {taken : ParkedStep σ}
    {awaited : Awaited σ} (stands : awaited.Stands loads before now taken)
    (becomes : now.Becomes later) : awaited.Stands loads before later taken := by
  cases stands with
  | waiting pure admits key => exact .waiting pure admits key
  | answered answers there => exact .answered answers fun key same => becomes.isReady (there key same)

/-- A step that is polled waits for the same answer, or is given it. -/
theorem Awaited.Stands.polled {before : ArgumentStore σ} {taken parked : ParkedStep σ} {run : Run σ}
    {world : World σ} (stands : (Awaited.waiting parked).Stands loads before run.arguments taken)
    (alike : Alike loads (before.ComesTo loads) job ⟨run, world⟩ ⟨run, world⟩) :
    (Schedule.polled parked (parked.wait.poll ⟨run, world⟩).1).Stands loads before
      (parked.wait.poll ⟨run, world⟩).2.run.arguments taken := by
  cases stands with
  | @waiting owner wait pure admits key =>
      rcases Wait.pure_or_idle pure alike with here | idle
      swap
      · rw [show Wait.poll ⟨run, world⟩ wait = _ from idle]
        exact .waiting pure admits key
      have polls := Wait.polls here alike
      rcases polled : wait.poll ⟨run, world⟩ with ⟨answer | rest, s⟩
      · rw [polled] at polls
        refine .answered (admits _ (polls.answer answer rfl)) fun name same => ?_
        obtain rfl := (key name).mpr same
        obtain ⟨bag, result, -, there, comes, put⟩ := Wait.poll_answered polled
        refine ⟨result, ?_⟩
        rw [put, ArgumentStore.get?_insert, if_pos rfl, comes]
      · rw [polled] at polls
        obtain ⟨rest_pure, back⟩ := polls.rest rest rfl
        refine .waiting (fun _ => rest_pure) (fun answer answers => admits _ (back _ answers))
          fun name => ?_
        rw [← key name]
        constructor
        · rintro rfl
          exact Wait.poll_pending_arguments polled
        · rintro rfl
          exact Wait.pollBag_pending polled

namespace Phase

/-- The steps of a run in the bucket that is taken up. -/
def entriesOf (owner : Nat) (phase : Phase σ) : List (Awaited σ) :=
  phase.entries.filter fun awaited => awaited.owner = owner

end Phase

/-- Polling a step of another run leaves the steps of a run in a bucket as they are. -/
theorem entriesOf_other {owner : Nat} {front back : List (Awaited σ)} {one other : Awaited σ}
    (same : one.owner = other.owner) (differs : one.owner ≠ owner) {line line' : List Nat} :
    (Phase.awaiting (front ++ one :: back) line).entriesOf owner =
      (Phase.awaiting (front ++ other :: back) line').entriesOf owner := by
  have differs' : other.owner ≠ owner := same ▸ differs
  simp [Phase.entriesOf, Phase.entries, differs, differs']

theorem entriesOf_own {owner : Nat} {front back : List (Awaited σ)} {one : Awaited σ}
    (own : one.owner = owner) (line : List Nat) :
    (Phase.awaiting (front ++ one :: back) line).entriesOf owner =
      front.filter (fun awaited => awaited.owner = owner) ++
        one :: back.filter fun awaited => awaited.owner = owner := by
  simp [Phase.entriesOf, Phase.entries, own]

/-- Stages that are alike stay so in other surroundings. -/
theorem Alike.around {good : ArgumentKey → ArgumentsResult → Prop} {run : Run σ} {world : World σ}
    (alike : Alike loads good job ⟨run, world⟩ ⟨run, world⟩) {world' : World σ}
    (keywise : world'.Keywise loads) : Alike loads good job ⟨run, world'⟩ ⟨run, world'⟩ :=
  ⟨alike.same, keywise, keywise, alike.bags, alike.steps⟩

/-- Whatever is known of the bags of a run, they come to what they come to. -/
theorem Alike.comes {good : ArgumentKey → ArgumentsResult → Prop} {run : Run σ} {world : World σ}
    (alike : Alike loads good job ⟨run, world⟩ ⟨run, world⟩) :
    Alike loads (run.arguments.ComesTo loads) job ⟨run, world⟩ ⟨run, world⟩ := by
  refine ⟨alike.same, alike.here, alike.there, fun key => ?_, alike.steps⟩
  have twins := alike.bags key
  show Twins loads _ (run.arguments.get? key) (run.arguments.get? key)
  cases there : run.arguments.get? key with
  | none => exact .none
  | some bag =>
      rw [show (Stage.run ⟨run, world⟩).arguments.get? key = some bag from there] at twins
      obtain ⟨result, answers, -⟩ := twins.self
      exact .of_answers ⟨bag, there, answers⟩ answers answers rfl

/-- Only of bags more has to be known than what is waited for. -/
theorem Wait.Pure.elsewhere {good good' : ArgumentKey → ArgumentsResult → Prop} {wait : Wait σ}
    (pure : wait.Pure loads good) (kind : ∀ key, wait ≠ .arguments key) : wait.Pure loads good' := by
  obtain ⟨resumption, answers⟩ := pure
  cases answers with
  | value answers fine => exact ⟨_, .value answers fine⟩
  | type answers => exact ⟨_, .type answers⟩
  | authorization answers => exact ⟨_, .authorization answers⟩
  | directive answers => exact ⟨_, .directive answers⟩
  | arguments _ => exact absurd rfl (kind _)

/-! ### While a bucket is taken up -/

namespace Schedule

variable {schedule next : Schedule σ} {owner : Nat} {run before : Run σ}
  {taken : List (ParkedStep σ)}

/-- A bucket is taken up. -/
def Busy (schedule : Schedule σ) : Prop :=
  ∀ turn, schedule.phase ≠ .draining turn

/-- Steps of a run have been taken up with a bucket, from a run as it was then. -/
structure Transit (loads : Loads) (job : Job σ) (taken : List (ParkedStep σ)) (before : Run σ)
    (owner : Nat) (schedule : Schedule σ) (run : Run σ) : Prop where
  here : schedule.runs[owner]? = some (job, run)
  same : run = { before with arguments := run.arguments }
  alike : Alike loads (before.arguments.ComesTo loads) job ⟨run, schedule.world⟩
    ⟨run, schedule.world⟩
  others : ∀ key, (∀ parked ∈ taken, parked.wait ≠ .arguments key) →
    run.arguments.get? key = before.arguments.get? key
  entries : List.Forall₂
    (fun parked awaited => awaited.Stands loads before.arguments run.arguments parked) taken
    (schedule.phase.entriesOf owner)

/-- A poll of one of the steps of the run. -/
theorem Transit.poll_own {parked : ParkedStep σ} {front back : List (Awaited σ)} {line line' : List Nat}
    (phase : schedule.phase = .awaiting (front ++ .waiting parked :: back) line)
    (transit : schedule.Transit loads job taken before parked.owner run)
    (keywise : (schedule.poll parked).2.world.Keywise loads) :
    ∃ run', ({ (schedule.poll parked).2 with
      phase := .awaiting (front ++ (schedule.poll parked).1 :: back) line' } : Schedule σ).Transit
        loads job taken before parked.owner run' := by
  obtain ⟨here, same, alike, others, entries⟩ := transit
  obtain ⟨outcome, world, here'⟩ := Schedule.poll_own parked here
  have mine : (Awaited.waiting parked).owner = parked.owner := rfl
  rw [phase, entriesOf_own mine] at entries
  have becomes := parked.wait.becomes_poll ⟨run, schedule.world⟩
  obtain ⟨first, one, rest, rfl, before_it, stands, behind⟩ :
      ∃ first one rest, taken = first ++ one :: rest ∧
        List.Forall₂ (fun parked awaited => awaited.Stands loads before.arguments run.arguments parked)
          first (front.filter fun awaited => awaited.owner = parked.owner) ∧
        (Awaited.waiting parked).Stands loads before.arguments run.arguments one ∧
        List.Forall₂ (fun parked awaited => awaited.Stands loads before.arguments run.arguments parked)
          rest (back.filter fun awaited => awaited.owner = parked.owner) := by
    have split := List.forall₂_take_append _ _ _ entries
    have split' := List.forall₂_drop_append _ _ _ entries
    generalize taken_front : taken.take _ = first at split
    generalize taken_back : taken.drop _ = later at split'
    cases split' with
    | @cons one _ rest _ stands behind =>
        refine ⟨first, one, rest, ?_, split, stands, behind⟩
        rw [← taken_front, ← taken_back, List.take_append_drop]
  have polled : Alike loads (before.arguments.ComesTo loads) job
      ((parked.wait.poll ⟨run, schedule.world⟩).2) (parked.wait.poll ⟨run, schedule.world⟩).2 := by
    cases stands with
    | waiting pure _ _ =>
        rcases Wait.pure_or_idle pure alike with here | idle
        · exact (Wait.polls here alike).stage
        · exact idle ▸ alike
  refine ⟨_, here', ?_, ?_, fun key apart => ?_, ?_⟩
  · exact (parked.wait.run_poll ⟨run, schedule.world⟩).trans (by rw [same])
  · exact polled.around keywise
  · have other : parked.wait ≠ .arguments key := by
      have apart_one := apart one (List.mem_append_right _ List.mem_cons_self)
      cases stands with
      | waiting _ _ kinds => exact fun same => apart_one ((kinds key).mp same)
    exact (Wait.poll_elsewhere other _).trans (others key apart)
  · have own : (schedule.poll parked).1.owner = parked.owner := by
      rw [outcome]
      unfold Schedule.polled
      split <;> rfl
    rw [entriesOf_own own, outcome]
    refine List.rel_append (before_it.imp fun _ _ stands => stands.becomes becomes) ?_
    exact .cons (stands.polled alike) (behind.imp fun _ _ stands => stands.becomes becomes)

/-- While a bucket is taken up, its steps of a run stay on their way to their answers. -/
theorem Transit.step (transit : schedule.Transit loads job taken before owner run)
    (pure : schedule.Pure loads) (busy : schedule.Busy) (turn : schedule.step = .again next)
    (still : next.Busy) :
    (∃ run', next.Transit loads job taken before owner run') ∧ next.buckets = schedule.buckets := by
  obtain ⟨keywise, -⟩ := pure.keywise turn
  obtain ⟨here, same, alike, others, entries⟩ := transit
  have aside (run_same : next.runs[owner]? = schedule.runs[owner]?)
      (entries_same : next.phase.entriesOf owner = schedule.phase.entriesOf owner) :
      ∃ run', next.Transit loads job taken before owner run' :=
    ⟨run, run_same.trans here, same, alike.around keywise, others, entries_same ▸ entries⟩
  cases goesOn_of_step turn with
  | advanced phase | released phase | passed phase | taken phase => exact absurd phase (busy _)
  | fetching phase | fetched phase | linedUp phase => exact ⟨aside rfl (by rw [phase]; rfl), rfl⟩
  | @polled bucket place line phase =>
      refine ⟨?_, buckets_pollAt bucket place line⟩
      rcases schedule.pollAt_cases bucket place line with
        ⟨parked, front, back, line', -, rfl, polled⟩ | ⟨-, polled⟩
      · rw [polled] at aside keywise ⊢
        by_cases own : parked.owner = owner
        · subst own
          exact Transit.poll_own phase ⟨here, same, alike, others, entries⟩ keywise
        · obtain ⟨⟨outcome, awaited⟩, runs, -⟩ := schedule.poll_aside parked
          refine aside (runs owner own) ?_
          rw [phase]
          have apart : (Awaited.waiting parked).owner ≠ owner := own
          refine (entriesOf_other ?_ apart).symm
          rw [awaited]
          cases outcome <;> rfl
      · rw [polled] at aside ⊢
        exact aside rfl (by rw [phase]; rfl)
  | resumed phase found resumes => exact absurd (resumeAll_eq _ resumes).2.1 (still 0)

/-! ### From when a bucket is taken up -/

/-- What is known of a run of a pure schedule. -/
theorem Pure.alike (pure : schedule.Pure loads) (here : schedule.runs[owner]? = some (job, run)) :
    Alike loads (job.Tells loads) job ⟨run, schedule.world⟩ ⟨run, schedule.world⟩ := by
  obtain ⟨weave, shares, own⟩ := pure.runs owner job run here
  obtain ⟨-, rfl⟩ := shares.same_run here
  rw [← shares.world]
  exact own.stage

/-- A run of which no step is taken up. -/
theorem Pure.rests (pure : schedule.Pure loads) (here : schedule.runs[owner]? = some (job, run))
    (nothing : schedule.phase.entriesOf owner = []) :
    schedule.Transit loads job [] run owner run :=
  ⟨here, rfl, (pure.alike here).comes, fun _ _ => rfl, nothing ▸ .nil⟩

/-- A run whose steps have just been taken up. -/
theorem Pure.transit (pure : schedule.Pure loads) (here : schedule.runs[owner]? = some (job, run))
    {bucket : List (ParkedStep σ)} {flushes : List (World.Flush σ)}
    (phase : schedule.phase = .flushing bucket flushes) :
    schedule.Transit loads job (Buckets.partOf owner bucket) run owner run := by
  refine ⟨here, rfl, (pure.alike here).comes, fun _ _ => rfl, ?_⟩
  have entries : schedule.phase.entriesOf owner =
      (bucket.filter fun parked => parked.owner = owner).map .waiting := by
    rw [phase]
    exact List.filter_map
  rw [entries, Buckets.partOf, List.forall₂_map_left_iff, List.forall₂_map_right_iff,
    List.forall₂_same]
  intro parked mem
  obtain ⟨there, own⟩ := List.mem_filter.mp mem
  have own : parked.owner = owner := of_decide_eq_true own
  refine .waiting (fun kind => ?_) (fun _ answers => answers) fun _ => .rfl
  obtain ⟨weave, shares, own_pure⟩ := pure.runs owner job run here
  have asleep : (parked.step, parked.wait) ∈ weave.asleep := by
    refine shares.asleep.mem_iff.mpr (List.mem_filterMap.mpr ⟨parked, ?_, if_pos own⟩)
    rw [phase]
    exact List.mem_append_left _ there
  exact Wait.Pure.elsewhere (own_pure.asleep _ asleep).2 kind

/-! ### Until its steps are resumed -/

/-- A bucket that is taken up is not done with until all of its steps are answered. -/
theorem Busy.goes_on (busy : schedule.Busy) :
    (∃ next, schedule.step = .again next ∧ next.Busy) ∨
      ∃ bucket answers, schedule.phase = .awaiting bucket [] ∧ answers? bucket = some answers := by
  cases phase : schedule.phase with
  | draining owner => exact absurd phase (busy owner)
  | flushing bucket flushes =>
      have turn : schedule.step = schedule.flush bucket flushes := by
        simp only [Schedule.step, phase]
      cases flushes with
      | nil => exact .inl ⟨_, turn, fun owner drains => by cases drains⟩
      | cons => exact .inl ⟨_, turn, fun owner drains => by cases drains⟩
  | awaiting bucket line =>
      cases line with
      | cons place line =>
          refine .inl ⟨_, step_poll phase, fun owner drains => ?_⟩
          rcases schedule.pollAt_cases bucket place line with ⟨_, _, _, _, -, -, same⟩ | ⟨-, same⟩
          · cases (congrArg Schedule.phase same).symm.trans drains
          · cases (congrArg Schedule.phase same).symm.trans drains
      | nil =>
          cases found : answers? bucket with
          | none => exact .inl ⟨_, step_line_up phase found, fun owner drains => by cases drains⟩
          | some answers => exact .inr ⟨bucket, answers, rfl, found⟩

/-- The steps of a run in a bucket that is taken up come to be answered, if that comes to an end at
all. -/
theorem Transit.ends : ∀ {fuel : Nat} {schedule last : Schedule σ} {run : Run σ}
    {result : Except FatalError Unit}, run? fuel schedule = some (result, last) →
    schedule.Pure loads → schedule.Busy → schedule.Transit loads job taken before owner run →
    ∃ later run' bucket answers, schedule.Visits later ∧
      later.Transit loads job taken before owner run' ∧ later.buckets = schedule.buckets ∧
      later.phase = .awaiting bucket [] ∧ answers? bucket = some answers := by
  intro fuel
  induction fuel with
  | zero => intro _ _ _ _ ran; cases ran
  | succ fuel ih =>
      intro schedule last run result ran pure busy transit
      rcases busy.goes_on with ⟨next, turn, still⟩ | ⟨bucket, answers, phase, found⟩
      · rw [run?, turn] at ran
        obtain ⟨⟨run', transit'⟩, buckets⟩ := transit.step pure busy turn still
        obtain ⟨later, run'', bucket, answers, visits, transit'', same, phase, found⟩ :=
          ih ran (pure.step turn) still transit'
        refine ⟨later, run'', bucket, answers, ?_, transit'', same.trans buckets, phase, found⟩
        exact Visits.trans (.step .start turn) visits
      · exact ⟨schedule, run, bucket, answers, .start, transit, rfl, phase, found⟩

/-- Each of the steps of a run has been answered what it waited for. -/
theorem Transit.answered (transit : schedule.Transit loads job taken before owner run)
    {bucket : List (Awaited σ)} {line : List Nat} {answers : List (Nat × Step σ × Resumption σ)}
    (phase : schedule.phase = .awaiting bucket line) (found : answers? bucket = some answers) :
    List.Forall₂ (fun parked entry => parked.step = entry.1 ∧
      parked.wait.Answers loads (before.arguments.ComesTo loads) entry.2 ∧
      ∀ key, parked.wait = .arguments key → run.arguments.IsReady key) taken (own owner answers) := by
  have entries : schedule.phase.entriesOf owner =
      (own owner answers).map fun entry => .answered owner entry.1 entry.2 := by
    rw [phase, answers_eq found]
    clear phase found
    induction answers with
    | nil => rfl
    | cons entry rest ih =>
        by_cases own : entry.1 = owner
        · simp_all [Phase.entriesOf, Phase.entries, Schedule.own, Awaited.owner]
        · simp_all [Phase.entriesOf, Phase.entries, Schedule.own, Awaited.owner]
  have stands := transit.entries
  rw [entries, List.forall₂_map_right_iff] at stands
  refine stands.imp fun parked entry stands => ?_
  generalize same : Awaited.answered owner entry.1 entry.2 = awaited at stands
  cases stands with
  | waiting => cases same
  | answered answers there =>
      injection same with _ step answer
      exact ⟨step.symm, answer ▸ answers, there⟩

/-- Whoever is answered the same waits for the same. -/
theorem answers_agree {good good' : ArgumentKey → ArgumentsResult → Prop}
    {answers answers' : List (Step σ × Resumption σ)} {P P' : ParkedStep σ → Prop}
    (same : ∀ key a b, good key a → good' key b → a = b) (state : σ)
    (one : List.Forall₂ (fun parked entry => parked.step = entry.1 ∧
      parked.wait.Answers loads good entry.2 ∧ P parked) taken answers)
    (two : List.Forall₂ (fun parked entry => parked.step = entry.1 ∧
      parked.wait.Answers loads good' entry.2 ∧ P' parked) taken answers') : answers = answers' := by
  induction one generalizing answers' with
  | nil =>
      cases two
      rfl
  | @cons parked entry taken answers first _ ih =>
      cases two with
      | cons first' rest' =>
          obtain ⟨step, answered, -⟩ := first
          obtain ⟨step', answered', -⟩ := first'
          rw [ih rest']
          refine congrArg (· :: _) (Prod.ext (step.symm.trans step') ?_)
          exact Wait.Answers.agree answered answered' same state

end Schedule

end GraphExec
