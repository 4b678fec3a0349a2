import GraphExec.Proofs.Pure.Transitions
import GraphExec.Proofs.Run.Course

/-!
# The course of a pure run

Whatever moves a pure run makes, it stays pure, as long as the sources that surround it stay
keywise. The draft only grows meanwhile, so that a node is in the end where it is when a step meets
it.
-/

namespace GraphExec

variable {σ α : Type} {loads : Loads} {good : ArgumentKey → ArgumentsResult → Prop} {job : Job σ}

/-! ### Polls -/

/-- What is left of code has one answer. -/
theorem Pending.Answers.unique {pending : Pending σ α} {a b : α} (one : pending.Answers loads a)
    (two : pending.Answers loads b) (state : σ) : a = b := by
  cases pending with
  | start lazy => exact (Lazy.Answers.answer one state).symm.trans (Lazy.Answers.answer two state)
  | waiting key progress next =>
      exact (Lazy.Answers.answer one.2.2 state).symm.trans (Lazy.Answers.answer two.2.2 state)

/-- A poll of a pure run: what is answered was to be answered, and what is left still is. -/
structure Wait.Polls (loads : Loads) (good : ArgumentKey → ArgumentsResult → Prop) (job : Job σ)
    (wait : Wait σ) (result : Polled (Resumption σ) (Wait σ) × Stage σ) : Prop where
  stage : Alike loads good job result.2 result.2
  answer : ∀ resumption, result.1 = .ready resumption → wait.Answers loads good resumption
  rest : ∀ rest, result.1 = .pending rest → rest.Pure loads good ∧
    ∀ resumption, rest.Answers loads good resumption → wait.Answers loads good resumption

theorem Wait.polls_by {rest : Pending σ α} {a : α} {answer : α → Resumption σ}
    {wait : Pending σ α → Wait σ} (answers : rest.Answers loads a)
    (one : ∀ rest resumption, (wait rest).Answers loads good resumption →
      ∃ b, rest.Answers loads b ∧ resumption = answer b)
    (back : ∀ rest, rest.Answers loads a → (wait rest).Answers loads good (answer a))
    {s : Stage σ} (alike : Alike loads good job s s) :
    (wait rest).Polls loads good job (pollBy rest answer wait s) := by
  have advances := answers.poll alike.here
  have after : ∀ world : World σ, world.Keywise loads →
      Alike loads good job { s with world } { s with world } := fun world keywise =>
    ⟨alike.same, keywise, keywise, alike.bags, alike.steps⟩
  unfold pollBy
  rcases polled : rest.poll.run s.world with ⟨result | left, world⟩
  · rw [show rest.poll s.world = (.ready result, world) from polled] at advances
    obtain ⟨keywise, same⟩ := advances
    obtain rfl : result = a := same
    refine ⟨after world keywise, fun resumption same => ?_, nofun⟩
    injection same with same
    exact same ▸ back rest answers
  · rw [show rest.poll s.world = (.pending left, world) from polled] at advances
    obtain ⟨keywise, answers'⟩ := advances
    refine ⟨after world keywise, nofun, fun other same => ?_⟩
    injection same with same
    subst same
    refine ⟨⟨answer a, back left answers'⟩, fun resumption told => ?_⟩
    obtain ⟨b, answers'', rfl⟩ := one left resumption told
    obtain rfl := answers'.unique answers'' s.world.app
    exact back rest answers

theorem Twins.self {good : ArgumentsResult → Prop} {bag : SharedArguments σ}
    (twins : Twins loads good (some bag) (some bag)) :
    ∃ result, bag.Answers loads result ∧ good result := by
  cases twins with
  | ready fine => exact ⟨_, rfl, fine⟩
  | pending fine here _ => exact ⟨_, here, fine⟩

/-- A poll of a bag leaves what comes to the same. -/
theorem SharedArguments.Answers.poll {bag : SharedArguments σ} {result : ArgumentsResult}
    (answers : bag.Answers loads result) {world : World σ} (keywise : world.Keywise loads) :
    (bag.poll.run world).1.Answers loads result ∧ (bag.poll.run world).2.Keywise loads := by
  cases bag with
  | ready r => exact ⟨answers, keywise⟩
  | pending rest =>
      have advances := Pending.Answers.poll answers keywise
      simp only [SharedArguments.poll, StateT.run_bind]
      rcases polled : rest.poll.run world with ⟨answer | left, world'⟩
      · rw [show rest.poll world = (.ready answer, world') from polled] at advances
        exact ⟨advances.2, advances.1⟩
      · rw [show rest.poll world = (.pending left, world') from polled] at advances
        exact ⟨advances.2, advances.1⟩

theorem Twins.of_answers {good : ArgumentsResult → Prop} {bag bag' : SharedArguments σ}
    {result : ArgumentsResult} (fine : good result) (here : bag.Answers loads result)
    (there : bag'.Answers loads result) (level : bag.result?.isSome = bag'.result?.isSome) :
    Twins loads good (some bag) (some bag') := by
  cases bag with
  | ready r =>
      cases bag' with
      | ready r' =>
          obtain rfl : r = result := here
          obtain rfl : r' = r := there
          exact .ready fine
      | pending rest' => cases level
  | pending rest =>
      cases bag' with
      | ready r' => cases level
      | pending rest' => exact .pending fine here there

theorem Wait.polls_bag {key : ArgumentKey} (pure : (Wait.arguments key : Wait σ).Pure loads good)
    {s : Stage σ} (alike : Alike loads good job s s) :
    (Wait.arguments key).Polls loads good job (pollBag key s) := by
  unfold pollBag
  cases found : s.run.arguments.get? key with
  | none =>
      refine ⟨alike, nofun, fun rest same => ?_⟩
      injection same with same
      subst same
      exact ⟨pure, fun _ told => told⟩
  | some bag =>
      have twins := alike.bags key
      rw [found] at twins
      obtain ⟨result, answers, fine⟩ := twins.self
      obtain ⟨answers', keywise⟩ := answers.poll alike.here
      simp only
      rcases polled : bag.poll.run s.world with ⟨bag', world⟩
      rw [polled] at answers' keywise
      have moved : Alike loads good job { s with world } { s with world } :=
        ⟨alike.same, keywise, keywise, alike.bags, alike.steps⟩
      have after := moved.insert (Twins.of_answers fine answers' answers' rfl)
      cases bag' with
      | ready r =>
          obtain rfl : r = result := answers'
          refine ⟨after, fun resumption same => ?_, nofun⟩
          injection same with same
          exact same ▸ .arguments fine
      | pending rest =>
          refine ⟨after, nofun, fun other same => ?_⟩
          injection same with same
          subst same
          exact ⟨pure, fun _ told => told⟩

/-- A poll of a pure run. -/
theorem Wait.polls {wait : Wait σ} (pure : wait.Pure loads good) {s : Stage σ}
    (alike : Alike loads good job s s) : wait.Polls loads good job (wait.poll s) := by
  obtain ⟨resumption, answers⟩ := pure
  cases answers with
  | value answers pure_result =>
      refine polls_by answers ?_ (fun _ answers => .value answers pure_result) alike
      intro rest resumption told
      cases told with
      | value answers _ => exact ⟨_, answers, rfl⟩
  | type answers =>
      refine polls_by answers ?_ (fun _ answers => .type answers) alike
      intro rest resumption told
      cases told with
      | type answers => exact ⟨_, answers, rfl⟩
  | authorization answers =>
      refine polls_by answers ?_ (fun _ answers => .authorization answers) alike
      intro rest resumption told
      cases told with
      | authorization answers => exact ⟨_, answers, rfl⟩
  | directive answers =>
      refine polls_by answers ?_ (fun _ answers => .directive answers) alike
      intro rest resumption told
      cases told with
      | directive answers => exact ⟨_, answers, rfl⟩
  | arguments fine => exact polls_bag ⟨_, .arguments fine⟩ alike

/-! ### Pure runs -/

/-- What is met in a move of a pure run. -/
def Sight.Pure (loads : Loads) (good : ArgumentKey → ArgumentsResult → Prop) (job : Job σ) :
    Sight σ → Prop
  | advanced step s => step.Pure loads job ∧ Alike loads good job s s
  | polled wait s => wait.Pure loads good ∧ Alike loads good job s s
  | changed world => world.Keywise loads
  | woken => True

namespace Weave

/-- A run of which nothing but pure steps is left to do. -/
structure Pure (loads : Loads) (good : ArgumentKey → ArgumentsResult → Prop) (job : Job σ)
    (weave : Weave σ) : Prop where
  stage : Alike loads good job weave.stage weave.stage
  asleep : ∀ entry ∈ weave.asleep, entry.1.Pure loads job ∧ entry.2.Pure loads good
  called : ∀ entry ∈ weave.called, entry.1.Pure loads job ∧ entry.2.Pure loads

/-- A stage of fewer steps. -/
theorem alike_of_steps {s : Stage σ} (alike : Alike loads good job s s) {run : Run σ}
    (bags : run.arguments = s.run.arguments)
    (steps : ∀ step ∈ run.ready ++ run.held, step.Pure loads job) :
    Alike loads good job { s with run } { s with run } := by
  refine ⟨rfl, alike.here, alike.there, fun key => ?_, steps⟩
  show Twins loads (good key) (run.arguments.get? key) (run.arguments.get? key)
  rw [bags]
  exact alike.bags key

theorem Pure.place {weave : Weave σ} (pure : weave.Pure loads good job) {progress : Progress σ}
    (fine : progress.Pure loads good job) : (weave.place progress).Pure loads good job := by
  cases progress with
  | again step =>
      refine ⟨alike_of_steps pure.stage rfl fun other mem => ?_, pure.asleep, pure.called⟩
      rcases List.mem_cons.mp mem with rfl | mem
      · exact fine
      · exact pure.stage.steps other mem
  | finished => exact pure
  | parked step depth wait =>
      refine ⟨alike_of_steps pure.stage rfl pure.stage.steps, fun entry mem => ?_, pure.called⟩
      rcases List.mem_cons.mp mem with rfl | mem
      · exact fine
      · exact pure.asleep entry mem

/-- A move of a pure run meets pure steps, and leaves the run pure. -/
theorem Move.pure (fine : job.Fine loads good) {first last : Weave σ} {sight : Sight σ}
    (move : Move job first sight last) (own : first.Pure loads good job)
    (changes : ∀ world, sight = .changed world → world.Keywise loads) :
    sight.Pure loads good job ∧ last.Pure loads good job := by
  cases move with
  | @advance step ready progress s picked advanced =>
      have member : ∀ other, other ∈ step :: ready ++ first.run.held →
          other ∈ first.run.ready ++ first.run.held := by
        intro other mem
        rcases List.mem_append.mp mem with mem | mem
        · exact List.mem_append_left _ (picked.mem_iff.mpr mem)
        · exact List.mem_append_right _ mem
      have step_pure := own.stage.steps step (member step List.mem_cons_self)
      have stage : Alike loads good job ⟨{ first.run with ready }, first.world⟩
          ⟨{ first.run with ready }, first.world⟩ :=
        alike_of_steps own.stage rfl
          fun other mem => own.stage.steps other (member other (List.mem_cons_of_mem _ mem))
      obtain ⟨progress_pure, after⟩ := (Step.agrees_advance fine step_pure).gives stage advanced
      have weave : Pure loads good job { first with run := s.run, world := s.world } :=
        ⟨after, own.asleep, own.called⟩
      exact ⟨⟨step_pure, stage⟩, weave.place progress_pure⟩
  | @release step held idle top none_parked =>
      refine ⟨trivial, ?_, own.asleep, own.called⟩
      have steps : ∀ other ∈ [step] ++ held, other.Pure loads job := by
        intro other mem
        refine own.stage.steps other ?_
        show other ∈ first.run.ready ++ first.run.held
        rw [idle, top]
        exact mem
      have fewer : Alike loads good job ⟨{ first.run with ready := [step], held }, first.world⟩
          ⟨{ first.run with ready := [step], held }, first.world⟩ :=
        alike_of_steps own.stage rfl steps
      exact ⟨fewer.same, fewer.here.clearCache, fewer.there.clearCache, fewer.bags, fewer.steps⟩
  | @wait step wait rest others s picked polled =>
      have entry := own.asleep _ (picked.mem_iff.mpr List.mem_cons_self)
      have polls := Wait.polls entry.2 own.stage
      rw [polled] at polls
      refine ⟨⟨entry.2, own.stage⟩, polls.stage, fun other mem => ?_, own.called⟩
      rcases List.mem_cons.mp mem with rfl | mem
      · exact ⟨entry.1, (polls.rest rest rfl).1⟩
      · exact own.asleep other (picked.mem_iff.mpr (List.mem_cons_of_mem _ mem))
  | @answer step wait resumption others s picked polled =>
      have entry := own.asleep _ (picked.mem_iff.mpr List.mem_cons_self)
      have polls := Wait.polls entry.2 own.stage
      rw [polled] at polls
      refine ⟨⟨entry.2, own.stage⟩, polls.stage, fun other mem => ?_, fun other mem => ?_⟩
      · exact own.asleep other (picked.mem_iff.mpr (List.mem_cons_of_mem _ mem))
      · rcases List.mem_cons.mp mem with rfl | mem
        · exact ⟨entry.1, (polls.answer resumption rfl).pure⟩
        · exact own.called other mem
  | @resume step next resumption others picked resumes =>
      have entry := own.called _ (picked.mem_iff.mpr List.mem_cons_self)
      have next_pure := entry.1.resume entry.2 resumes
      refine ⟨trivial, alike_of_steps own.stage rfl fun other mem => ?_, own.asleep,
        fun other mem => own.called other (picked.mem_iff.mpr (List.mem_cons_of_mem _ mem))⟩
      simp only [List.append_assoc, List.mem_append, List.mem_singleton] at mem
      rcases mem with mem | rfl | mem
      · exact own.stage.steps other (List.mem_append_left _ mem)
      · exact next_pure
      · exact own.stage.steps other (List.mem_append_right _ mem)
  | change world =>
      have keywise := changes world rfl
      exact ⟨keywise, ⟨own.stage.same, keywise, keywise, own.stage.bags, own.stage.steps⟩,
        own.asleep, own.called⟩

/-- A pure run meets nothing but pure steps. -/
theorem Path.pure (fine : job.Fine loads good) {seen : Sight σ → Prop} {first last : Weave σ}
    (path : Path job seen first last) (own : first.Pure loads good job)
    (changes : ∀ world, seen (.changed world) → world.Keywise loads) :
    Path job (fun sight => seen sight ∧ sight.Pure loads good job) first last ∧
      last.Pure loads good job := by
  induction path with
  | refl => exact ⟨.refl _, own⟩
  | step _ allowed move ih =>
      obtain ⟨before, pure⟩ := ih
      obtain ⟨sight, after⟩ := move.pure fine pure fun world same => changes world (same ▸ allowed)
      exact ⟨.step before ⟨allowed, sight⟩ move, after⟩

/-- A run that has not been begun is pure. -/
theorem pure_start (fine : job.Fine loads good) {type : ObjectType σ}
    (known : job.schema.rootType? job.operation.kind = some type) {world : World σ}
    (keywise : world.Keywise loads) : (start job type world).Pure loads good job := by
  have own : job.schema.objectType? type.name = some type := by
    unfold Schema.rootType? at known
    split at known
    · exact fine.own known
    · obtain ⟨name, -, found⟩ := Option.bind_eq_some_iff.mp known
      exact fine.own found
    · obtain ⟨name, -, found⟩ := Option.bind_eq_some_iff.mp known
      exact fine.own found
  have step : ∀ subject, (Step.object (.root job type subject)).Pure loads job := fun subject =>
    ⟨trivial, fun _ mem => .operation mem, own⟩
  refine ⟨⟨rfl, keywise, keywise, fun key => ?_, ?_⟩, fun _ mem => absurd mem List.not_mem_nil,
    fun _ mem => absurd mem List.not_mem_nil⟩
  · unfold start stage Run.start
    cases job.root <;> exact .none
  · unfold start stage Run.start
    cases job.root with
    | data v => exact fun other mem => List.mem_singleton.mp mem ▸ step _
    | object o => exact fun other mem => List.mem_singleton.mp mem ▸ step _

end Weave

end GraphExec
