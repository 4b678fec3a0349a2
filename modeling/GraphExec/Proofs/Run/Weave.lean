import GraphExec.Proofs.Run.Transitions

/-!
# Runs in any order

The run of one job as a system of its own: any ready step may go on, any parked step may be polled
or, when it is answered, resumed, and what surrounds the run may change meanwhile. A held step is
released as in a schedule.
-/

namespace GraphExec

variable {σ : Type}

namespace Wait

/-- Drives forward what is waited for, by its own kind. -/
def pollBy {α : Type} (rest : Pending σ α) (answer : α → Resumption σ)
    (wait : Pending σ α → Wait σ) (s : Stage σ) : Polled (Resumption σ) (Wait σ) × Stage σ :=
  match rest.poll.run s.world with
  | (.ready result, world) => (.ready (answer result), { s with world })
  | (.pending rest, world) => (.pending (wait rest), { s with world })

/-- Drives forward a bag of arguments that is waited for. -/
def pollBag (key : ArgumentKey) (s : Stage σ) : Polled (Resumption σ) (Wait σ) × Stage σ :=
  match s.run.arguments.get? key with
  | none => (.pending (.arguments key), s)
  | some bag =>
    let (bag, world) := bag.poll.run s.world
    let s : Stage σ := ⟨{ s.run with arguments := s.run.arguments.insert key bag }, world⟩
    match bag.result? with
    | some result => (.ready (.arguments result), s)
    | none => (.pending (.arguments key), s)

/-- Drives forward what a parked step of a run waits for. -/
def poll (s : Stage σ) : Wait σ → Polled (Resumption σ) (Wait σ) × Stage σ
  | .value rest => pollBy rest .value .value s
  | .type rest => pollBy rest .type .type s
  | .authorization rest => pollBy rest .authorization .authorization s
  | .directive rest => pollBy rest .directive .directive s
  | .arguments key => pollBag key s

theorem sameTree_pollBy {α : Type} (rest : Pending σ α) (answer : α → Resumption σ)
    (wait : Pending σ α → Wait σ) (s : Stage σ) : SameTree s (pollBy rest answer wait s).2 := by
  unfold pollBy
  split <;> exact ⟨rfl, rfl, rfl, rfl⟩

theorem sameTree_pollBag (key : ArgumentKey) (s : Stage σ) : SameTree s (pollBag key s).2 := by
  unfold pollBag
  split
  · exact .refl s
  · rename_i bag _
    rcases bag.poll.run s.world with ⟨bag, world⟩
    cases bag with
    | ready result => exact ⟨rfl, rfl, rfl, rfl⟩
    | pending rest => exact ⟨rfl, rfl, rfl, rfl⟩

theorem sameTree_poll (s : Stage σ) (wait : Wait σ) : SameTree s (wait.poll s).2 := by
  cases wait with
  | value rest => exact sameTree_pollBy rest _ _ s
  | type rest => exact sameTree_pollBy rest _ _ s
  | authorization rest => exact sameTree_pollBy rest _ _ s
  | directive rest => exact sameTree_pollBy rest _ _ s
  | arguments key => exact sameTree_pollBag key s

theorem sameTree_of_poll {wait : Wait σ} {s t : Stage σ}
    {outcome : Polled (Resumption σ) (Wait σ)} (polled : wait.poll s = (outcome, t)) :
    SameTree s t := by
  have same := wait.sameTree_poll s
  rwa [polled] at same

/-- A poll for a bag of arguments that is not answered waits for the same. -/
theorem pollBag_pending {key : ArgumentKey} {rest : Wait σ} {s t : Stage σ}
    (polls : Wait.poll s (.arguments key) = (.pending rest, t)) : rest = .arguments key := by
  have bag : pollBag key s = _ := polls
  unfold pollBag at bag
  split at bag
  · injection bag with bag
    injection bag with bag
    exact bag.symm
  · dsimp only at bag
    split at bag
    split at bag
    · cases bag
    · injection bag with bag
      injection bag with bag
      exact bag.symm

end Wait

/-- The run of one job, its parked steps, and what surrounds it. -/
structure Weave (σ : Type) where
  /-- The run. -/
  run : Run σ
  /-- What surrounds it. -/
  world : World σ
  /-- The steps that wait. -/
  asleep : List (Step σ × Wait σ)
  /-- The steps that have been answered and not been resumed. -/
  called : List (Step σ × Resumption σ)

/-- What happens in a move. -/
inductive Sight (σ : Type) where
  /-- A step goes on, at a stage. -/
  | advanced (step : Step σ) (stage : Stage σ)
  /-- What a step waits for is driven forward, at a stage. -/
  | polled (wait : Wait σ) (stage : Stage σ)
  /-- What surrounds the run has become another. -/
  | changed (world : World σ)
  /-- A held step is released, or a step is resumed. -/
  | woken

namespace Weave

def stage (weave : Weave σ) : Stage σ := ⟨weave.run, weave.world⟩

/-- The run of a job that has not been begun. -/
def start (job : Job σ) (type : ObjectType σ) (world : World σ) : Weave σ :=
  ⟨Run.start job type, world, [], []⟩

/-- Nothing is left to do. -/
structure Finished (weave : Weave σ) : Prop where
  ready : weave.run.ready = []
  held : weave.run.held = []
  asleep : weave.asleep = []
  called : weave.called = []

/-- Takes up what a step has come to. -/
def place (weave : Weave σ) : Progress σ → Weave σ
  | .again step => { weave with run := { weave.run with ready := step :: weave.run.ready } }
  | .finished => weave
  | .parked step _ wait =>
    { weave with
      run := { weave.run with parked := weave.run.parked + 1 }
      asleep := (step, wait) :: weave.asleep }

/-- Whoever waits then waited before, or is what the step has come to. -/
theorem asleep_place {weave : Weave σ} {progress : Progress σ} {entry : Step σ × Wait σ}
    (mem : entry ∈ (weave.place progress).asleep) :
    entry ∈ weave.asleep ∨ ∃ depth, progress = .parked entry.1 depth entry.2 := by
  cases progress with
  | again next => exact .inl mem
  | finished => exact .inl mem
  | parked next depth wait =>
      rcases List.mem_cons.mp mem with rfl | mem
      · exact .inr ⟨depth, rfl⟩
      · exact .inl mem

/-- What may happen next. -/
inductive Move (job : Job σ) : Weave σ → Sight σ → Weave σ → Prop
  | advance {weave : Weave σ} {step : Step σ} {ready : List (Step σ)} {progress : Progress σ}
      {s : Stage σ} (picked : weave.run.ready.Perm (step :: ready))
      (advanced : (step.advance job).Gives ⟨{ weave.run with ready }, weave.world⟩ progress s) :
      Move job weave (.advanced step ⟨{ weave.run with ready }, weave.world⟩)
        (place { weave with run := s.run, world := s.world } progress)
  | release {weave : Weave σ} {step : Step σ} {held : List (Step σ)}
      (idle : weave.run.ready = []) (first : weave.run.held = step :: held)
      (none_parked : weave.run.parked = 0) :
      Move job weave .woken
        { weave with
          run := { weave.run with ready := [step], held }
          world := weave.world.clearCache }
  | wait {weave : Weave σ} {step : Step σ} {wait rest : Wait σ}
      {others : List (Step σ × Wait σ)} {s : Stage σ}
      (picked : weave.asleep.Perm ((step, wait) :: others))
      (polled : wait.poll weave.stage = (.pending rest, s)) :
      Move job weave (.polled wait weave.stage)
        { weave with run := s.run, world := s.world, asleep := (step, rest) :: others }
  | answer {weave : Weave σ} {step : Step σ} {wait : Wait σ} {resumption : Resumption σ}
      {others : List (Step σ × Wait σ)} {s : Stage σ}
      (picked : weave.asleep.Perm ((step, wait) :: others))
      (polled : wait.poll weave.stage = (.ready resumption, s)) :
      Move job weave (.polled wait weave.stage)
        { run := s.run, world := s.world, asleep := others
          called := (step, resumption) :: weave.called }
  | resume {weave : Weave σ} {step next : Step σ} {resumption : Resumption σ}
      {others : List (Step σ × Resumption σ)}
      (picked : weave.called.Perm ((step, resumption) :: others))
      (resumes : step.resume resumption = .ok next) :
      Move job weave .woken
        { weave with
          run := { weave.run with
            parked := weave.run.parked - 1
            ready := weave.run.ready ++ [next] }
          called := others }
  | change {weave : Weave σ} (world : World σ) :
      Move job weave (.changed world) { weave with world }

/-- What a parked step waits for is driven forward: the step waits for what is left of it, or is
answered. -/
inductive Drives (weave : Weave σ) (step : Step σ) (wait : Wait σ) : Weave σ → Prop
  | waits {rest : Wait σ} {others : List (Step σ × Wait σ)} {s : Stage σ}
      (picked : weave.asleep.Perm ((step, wait) :: others))
      (polled : wait.poll weave.stage = (.pending rest, s)) :
      Drives weave step wait
        { weave with run := s.run, world := s.world, asleep := (step, rest) :: others }
  | answers {resumption : Resumption σ} {others : List (Step σ × Wait σ)} {s : Stage σ}
      (picked : weave.asleep.Perm ((step, wait) :: others))
      (polled : wait.poll weave.stage = (.ready resumption, s)) :
      Drives weave step wait
        { run := s.run, world := s.world, asleep := others
          called := (step, resumption) :: weave.called }

theorem Drives.move {job : Job σ} {weave after : Weave σ} {step : Step σ} {wait : Wait σ}
    (drives : weave.Drives step wait after) : Move job weave (.polled wait weave.stage) after := by
  cases drives with
  | waits picked polled => exact .wait picked polled
  | answers picked polled => exact .answer picked polled

/-- The steps that wait or have been answered. -/
def parkedSteps (weave : Weave σ) : List (Step σ) :=
  weave.asleep.map (·.1) ++ weave.called.map (·.1)

/-- The number of parked steps is right. -/
def Counted (weave : Weave σ) : Prop :=
  weave.run.parked = weave.asleep.length + weave.called.length

theorem counted_iff {weave : Weave σ} :
    weave.Counted ↔ weave.run.parked = weave.parkedSteps.length := by
  rw [parkedSteps, List.length_append, List.length_map, List.length_map]
  exact Iff.rfl

section
variable {first last : Weave σ} {step : Step σ} {wait : Wait σ}

/-- Nothing but the bags of the run and what surrounds it changes when a wait is driven forward. -/
theorem Drives.sameTree (drives : first.Drives step wait last) :
    SameTree first.stage last.stage := by
  cases drives with
  | waits _ polled => exact Wait.sameTree_of_poll polled
  | answers _ polled => exact Wait.sameTree_of_poll polled

/-- A step that is answered is parked until it is resumed. -/
theorem Drives.parkedSteps (drives : first.Drives step wait last) :
    first.parkedSteps.Perm last.parkedSteps := by
  cases drives with
  | waits picked _ => exact (picked.map (·.1)).append_right _
  | answers picked _ => exact ((picked.map (·.1)).append_right _).trans List.perm_middle.symm

theorem Drives.counted (drives : first.Drives step wait last) (counted : first.Counted) :
    last.Counted := by
  rw [counted_iff] at counted ⊢
  rw [← drives.parkedSteps.length_eq, ← counted]
  exact drives.sameTree.parked

end

/-- What can come about by moves of a kind. -/
inductive Path (job : Job σ) (seen : Sight σ → Prop) : Weave σ → Weave σ → Prop
  | refl (weave : Weave σ) : Path job seen weave weave
  | step {first second last : Weave σ} {sight : Sight σ} (path : Path job seen first second)
      (allowed : seen sight) (move : Move job second sight last) : Path job seen first last

variable {job : Job σ} {seen seen' : Sight σ → Prop} {first second last : Weave σ}

theorem Path.trans (one : Path job seen first second) (two : Path job seen second last) :
    Path job seen first last := by
  induction two with
  | refl => exact one
  | step _ allowed move ih => exact .step ih allowed move

theorem Path.mono (path : Path job seen first last) (fewer : ∀ sight, seen sight → seen' sight) :
    Path job seen' first last := by
  induction path with
  | refl => exact .refl _
  | step _ allowed move ih => exact .step ih (fewer _ allowed) move

/-! ### What holds of all steps -/

/-- The steps that are ready or held back have one property, those that wait or have been answered
another one. -/
structure All (awake resting : Step σ → Prop) (weave : Weave σ) : Prop where
  ready : ∀ step ∈ weave.run.ready ++ weave.run.held, awake step
  asleep : ∀ entry ∈ weave.asleep, resting entry.1
  called : ∀ entry ∈ weave.called, resting entry.1

/-- Whatever becomes of steps with a property has it, or another one while it waits. -/
structure Closed (job : Job σ) (awake resting : Step σ → Prop) : Prop where
  again : ∀ {step next : Step σ} {s t : Stage σ}, awake step →
    (step.advance job).Gives s (.again next) t → awake next
  parked : ∀ {step next : Step σ} {depth : Nat} {wait : Wait σ} {s t : Stage σ}, awake step →
    (step.advance job).Gives s (.parked next depth wait) t → resting next
  left : ∀ {step : Step σ} {progress : Progress σ} {s t : Stage σ}, awake step →
    (step.advance job).Gives s progress t →
    ∃ steps, (t.run.ready ++ t.run.held).Perm (steps ++ (s.run.ready ++ s.run.held)) ∧
      ∀ new ∈ steps, awake new
  resume : ∀ {step next : Step σ} {resumption : Resumption σ}, resting step →
    step.resume resumption = .ok next → awake next

variable {awake resting : Step σ → Prop}

theorem All.place {weave : Weave σ} {progress : Progress σ} (all : weave.All awake resting)
    (again : ∀ next, progress = .again next → awake next)
    (parked : ∀ next depth wait, progress = .parked next depth wait → resting next) :
    (weave.place progress).All awake resting := by
  cases progress with
  | again step =>
      refine ⟨fun other mem => ?_, all.asleep, all.called⟩
      rcases List.mem_cons.mp mem with rfl | mem
      · exact again _ rfl
      · exact all.ready other mem
  | finished => exact all
  | parked step depth wait =>
      refine ⟨all.ready, fun entry mem => ?_, all.called⟩
      rcases List.mem_cons.mp mem with rfl | mem
      · exact parked _ _ _ rfl
      · exact all.asleep entry mem

/-- Every move keeps what is closed, and it is a step with the property that goes on. -/
theorem Move.all {sight : Sight σ} (move : Move job first sight last)
    (closed : Closed job awake resting) (all : first.All awake resting) :
    last.All awake resting ∧ ∀ step s, sight = .advanced step s → awake step := by
  have same_steps (wait : Wait σ) {result : Polled (Resumption σ) (Wait σ)} {s : Stage σ}
      (polled : wait.poll first.stage = (result, s)) :
      ∀ step ∈ s.run.ready ++ s.run.held, awake step := by
    have same := Wait.sameTree_of_poll polled
    rw [same.ready, same.held]
    exact all.ready
  cases move with
  | @advance step ready progress s picked advanced =>
      have member : ∀ other, other ∈ step :: ready ++ first.run.held → awake other := by
        intro other mem
        refine all.ready other ?_
        rcases List.mem_append.mp mem with mem | mem
        · exact List.mem_append_left _ (picked.mem_iff.mpr mem)
        · exact List.mem_append_right _ mem
      have own := member step List.mem_cons_self
      obtain ⟨steps, perm, new⟩ := closed.left own advanced
      refine ⟨All.place ⟨fun other mem => ?_, all.asleep, all.called⟩ ?_ ?_, ?_⟩
      · rcases List.mem_append.mp (perm.mem_iff.mp mem) with mem | mem
        · exact new other mem
        · exact member other (List.mem_cons_of_mem _ mem)
      · exact fun next same => closed.again own (same ▸ advanced)
      · exact fun next depth wait same => closed.parked own (same ▸ advanced)
      · intro other s same
        injection same with same
        exact same ▸ own
  | @release step held idle top none_parked =>
      refine ⟨⟨fun other mem => all.ready other ?_, all.asleep, all.called⟩,
        fun _ _ same => by cases same⟩
      rw [idle, top]
      exact mem
  | @wait step wait rest others s picked polled =>
      have own := all.asleep _ (picked.mem_iff.mpr List.mem_cons_self)
      refine ⟨⟨same_steps wait polled, fun other mem => ?_, all.called⟩,
        fun _ _ same => by cases same⟩
      rcases List.mem_cons.mp mem with rfl | mem
      · exact own
      · exact all.asleep other (picked.mem_iff.mpr (List.mem_cons_of_mem _ mem))
  | @answer step wait resumption others s picked polled =>
      have own := all.asleep _ (picked.mem_iff.mpr List.mem_cons_self)
      refine ⟨⟨same_steps wait polled, fun other mem => ?_, fun other mem => ?_⟩,
        fun _ _ same => by cases same⟩
      · exact all.asleep other (picked.mem_iff.mpr (List.mem_cons_of_mem _ mem))
      · rcases List.mem_cons.mp mem with rfl | mem
        · exact own
        · exact all.called other mem
  | @resume step next resumption others picked resumes =>
      have own := all.called _ (picked.mem_iff.mpr List.mem_cons_self)
      refine ⟨⟨fun other mem => ?_, all.asleep, fun other mem =>
        all.called other (picked.mem_iff.mpr (List.mem_cons_of_mem _ mem))⟩,
        fun _ _ same => by cases same⟩
      simp only [List.append_assoc, List.mem_append, List.mem_singleton] at mem
      rcases mem with mem | rfl | mem
      · exact all.ready other (List.mem_append_left _ mem)
      · exact closed.resume own resumes
      · exact all.ready other (List.mem_append_right _ mem)
  | change world => exact ⟨⟨all.ready, all.asleep, all.called⟩, fun _ _ same => by cases same⟩

theorem Path.all (path : Path job seen first last) (closed : Closed job awake resting)
    (all : first.All awake resting) : last.All awake resting := by
  induction path with
  | refl => exact all
  | step _ _ move ih => exact (move.all closed ih).1

/-- A run that has not been begun has but the step of its root object. -/
theorem all_start {type : ObjectType σ} {world : World σ}
    (root : ∀ subject, awake (.object (.root job type subject))) :
    (start job type world).All awake resting := by
  refine ⟨?_, fun _ mem => absurd mem List.not_mem_nil, fun _ mem => absurd mem List.not_mem_nil⟩
  unfold start Run.start
  cases job.root with
  | data v => exact fun other mem => List.mem_singleton.mp mem ▸ root _
  | object o => exact fun other mem => List.mem_singleton.mp mem ▸ root _

end Weave

end GraphExec
