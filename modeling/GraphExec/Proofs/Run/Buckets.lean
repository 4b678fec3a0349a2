import GraphExec.Proofs.Run.Shares

/-!
# The buckets of a schedule

Steps are parked at depths, and taken up a bucket at a time, that of the least depth first. The
steps of a bucket are those that have been parked at its depth since it was last taken up, in the
order in which they were parked.
-/

namespace GraphExec

variable {σ : Type}

/-! ### What is left at a depth -/

/-- What happens to parked steps. -/
inductive Parking (σ : Type) where
  /-- A step is parked at a depth. -/
  | parked (depth : Nat) (step : ParkedStep σ)
  /-- The steps of a depth are taken up. -/
  | taken (depth : Nat)

namespace Parking

/-- What is left at a depth after something has happened. -/
def enter (depth : Nat) (steps : List (ParkedStep σ)) : Parking σ → List (ParkedStep σ)
  | parked d step => if d = depth then steps ++ [step] else steps
  | taken d => if d = depth then [] else steps

@[simp] theorem enter_parked (depth d : Nat) (steps : List (ParkedStep σ)) (step : ParkedStep σ) :
    enter depth steps (parked d step) = if d = depth then steps ++ [step] else steps := rfl

@[simp] theorem enter_taken (depth d : Nat) (steps : List (ParkedStep σ)) :
    enter depth steps (taken d) = if d = depth then [] else steps := rfl

/-- The steps that are left at a depth, in the order in which they were parked. -/
def left (depth : Nat) (history : List (Parking σ)) : List (ParkedStep σ) :=
  history.foldl (enter depth) []

theorem left_append (depth : Nat) (history : List (Parking σ)) (event : Parking σ) :
    left depth (history ++ [event]) = enter depth (left depth history) event := by
  unfold left
  rw [List.foldl_append]
  rfl

end Parking

namespace Buckets

/-- The steps at a depth. -/
def shelf (buckets : Buckets σ) (depth : Nat) : List (ParkedStep σ) :=
  buckets.flatMap fun entry => if entry.1 = depth then entry.2 else []

/-- The least depth comes first, and no depth twice. -/
def Ordered (buckets : Buckets σ) : Prop :=
  buckets.Pairwise fun first second => first.1 < second.1

variable {buckets : Buckets σ} {depth : Nat}

theorem shelf_cons (entry : Nat × List (ParkedStep σ)) (rest : Buckets σ) (depth : Nat) :
    shelf (entry :: rest) depth = (if entry.1 = depth then entry.2 else []) ++ rest.shelf depth :=
  rfl

/-- Nothing is left at a depth less than all others. -/
theorem shelf_eq_nil (deeper : ∀ entry ∈ buckets, depth < entry.1) : buckets.shelf depth = [] := by
  refine List.flatMap_eq_nil_iff.mpr fun entry mem => if_neg fun same => ?_
  exact absurd (deeper entry mem) (same ▸ Nat.lt_irrefl _)

theorem mem_park {d : Nat} {parked : ParkedStep σ} {entry : Nat × List (ParkedStep σ)}
    (mem : entry ∈ buckets.park d parked) : entry.1 = d ∨ entry ∈ buckets := by
  induction buckets with
  | nil => exact .inl (congrArg Prod.fst (List.mem_singleton.mp mem))
  | cons head rest ih =>
      unfold park at mem
      split at mem
      · rcases List.mem_cons.mp mem with rfl | mem
        · exact .inl rfl
        · exact .inr mem
      · split at mem
        · rename_i same
          rcases List.mem_cons.mp mem with rfl | mem
          · exact .inl same.symm
          · exact .inr (List.mem_cons_of_mem _ mem)
        · rcases List.mem_cons.mp mem with rfl | mem
          · exact .inr List.mem_cons_self
          · exact (ih mem).imp id (List.mem_cons_of_mem _)

theorem Ordered.park (ordered : buckets.Ordered) (d : Nat) (parked : ParkedStep σ) :
    (buckets.park d parked).Ordered := by
  induction buckets with
  | nil => exact List.pairwise_singleton _ _
  | cons head rest ih =>
      obtain ⟨above, behind⟩ := List.pairwise_cons.mp ordered
      unfold Buckets.park
      split
      · rename_i less
        refine List.pairwise_cons.mpr ⟨fun entry mem => ?_, ordered⟩
        rcases List.mem_cons.mp mem with rfl | mem
        · exact less
        · exact Nat.lt_trans less (above entry mem)
      · split
        · exact List.pairwise_cons.mpr ⟨above, behind⟩
        · rename_i not_less differs
          refine List.pairwise_cons.mpr ⟨fun entry mem => ?_, ih behind⟩
          rcases mem_park mem with same | mem
          · exact same ▸ Nat.lt_of_le_of_ne (Nat.le_of_not_lt not_less) (Ne.symm differs)
          · exact above entry mem

/-- A step that is parked comes behind those at its depth. -/
theorem Ordered.shelf_park (ordered : buckets.Ordered) (d : Nat) (parked : ParkedStep σ)
    (depth : Nat) : (buckets.park d parked).shelf depth =
      (Parking.parked d parked).enter depth (buckets.shelf depth) := by
  rw [Parking.enter_parked]
  induction buckets with
  | nil => by_cases same : d = depth <;> simp [Buckets.park, shelf, same]
  | cons head rest ih =>
      obtain ⟨above, behind⟩ := List.pairwise_cons.mp ordered
      have later := ih behind
      unfold Buckets.park
      split
      · rename_i less
        rw [shelf_cons]
        by_cases here : d = depth
        · have nothing : shelf (head :: rest) depth = [] := shelf_eq_nil fun entry mem => by
            rcases List.mem_cons.mp mem with rfl | mem
            · exact here ▸ less
            · exact here ▸ Nat.lt_trans less (above entry mem)
          rw [if_pos here, if_pos here, nothing]
          rfl
        · rw [if_neg here, if_neg here]
          rfl
      · split
        · rename_i same
          rw [shelf_cons, shelf_cons]
          by_cases here : d = depth
          · have nothing : shelf rest depth = [] := shelf_eq_nil fun entry mem => by
              rw [← here, same]
              exact above entry mem
            simp [← same, here, nothing]
          · simp [← same, here]
        · rw [shelf_cons, shelf_cons, later]
          by_cases here : d = depth
          · rw [if_pos here, if_pos here]
            exact (List.append_assoc _ _ _).symm
          · rw [if_neg here, if_neg here]

/-- What is left when the first bucket is taken up. -/
theorem Ordered.shelf_tail {bucket : List (ParkedStep σ)} {rest : Buckets σ} {d : Nat}
    (ordered : Ordered ((d, bucket) :: rest)) (depth : Nat) :
    rest.shelf depth = (Parking.taken d).enter depth (shelf ((d, bucket) :: rest) depth) := by
  have above := (List.pairwise_cons.mp ordered).1
  rw [Parking.enter_taken, shelf_cons]
  by_cases here : d = depth
  · rw [if_pos here]
    exact shelf_eq_nil fun entry mem => here ▸ above entry mem
  · rw [if_neg here, if_neg here]
    rfl

end Buckets

/-! ### The course of a schedule -/

namespace Schedule

variable {schedule next first middle last : Schedule σ}

/-- The schedules that are passed on the way from one to another. -/
inductive Course (first : Schedule σ) : List (Schedule σ) → Schedule σ → Prop
  | start : Course first [] first
  | step {passed : List (Schedule σ)} {middle last : Schedule σ} (course : Course first passed middle)
      (turn : middle.step = .again last) : Course first (passed ++ [middle]) last

theorem Course.visits {passed : List (Schedule σ)} (course : first.Course passed last) :
    first.Visits last := by
  induction course with
  | start => exact .start
  | step _ turn ih => exact ih.step turn

theorem Visits.course (visits : first.Visits last) : ∃ passed, first.Course passed last := by
  induction visits with
  | start => exact ⟨[], .start⟩
  | step _ turn ih =>
      obtain ⟨passed, course⟩ := ih
      exact ⟨_, course.step turn⟩

theorem Visits.trans (visits : first.Visits middle) (onward : middle.Visits last) :
    first.Visits last := by
  induction onward with
  | start => exact visits
  | step _ turn ih => exact ih.step turn

/-- What comes of a transition of a step, in so far as it parks it. -/
def parkingOf (owner : Nat) : Progress σ → List (Parking σ)
  | .parked step depth wait => [.parked depth ⟨owner, step, wait⟩]
  | _ => []

/-- What the next transition of a schedule does to parked steps. -/
def parkings (schedule : Schedule σ) : List (Parking σ) :=
  match schedule.phase with
  | .draining owner =>
    match schedule.runs[owner]? with
    | none =>
      match schedule.buckets with
      | [] => []
      | (depth, _) :: _ => [.taken depth]
    | some (job, run) =>
      match run.ready with
      | [] => []
      | step :: ready =>
        match ((step.advance job).run.run ⟨{ run with ready }, schedule.world⟩).1 with
        | .ok progress => parkingOf owner progress
        | .error _ => []
  | _ => []

/-- What has happened to parked steps on the way through schedules. -/
def history (passed : List (Schedule σ)) : List (Parking σ) :=
  passed.flatMap parkings

/-- The buckets hold what a history has left. -/
structure Shelved (history : List (Parking σ)) (schedule : Schedule σ) : Prop where
  ordered : schedule.buckets.Ordered
  shelf : ∀ depth, schedule.buckets.shelf depth = Parking.left depth history

variable {before : List (Parking σ)}

theorem Shelved.aside (shelved : schedule.Shelved before)
    (same : next.buckets = schedule.buckets) : next.Shelved (before ++ []) := by
  rw [List.append_nil]
  exact ⟨same ▸ shelved.ordered, fun depth => by rw [same]; exact shelved.shelf depth⟩

theorem Shelved.place (shelved : schedule.Shelved before) (owner : Nat) (progress : Progress σ) :
    (schedule.place owner progress).Shelved (before ++ parkingOf owner progress) := by
  cases progress with
  | again step => exact shelved.aside rfl
  | finished => exact shelved.aside rfl
  | parked step depth wait =>
      refine ⟨shelved.ordered.park depth _, fun d => ?_⟩
      rw [parkingOf, Parking.left_append, ← shelved.shelf]
      exact shelved.ordered.shelf_park depth _ d

section
variable {owner : Nat} {job : Job σ} {run : Run σ}

theorem parkings_of_taken {depth : Nat} {bucket : List (ParkedStep σ)} {buckets : Buckets σ}
    (phase : schedule.phase = .draining owner) (none_left : schedule.runs[owner]? = none)
    (taken : schedule.buckets = (depth, bucket) :: buckets) :
    schedule.parkings = [.taken depth] := by
  simp only [parkings, phase, none_left, taken]

theorem parkings_of_advance {step : Step σ} {ready : List (Step σ)} {progress : Progress σ}
    {s : Stage σ} (phase : schedule.phase = .draining owner)
    (found : schedule.runs[owner]? = some (job, run)) (first : run.ready = step :: ready)
    (ran : (step.advance job).run.run ⟨{ run with ready }, schedule.world⟩ = (.ok progress, s)) :
    schedule.parkings = parkingOf owner progress := by
  simp only [parkings, phase, found, first, ran]

theorem parkings_of_idle (phase : schedule.phase = .draining owner)
    (found : schedule.runs[owner]? = some (job, run)) (idle : run.ready = []) :
    schedule.parkings = [] := by
  simp only [parkings, phase, found, idle]

end

/-- Steps are parked only while ready steps are run. -/
theorem parkings_elsewhere (elsewhere : ∀ owner, schedule.phase ≠ .draining owner) :
    schedule.parkings = [] := by
  unfold parkings
  split
  · exact absurd ‹_› (elsewhere _)
  · rfl

theorem buckets_pollAt (bucket : List (Awaited σ)) (place : Nat) (line : List Nat) :
    (schedule.pollAt bucket place line).buckets = schedule.buckets := by
  rcases schedule.pollAt_cases bucket place line with ⟨parked, _, _, _, -, -, same⟩ | ⟨-, same⟩
  · rw [same]
    exact (schedule.poll_aside parked).2.2
  · rw [same]

/-- Every transition keeps what is left at each depth in its bucket. -/
theorem Shelved.step (shelved : schedule.Shelved before) (turn : schedule.step = .again next) :
    next.Shelved (before ++ schedule.parkings) := by
  cases goesOn_of_step turn with
  | @advanced owner job run step ready progress s phase here first gives =>
      rw [parkings_of_advance phase here first gives]
      have moved : Shelved before
          ({ schedule with world := s.world }.modifyRun owner fun _ => s.run) :=
        ⟨shelved.ordered, shelved.shelf⟩
      exact moved.place owner progress
  | released phase here idle | passed phase here idle =>
      rw [parkings_of_idle phase here idle]
      exact shelved.aside rfl
  | taken phase none_left first =>
      rw [parkings_of_taken phase none_left first]
      have ordered := shelved.ordered
      rw [first] at ordered
      refine ⟨(List.pairwise_cons.mp ordered).2, fun d => ?_⟩
      rw [Parking.left_append, ← shelved.shelf, first]
      exact ordered.shelf_tail d
  | fetching phase | fetched phase | linedUp phase =>
      rw [parkings_elsewhere fun _ drains => by cases phase.symm.trans drains]
      exact shelved.aside rfl
  | polled phase =>
      rw [parkings_elsewhere fun _ drains => by cases phase.symm.trans drains]
      exact shelved.aside (buckets_pollAt _ _ _)
  | resumed phase found resumes =>
      rw [parkings_elsewhere fun _ drains => by cases phase.symm.trans drains]
      exact shelved.aside (resumeAll_eq _ resumes).2.2.1

/-- The buckets hold what all that has happened has left at each depth. -/
theorem Course.shelved {passed : List (Schedule σ)} (course : first.Course passed last)
    (shelved : first.Shelved []) : last.Shelved (history passed) := by
  induction course with
  | start => exact shelved
  | step _ turn ih =>
      unfold history
      rw [List.flatMap_append, List.flatMap_singleton]
      exact ih.step turn

end Schedule

end GraphExec
