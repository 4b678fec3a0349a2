import GraphExec.Proofs.Run.Course
import GraphExec.Proofs.Run.Shares

/-!
# What a schedule does in a run

A transition of a schedule is one of a step of a run, or a poll of what a step of it waits for, or
does nothing in the run but release and resume its steps. What it has done in a run is the list of
these transitions and polls, in order; from what each of them carries on follows what holds of the
list.
-/

namespace GraphExec

variable {σ : Type} {job : Job σ}

/-- What is done in a run. -/
inductive Feat (σ : Type) where
  /-- A step goes on, at a stage. -/
  | advances (step : Step σ) (stage : Stage σ)
  /-- What a step waits for is driven forward, at a stage. -/
  | drives (step : Step σ) (wait : Wait σ) (stage : Stage σ)

/-- The transition of a step, if it is one. -/
def Feat.deed? : Feat σ → Option (Step σ × Stage σ)
  | advances step s => some (step, s)
  | drives _ _ _ => none

/-- No step goes on, and nothing that a step waits for is driven forward. -/
def Sight.Aside : Sight σ → Prop
  | .advanced _ _ => False
  | .polled _ _ => False
  | .changed _ => True
  | .woken => True

namespace Schedule

variable {schedule next first now last : Schedule σ} {owner : Nat} {weave : Weave σ}
  {deeds : List (Step σ × Stage σ)} {feats : List (Feat σ)}

/-- The transition that a schedule makes next in a run, if any: of which step, and at which stage.
-/
def deed? (schedule : Schedule σ) (owner : Nat) : Option (Step σ × Stage σ) :=
  match schedule.phase, schedule.runs[owner]? with
  | .draining other, some (_, run) =>
    if other = owner then
      match run.ready with
      | step :: ready => some (step, ⟨{ run with ready }, schedule.world⟩)
      | [] => none
    else none
  | _, _ => none

/-- What a schedule has done in a run by the time that it has come to another one, in order. -/
inductive Did (owner : Nat) (first : Schedule σ) : Schedule σ → List (Step σ × Stage σ) → Prop
  | start : Did owner first first []
  | step {middle last : Schedule σ} {deeds : List (Step σ × Stage σ)}
      (did : Did owner first middle deeds) (turn : middle.step = .again last) :
      Did owner first last (deeds ++ (middle.deed? owner).toList)

theorem Did.visits (did : first.Did owner last deeds) : first.Visits last := by
  induction did with
  | start => exact .start
  | step _ turn ih => exact .step ih turn

theorem Visits.did (visits : first.Visits last) (owner : Nat) :
    ∃ deeds, first.Did owner last deeds := by
  induction visits with
  | start => exact ⟨[], .start⟩
  | step _ turn ih =>
      obtain ⟨deeds, did⟩ := ih
      exact ⟨_, .step did turn⟩

theorem deed?_eq_some {step : Step σ} {s : Stage σ} :
    schedule.deed? owner = some (step, s) ↔ ∃ job run ready, schedule.phase = .draining owner ∧
      schedule.runs[owner]? = some (job, run) ∧ run.ready = step :: ready ∧
      s = ⟨{ run with ready }, schedule.world⟩ := by
  unfold deed?
  constructor
  · intro does
    split at does
    · rename_i other job run phase here
      split at does
      · rename_i same
        split at does
        · rename_i step' ready first
          injection does with does
          injection does with same_step same_stage
          exact ⟨job, run, ready, same ▸ phase, here, same_step ▸ first, same_stage.symm⟩
        · cases does
      · cases does
    · cases does
  · rintro ⟨job, run, ready, phase, here, first, rfl⟩
    simp only [phase, here, first, if_true]

/-- A transition of a schedule that does something in a run is a move of the run. -/
theorem Shares.deed (shares : schedule.Shares owner job weave) (turn : schedule.step = .again next)
    {step : Step σ} {s : Stage σ} (does : schedule.deed? owner = some (step, s)) :
    ∃ after, Weave.Move job weave (.advanced step s) after ∧ next.Shares owner job after := by
  obtain ⟨job', run, ready, phase, here, first, rfl⟩ := deed?_eq_some.mp does
  obtain ⟨rfl, rfl⟩ := shares.same_run here
  rw [step_ready phase here first] at turn
  rw [← shares.world]
  exact shares.advance phase first turn

/-- A transition that does nothing in a run is made of moves of the run that carry on no story. -/
theorem Shares.no_deed (shares : schedule.Shares owner job weave)
    (turn : schedule.step = .again next) (does_nothing : schedule.deed? owner = none) :
    Follows (fun sight => schedule.Sights owner job sight ∧ ∀ step s, sight ≠ .advanced step s)
      owner job weave next := by
  refine shares.step (fun sight sees => ⟨sees, fun step s same => ?_⟩) turn
  subst same
  obtain ⟨run, ready, phase, here, first, same⟩ := sees
  cases does_nothing.symm.trans (deed?_eq_some.mpr ⟨job, run, ready, phase, here, first, same⟩)

/-! ### With the polls of what steps wait for -/

/-- What the next transition of a schedule drives forward in a run, if anything: which step waits
for it, and at which stage. -/
def drive? (schedule : Schedule σ) (owner : Nat) : Option (Step σ × Wait σ × Stage σ) :=
  match schedule.phase, schedule.runs[owner]? with
  | .awaiting bucket (place :: _), some (_, run) =>
    match bucket[place]? with
    | some (.waiting parked) =>
      if parked.owner = owner then some (parked.step, parked.wait, ⟨run, schedule.world⟩) else none
    | _ => none
  | _, _ => none

/-- What the next transition of a schedule does in a run, if anything. -/
def feat? (schedule : Schedule σ) (owner : Nat) : Option (Feat σ) :=
  match schedule.deed? owner with
  | some (step, s) => some (.advances step s)
  | none => (schedule.drive? owner).map fun (step, wait, s) => .drives step wait s

/-- What a schedule has done in a run by the time that it has come to another one, with the polls.
-/
inductive Does (owner : Nat) (first : Schedule σ) : Schedule σ → List (Feat σ) → Prop
  | start : Does owner first first []
  | step {middle last : Schedule σ} {feats : List (Feat σ)} (does : Does owner first middle feats)
      (turn : middle.step = .again last) :
      Does owner first last (feats ++ (middle.feat? owner).toList)

theorem Does.visits (does : first.Does owner last feats) : first.Visits last := by
  induction does with
  | start => exact .start
  | step _ turn ih => exact .step ih turn

theorem deed?_of_feat? (schedule : Schedule σ) (owner : Nat) :
    (schedule.feat? owner).toList.filterMap Feat.deed? = (schedule.deed? owner).toList := by
  unfold feat?
  cases schedule.deed? owner with
  | some deed => rfl
  | none => cases schedule.drive? owner <;> rfl

/-- What a schedule has done in a run is what it has done with the polls, but for these. -/
theorem Did.does (did : first.Did owner last deeds) :
    ∃ feats, first.Does owner last feats ∧ feats.filterMap Feat.deed? = deeds := by
  induction did with
  | start => exact ⟨[], .start, rfl⟩
  | @step middle last deeds did turn ih =>
      obtain ⟨feats, does, rfl⟩ := ih
      refine ⟨_, .step does turn, ?_⟩
      rw [List.filterMap_append, deed?_of_feat?]

theorem Does.did (does : first.Does owner last feats) :
    first.Did owner last (feats.filterMap Feat.deed?) := by
  induction does with
  | start => exact .start
  | @step middle last feats does turn ih =>
      rw [List.filterMap_append, deed?_of_feat?]
      exact .step ih turn

theorem drive?_eq_some {step : Step σ} {wait : Wait σ} {s : Stage σ}
    (drives : schedule.drive? owner = some (step, wait, s)) :
    ∃ bucket place line job run, schedule.phase = .awaiting bucket (place :: line) ∧
      schedule.runs[owner]? = some (job, run) ∧
      bucket[place]? = some (.waiting ⟨owner, step, wait⟩) ∧ s = ⟨run, schedule.world⟩ := by
  unfold drive? at drives
  split at drives
  · rename_i bucket place line job run phase here
    split at drives
    · rename_i parked found
      split at drives
      · rename_i own
        obtain ⟨other, step', wait'⟩ := parked
        obtain rfl : other = owner := own
        obtain ⟨rfl, rfl, rfl⟩ := by simpa using drives
        exact ⟨bucket, place, line, job, run, phase, here, found, rfl⟩
      · cases drives
    · cases drives
  · cases drives

/-- A transition of a schedule that drives forward what a step of a run waits for does so in the
run. -/
theorem Shares.drive (shares : schedule.Shares owner job weave) (turn : schedule.step = .again next)
    {step : Step σ} {wait : Wait σ} {s : Stage σ}
    (drives : schedule.drive? owner = some (step, wait, s)) :
    s = weave.stage ∧ ∃ after, weave.Drives step wait after ∧ next.Shares owner job after := by
  obtain ⟨bucket, place, line, job', run, phase, here, found, rfl⟩ := drive?_eq_some drives
  obtain ⟨rfl, rfl⟩ := shares.same_run here
  refine ⟨by rw [Weave.stage, shares.world], ?_⟩
  have polls : schedule.pollAt bucket place line = next :=
    Turn.again.inj ((step_poll phase).symm.trans turn)
  obtain ⟨front, back, rfl, set⟩ := set_eq found
  unfold Schedule.pollAt at polls
  simp only [found, set] at polls
  rw [← polls]
  exact shares.poll_own phase

/-- A run is left alone, or changes what surrounds it. -/
theorem Shares.left_alone (shares : next.Shares owner job { weave with world := next.world }) :
    Follows Sight.Aside owner job weave next := by
  have away : Sight.Aside (.changed next.world) := trivial
  exact ⟨_, .step (.refl weave) away (.change next.world), shares⟩

/-- A transition of a schedule that does nothing in a run moves it aside at most. -/
theorem Shares.no_feat (shares : schedule.Shares owner job weave)
    (turn : schedule.step = .again next) (does_nothing : schedule.feat? owner = none) :
    Follows Sight.Aside owner job weave next := by
  have no_deed : schedule.deed? owner = none := by
    unfold feat? at does_nothing
    split at does_nothing
    · cases does_nothing
    · assumption
  have no_drive : schedule.drive? owner = none := by
    simpa [feat?, no_deed] using does_nothing
  -- While ready steps are run nothing is polled, and the run makes no transition here.
  have drained {other : Nat} (phase : schedule.phase = .draining other) :
      Follows Sight.Aside owner job weave next := by
    obtain ⟨after, path, shares'⟩ := shares.no_deed turn no_deed
    refine ⟨after, path.mono fun sight saw => ?_, shares'⟩
    obtain ⟨sees, other⟩ := saw
    cases sight with
    | advanced step s => exact absurd rfl (other step s)
    | polled wait s =>
        obtain ⟨-, -, -, parked, among, -⟩ := sees
        rw [phase] at among
        cases among
    | changed world => trivial
    | woken => trivial
  cases goesOn_of_step turn with
  | advanced phase | released phase | passed phase | taken phase => exact drained phase
  | fetching phase => exact (shares.flush phase _ rfl rfl).left_alone
  | fetched phase =>
      exact (shares.flush phase _ (waiting_fetched _) (answered_fetched _ _)).left_alone
  | @polled bucket place line phase =>
      rcases schedule.pollAt_cases bucket place line with
        ⟨parked, front, back, line', found, rfl, same⟩ | ⟨-, same⟩
      · have other : parked.owner ≠ owner := fun own => by
          simp only [drive?, phase, shares.run, found, own, if_true, reduceCtorEq] at no_drive
        rw [same]
        exact (shares.poll_other other phase).left_alone
      · rw [same]
        exact (shares.line phase line).left_alone
  | linedUp phase => exact (shares.line phase _).left_alone
  | resumed phase found resumes =>
      obtain ⟨after, path, shares'⟩ := shares.resume phase found resumes
      exact ⟨after, path.mono fun _ same => same ▸ trivial, shares'⟩

/-- What every transition of a step, every poll of what a step waits for and every other move of a
run carries on holds of what a schedule has done in the run, and of what is left to be done then. -/
theorem Does.carries {holds : List (Feat σ) → Weave σ → Prop}
    (does : first.Does owner now feats) (shares : first.Shares owner job weave)
    (settled : weave.Settled) (begun : holds [] weave)
    (advances : ∀ (feats : List (Feat σ)) (before after : Weave σ) (step : Step σ) (s : Stage σ),
      holds feats before → before.Settled → Weave.Move job before (.advanced step s) after →
      holds (feats ++ [.advances step s]) after)
    (drives : ∀ (feats : List (Feat σ)) (before after : Weave σ) (step : Step σ) (wait : Wait σ),
      holds feats before → before.Settled → before.Drives step wait after →
      holds (feats ++ [.drives step wait before.stage]) after)
    (aside : ∀ (feats : List (Feat σ)) (before after : Weave σ) (sight : Sight σ),
      holds feats before → before.Settled → sight.Aside → Weave.Move job before sight after →
      holds feats after) :
    ∃ after, now.Shares owner job after ∧ after.Settled ∧ holds feats after := by
  induction does with
  | start => exact ⟨weave, shares, settled, begun⟩
  | @step middle now feats does turn ih =>
      obtain ⟨before, shares, settled, held⟩ := ih
      have leads {sight : Sight σ} {after : Weave σ} (move : Weave.Move job before sight after) :
          Weave.Leads job (fun _ => True) before after := move.leads trivial settled
      cases feat : middle.feat? owner with
      | some feat =>
          unfold feat? at feat
          split at feat
          · rename_i step s deed
            obtain rfl := Option.some.inj feat
            obtain ⟨after, move, shares'⟩ := shares.deed turn deed
            exact ⟨after, shares', (leads move).2, advances _ _ _ _ _ held settled move⟩
          · obtain ⟨⟨step, wait, s⟩, drive, rfl⟩ := Option.map_eq_some_iff.mp feat
            obtain ⟨rfl, after, driven, shares'⟩ := shares.drive turn drive
            exact ⟨after, shares', (leads driven.move).2, drives _ _ _ _ _ held settled driven⟩
      | none =>
          obtain ⟨after, path, shares'⟩ := shares.no_feat turn feat
          rw [Option.toList_none, List.append_nil]
          have both : after.Settled ∧ holds feats after := by
            clear shares'
            induction path with
            | refl => exact ⟨settled, held⟩
            | step _ allowed move ih =>
                have leads : Weave.Leads job (fun _ => True) _ _ := move.leads trivial ih.1
                exact ⟨leads.2, aside _ _ _ _ ih.2 ih.1 allowed move⟩
          exact ⟨after, shares', both⟩

/-- What every transition of a step and every other move of a run carries on holds of what a
schedule has done in the run, and of what is left to be done then. -/
theorem Did.carries {holds : List (Step σ × Stage σ) → Weave σ → Prop}
    (did : first.Did owner now deeds) (shares : first.Shares owner job weave)
    (settled : weave.Settled) (begun : holds [] weave)
    (advances : ∀ (deeds : List (Step σ × Stage σ)) (before after : Weave σ) (step : Step σ)
      (s : Stage σ), holds deeds before → before.Settled →
      Weave.Move job before (.advanced step s) after → holds (deeds ++ [(step, s)]) after)
    (aside : ∀ (deeds : List (Step σ × Stage σ)) (before after : Weave σ) (sight : Sight σ),
      holds deeds before → Weave.Move job before sight after →
      (∀ step s, sight ≠ .advanced step s) → holds deeds after) :
    ∃ after, now.Shares owner job after ∧ after.Settled ∧ holds deeds after := by
  obtain ⟨feats, does, rfl⟩ := did.does
  let holds' (feats : List (Feat σ)) : Weave σ → Prop := holds (feats.filterMap Feat.deed?)
  have goes_on (feats : List (Feat σ)) (before after : Weave σ) (step : Step σ) (s : Stage σ)
      (held : holds' feats before) (settled : before.Settled)
      (move : Weave.Move job before (.advanced step s) after) :
      holds' (feats ++ [.advances step s]) after := by
    show holds (List.filterMap _ _) after
    rw [List.filterMap_append]
    exact advances _ _ _ _ _ held settled move
  have waits (feats : List (Feat σ)) (before after : Weave σ) (step : Step σ) (wait : Wait σ)
      (held : holds' feats before) (_ : before.Settled) (driven : before.Drives step wait after) :
      holds' (feats ++ [.drives step wait before.stage]) after := by
    show holds (List.filterMap _ _) after
    rw [List.filterMap_append]
    refine aside _ _ _ _ ((List.append_nil (feats.filterMap Feat.deed?)).symm ▸ held) driven.move ?_
    intro _ _ same
    cases same
  refine does.carries shares settled (show holds' [] weave from begun) goes_on waits ?_
  intro feats before after sight held _ away move
  refine aside _ _ _ _ held move ?_
  rintro step s rfl
  exact away

/-- What becomes of a schedule in some number of transitions, if it goes on for as long, and what it
has done in a run by then. -/
def doing? (owner : Nat) (schedule : Schedule σ) : Nat → Option (Schedule σ × List (Feat σ))
  | 0 => some (schedule, [])
  | n + 1 =>
    match doing? owner schedule n with
    | some (now, feats) =>
      match now.step with
      | .again next => some (next, feats ++ (now.feat? owner).toList)
      | _ => none
    | none => none

theorem does_of_doing? {n : Nat} (doing : doing? owner first n = some (now, feats)) :
    first.Does owner now feats := by
  induction n generalizing now feats with
  | zero =>
      obtain ⟨rfl, rfl⟩ := Prod.mk.inj (Option.some.inj doing)
      exact .start
  | succ n ih =>
      unfold doing? at doing
      split at doing
      · rename_i before so_far
        split at doing
        · rename_i next turn
          obtain ⟨rfl, rfl⟩ := Prod.mk.inj (Option.some.inj doing)
          exact .step (ih so_far) turn
        · cases doing
      · cases doing

end Schedule

end GraphExec
