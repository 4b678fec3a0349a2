import Mathlib
import GraphExec.Proofs.Beginning
import GraphExec.Proofs.Run.Serial
import GraphExec.Schema.Builder

/-!
# Mutations

The root fields of a mutation take turns, whatever else goes on in an execution. As long as a step is
left that belongs to one of them, no later one is begun; when one is released, all that has been
loaded before is forgotten; and once the response is null, the fields that are left are dropped.
-/

namespace GraphExec

variable {σ : Type}

namespace Schedule

variable {schedule next : Schedule σ} {owner : Nat} {job : Job σ} {run : Run σ}
  {weave : Weave σ}

/-- The steps of a run that wait or have been answered. -/
def parkedOf (schedule : Schedule σ) (owner : Nat) : List (Step σ) :=
  (schedule.asleep owner).map (·.1) ++ (schedule.phase.answered owner).map (·.1)

/-- The steps of a run that are not finished: ready, waiting, answered or held back. -/
def outstanding (schedule : Schedule σ) (owner : Nat) : List (Step σ) :=
  match schedule.runs[owner]? with
  | some (_, run) => run.ready ++ schedule.parkedOf owner ++ run.held
  | none => []

/-- The root fields of a run that are held back. -/
def heldOf (schedule : Schedule σ) (owner : Nat) : List (Step σ) :=
  match schedule.runs[owner]? with
  | some (_, run) => run.held
  | none => []

/-- A transition after which a root field is not held back any more. -/
structure Frees (schedule : Schedule σ) (owner : Nat) (field : Step σ) (next : Schedule σ) :
    Prop where
  turn : schedule.step = .again next
  held : field ∈ schedule.heldOf owner
  gone : field ∉ next.heldOf owner

theorem heldOf_eq (here : schedule.runs[owner]? = some (job, run)) :
    schedule.heldOf owner = run.held := by
  unfold heldOf
  rw [here]

theorem Shares.parkedOf (shares : schedule.Shares owner job weave) :
    weave.parkedSteps.Perm (schedule.parkedOf owner) :=
  (shares.asleep.map _).append (shares.called.map _)

theorem Shares.outstanding (shares : schedule.Shares owner job weave) :
    (weave.active ++ weave.run.held).Perm (schedule.outstanding owner) := by
  unfold Schedule.outstanding
  rw [shares.run]
  exact (shares.parkedOf.append_left _).append_right _

/-! ### Releases -/

/-- A poll of a parked step takes up nothing that is held back. -/
theorem pollAt_held (bucket : List (Awaited σ)) (place : Nat) (line : List Nat)
    (here : schedule.runs[owner]? = some (job, run)) :
    ∃ run', (schedule.pollAt bucket place line).runs[owner]? = some (job, run') ∧
      run'.held = run.held := by
  rcases schedule.pollAt_cases bucket place line with ⟨parked, _, _, _, -, -, same⟩ | ⟨-, same⟩
  · rw [same]
    by_cases mine : parked.owner = owner
    · subst mine
      obtain ⟨-, -, there⟩ := poll_own parked here
      exact ⟨_, there, (parked.wait.sameTree_poll _).held⟩
    · obtain ⟨-, others, -⟩ := poll_aside schedule parked
      exact ⟨run, (others owner mine).trans here, rfl⟩
  · rw [same]
    exact ⟨run, here, rfl⟩

/-- What is held back of a run stays so until it is released. -/
theorem held_of_step (turn : schedule.step = .again next)
    (here : schedule.runs[owner]? = some (job, run)) :
    (∃ field, schedule.Releases owner field next) ∨
      ∃ run' more, next.runs[owner]? = some (job, run') ∧ run'.held = run.held ++ more := by
  have kept {run' : Run σ} (there : next.runs[owner]? = some (job, run'))
      (same : run'.held = run.held) : (∃ field, schedule.Releases owner field next) ∨
      ∃ run' more, next.runs[owner]? = some (job, run') ∧ run'.held = run.held ++ more :=
    .inr ⟨run', [], there, same.trans (List.append_nil _).symm⟩
  -- Only an advance of the run adds to what is held back, behind it, and only a release takes from
  -- it, at the front.
  cases goesOn_of_step turn with
  | @advanced other job' run' step ready progress s phase found first gives =>
      by_cases mine : other = owner
      · subst mine
        obtain ⟨rfl, rfl⟩ := Prod.mk.inj (Option.some.inj (here.symm.trans found))
        obtain ⟨more, left⟩ := step.advance_held gives
        cases progress with
        | again next =>
            exact .inr ⟨{ s.run with ready := next :: s.run.ready }, more,
              by simp [place, getElem?_modifyRun, here], left⟩
        | finished => exact .inr ⟨s.run, more, by simp [place, getElem?_modifyRun, here], left⟩
        | parked next depth wait =>
            refine .inr ⟨{ s.run with parked := s.run.parked + 1 }, more, ?_, left⟩
            rw [runs_place_parked]
            simp [getElem?_modifyRun, here]
      · have steps : schedule.advance other job' { run' with ready } step = .again _ :=
          advance_of_gives gives
        exact kept ((advance_aside mine steps).1.trans here) rfl
  | @released other job' run' field held phase found idle first none_parked =>
      by_cases mine : other = owner
      · subst mine
        exact .inl ⟨field, turn, phase, job', run', held, found, idle, none_parked, first⟩
      · exact kept (by simp [getElem?_modifyRun, here, mine]) rfl
  | passed | taken | fetching | fetched | linedUp => exact kept here rfl
  | @polled bucket place line phase =>
      obtain ⟨run', there, same⟩ := pollAt_held bucket place line here
      exact kept there same
  | resumed phase found resumes =>
      obtain ⟨steps, there, -⟩ := resumeAll_run _ resumes here
      exact kept there rfl

/-- A field that is no longer held back has been released. -/
theorem Frees.releases {field : Step σ} (frees : schedule.Frees owner field next) :
    schedule.Releases owner field next := by
  obtain ⟨turn, held, gone⟩ := frees
  cases here : schedule.runs[owner]? with
  | none =>
      unfold heldOf at held
      rw [here] at held
      exact absurd held List.not_mem_nil
  | some entry =>
      obtain ⟨job, run⟩ := entry
      rw [heldOf_eq here] at held
      rcases held_of_step turn here with ⟨first, releases⟩ | ⟨run', more, there, kept⟩
      · obtain ⟨job', run₀, rest, found, none_ready, none_parked, top⟩ := releases.idle
        rw [here] at found
        injection found with found
        injection found with same_job same_run
        subst same_job same_run
        have now := Turn.again.inj
          ((step_release releases.phase here none_ready top none_parked).symm.trans turn)
        have there : next.runs[owner]? = some (job, { run with ready := [first], held := rest }) := by
          rw [← now]
          simp [getElem?_modifyRun, here]
        rw [heldOf_eq there] at gone
        rw [top] at held
        rcases List.mem_cons.mp held with rfl | mem
        · exact releases
        · exact absurd mem gone
      · rw [heldOf_eq there, kept] at gone
        exact absurd (List.mem_append_left more held) gone

/-! ### Runs of a mutation -/

/-- In what comes later every step is on the way of one that has been begun, or behind it. -/
theorem Shares.behind {weave' : Weave σ} {later : Schedule σ} {seen : Sight σ → Prop}
    (shares' : later.Shares owner job weave')
    (ordered : weave.InOrder job) (path : Weave.Path job seen weave weave') {step : Step σ}
    (mem : step ∈ weave.run.ready) (elsewhere : step.spot ≠ .node Draft.root) :
    ∀ other ∈ later.outstanding owner,
      other.firstKey? weave'.run.draft = step.firstKey? weave'.run.draft ∨
        step.ComesBefore weave'.run.draft other := by
  intro other mem'
  have active : step ∈ weave.active := List.mem_append_left _ mem
  have passed := path.passed ordered (ordered.passed active elsewhere)
  have same_way : step.firstKey? weave'.run.draft = step.firstKey? weave.run.draft := by
    obtain ⟨reaches, settled'⟩ := path.leads ordered.settled
    exact reaches.grows.firstKey? ordered.settled.tidy.wf.rooted settled'.tidy.wf.rooted
      (ordered.settled.known (List.mem_append_left _ active))
  rw [← same_way] at passed
  exact passed.behind other (shares'.outstanding.mem_iff.mpr mem')

/-- A field that is held back when the root is dead is dropped without anything being done. -/
theorem Shares.drops {weave' : Weave σ} {later : Schedule σ} {seen : Sight σ → Prop}
    (shares' : later.Shares owner job weave') (ordered : weave.InOrder job)
    (path : Weave.Path job seen weave weave') (null : weave.run.draft.dataIsNull = true)
    {field : Step σ} (held : field ∈ weave.run.held) :
    ∃ key site, field = .field (.new job.schema Draft.root key site) ∧
      weave'.run.draft.dataIsNull = true ∧
      (∀ step ∈ later.outstanding owner,
        step.firstKey? weave'.run.draft = some (.field key) →
          step = field ∧ step ∉ later.parkedOf owner) ∧
      ∀ ready, later.phase = .draining owner → weave'.run.ready = field :: ready →
        later.step = .again (later.modifyRun owner fun _ => { weave'.run with ready }) := by
  obtain ⟨key, site, rfl⟩ := ordered.one.fields field held
  have rooted := ordered.settled.tidy.wf.rooted
  have dead : weave.run.draft.isDead Draft.root = true := ordered.settled.tidy.wf.null.trans null
  have mutes := path.mutes ordered (ordered.mutes dead held (rooted.firstKey?_root (.field key)))
  have settled' := (path.inOrder ordered).settled
  refine ⟨key, site, rfl, settled'.tidy.wf.null.symm.trans mutes.dead, fun step mem same => ?_,
    fun ready phase first => ?_⟩
  · have apart : step ∉ weave'.parkedSteps := fun parked => mutes.apart step parked same
    have mem := shares'.outstanding.mem_iff.mpr mem
    refine ⟨mutes.only step ?_ same, fun parked => apart (shares'.parkedOf.mem_iff.mpr parked)⟩
    unfold Weave.active at mem
    simp only [List.mem_append] at mem ⊢
    rcases mem with (ready | parked) | held
    · exact .inl ready
    · exact absurd (List.mem_append.mpr parked) apart
    · exact .inr held
  · have dropped : ((Step.field (.new job.schema Draft.root key site)).advance job).Gives
        ⟨{ weave'.run with ready }, later.world⟩ .finished ⟨{ weave'.run with ready }, later.world⟩ :=
      FieldStep.advance_dead _ job mutes.dead
    exact (step_ready phase shares'.run first).trans (advance_of_gives dropped)

end Schedule

/-! ### Executions -/

namespace Schema

variable {schema : Schema σ} {config : Config} {requests : List Request} {app : σ}
  {observe : Event → σ → σ} {first : Schedule σ}

/-- The root fields of a mutation take turns, whatever else is executed with it. While a step is
ready, no step that is left, now or later, belongs to an earlier root field; whoever is given an
outcome after a root field is released is given that of a fetch that was begun after it; and a root
field that is held back when the response has become null is dropped when it is taken up, which is
all that happens for it. -/
theorem mutations_take_turns {owner : Nat} {job : Job σ} {now later : Schedule σ}
    {run run' : Run σ} (begins : schema.Begins config requests ⟨app, observe, []⟩ first)
    (place : (readyJobs (schema.prepared requests ⟨app, observe, []⟩).1)[owner]? = some job)
    (mutation : job.isMutation = true) (visits : first.Visits now) (visits' : now.Visits later)
    (here : now.runs[owner]? = some (job, run)) (here' : later.runs[owner]? = some (job, run')) :
    (run'.draft.keys Draft.root).Nodup ∧
      (∀ step ∈ run.ready, ∀ other ∈ later.outstanding owner,
        ¬ other.ComesBefore run'.draft step ∧
          (step.spot ≠ .node Draft.root →
            other.firstKey? run'.draft = step.firstKey? run'.draft ∨
              step.ComesBefore run'.draft other)) ∧
      (∀ field next, now.Frees owner field next → ∀ after, next.Visits after →
        ∀ watched, (∃ ledger, next.Logged watched ledger after) ∧
          ∀ ledger, next.Logged watched ledger after →
            ∀ (front : Ledger) key said rest, ledger = front ++ .loaded key said :: rest →
              front.Fetches key said) ∧
      (run.draft.dataIsNull = true → ∀ field ∈ run.held, ∃ key site,
        field = .field (.new job.schema Draft.root key site) ∧ run'.draft.dataIsNull = true ∧
          (∀ step ∈ later.outstanding owner,
            step.firstKey? run'.draft = some (.field key) →
              step = field ∧ step ∉ later.parkedOf owner) ∧
          (∀ ready, later.phase = .draining owner → run'.ready = field :: ready →
            later.step = .again (later.modifyRun owner fun _ => { run' with ready })) ∧
          ∀ (other : Job σ) (site' : FieldSite σ) (s : Stage σ),
            s.run.draft.isDead Draft.root = true →
              ((Step.field (.new other.schema Draft.root key site')).advance other).Gives s
                .finished s) := by
  obtain ⟨type, world, weave, path, shares⟩ := begins.shares place visits
  obtain ⟨weave', path', shares'⟩ := visits'.shares shares
  -- That the root fields are taken one by one is carried along the path of the run.
  have ordered : weave.InOrder job := path.inOrder (Weave.inOrder_start mutation)
  obtain ⟨-, rfl⟩ := shares.same_run here
  obtain ⟨-, rfl⟩ := shares'.same_run here'
  have ordered' : weave'.InOrder job := path'.inOrder ordered
  have distinct := ordered'.one.distinct
  refine ⟨distinct, fun step ready other mem => ?_, fun field next frees after later watched => ?_,
    fun null field held => ?_⟩
  -- Every step that is left is on the way of the ready one or behind it, as the keys are ordered.
  · have behind := fun elsewhere => shares'.behind ordered path' ready elsewhere other mem
    refine ⟨fun before => ?_, behind⟩
    by_cases elsewhere : step.spot = .node Draft.root
    · -- The root object is on no way.
      obtain ⟨key, key', -, way, -⟩ := before
      have rooted' : weave'.run.draft.Rooted := ordered'.settled.tidy.wf.rooted
      unfold Step.firstKey? at way
      rw [elsewhere] at way
      unfold Draft.firstKey? at way
      simp only [rooted'.path_root] at way
      cases way
    · rcases behind elsewhere with same | after
      · exact before.differs distinct same
      · exact before.asymm distinct after
  -- A field is released when nothing is parked: no source has a fetch in flight, so what is loaded
  -- later has been fetched later.
  · have releases := frees.releases
    obtain ⟨quiet, accounts⟩ := begins.accounts watched
    obtain ⟨entries, logged⟩ := visits.logged watched
    obtain ⟨quiet, accounts⟩ := logged.accounts quiet accounts
    exact ⟨later.logged watched, fun ledger logged front key said rest split =>
      releases.fetches quiet accounts logged split⟩
  -- The root is dead with the data, and a field below a dead node is dropped.
  · obtain ⟨key, site, same, null', only, dropped⟩ := shares'.drops ordered path' null held
    exact ⟨key, site, same, null', only, dropped, fun other site' s dead =>
      FieldStep.advance_dead _ other dead⟩

/-- A schema with a mutation field that may not be null and is, and another field. -/
def spoiling : SchemaBuilder Unit :=
  ({ SchemaBuilder.new "Query" with mutationType? := some "Mutation" }.register (.object
    { name := "Query"
      fields := [("count", { name := "count", type := .named "Int" })] })).register (.object
    { name := "Mutation"
      fields :=
        [("spoil",
          { name := "spoil"
            type := .nonNull (.named "Int")
            resolve? := some fun _ => pure { result := .ok (.value .null) } }),
          ("count",
          { name := "count"
            type := .named "Int"
            resolve? := some fun _ => pure { result := .ok (.value (.int 3)) } })] })

/-- The request `mutation { spoil count }`. -/
def spoilRequest : Request :=
  { document :=
      { operations := .single
          { name? := none
            kind := .mutation
            definitions := []
            selections :=
              [.field ⟨none, "spoil", [], [], [], ⟨1, 12⟩, 11⟩,
                .field ⟨none, "count", [], [], [], ⟨1, 18⟩, 17⟩]
            location := ⟨1, 1⟩ }
        fragments := [] } }

/-- A run of `spoilRequest` has nulled its data while a field is held back, and goes on. -/
def spoils : Bool :=
  match spoiling.finish with
  | .ok schema =>
    match schema.prepared [spoilRequest] ⟨(), fun _ state => state, []⟩ with
    | (prepared, world) =>
      match readyJobs prepared with
      | [job] =>
        match [job].mapM Job.start with
        | .ok runs =>
          match Schedule.goesOn? 9 (Schedule.new runs world true) with
          | some now =>
            match Schedule.goesOn? 1 now with
            | some later =>
              match now.runs[0]?, later.runs[0]? with
              | some (_, run), some (_, run') =>
                job.isMutation && run.draft.dataIsNull && run.held.length == 1 &&
                  run'.ready.length == 1
              | _, _ => false
            | none => false
          | none => false
        | _ => false
      | _ => false
  | _ => false

theorem mutations_take_turns_spoil : ∃ schema first now later job run run' field key site,
    spoiling.finish = .ok schema ∧
      schema.Begins {} [spoilRequest] ⟨(), fun _ state => state, []⟩ first ∧
      first.Visits now ∧ now.Visits later ∧ now.runs[0]? = some (job, run) ∧
      later.runs[0]? = some (job, run') ∧ run.held = [field] ∧ run'.ready.length = 1 ∧
      field = .field (.new job.schema Draft.root key site) ∧ run'.draft.dataIsNull = true ∧
      ∀ step ∈ later.outstanding 0, step.firstKey? run'.draft = some (.field key) →
        step = field ∧ step ∉ later.parkedOf 0 := by
  have ran : spoils = true := by cbv
  unfold spoils at ran
  split at ran
  · rename_i schema finish
    split at ran
    · rename_i prepared world prepares
      split at ran
      · rename_i job only
        split at ran
        · rename_i runs begun
          split at ran
          · rename_i now until_now
            split at ran
            · rename_i later until_later
              split at ran
              · rename_i job₁ run job₂ run' here here'
                simp only [Bool.and_eq_true, beq_iff_eq] at ran
                obtain ⟨⟨⟨mutation, null⟩, one_held⟩, one_ready⟩ := ran
                have prepared_eq : (schema.prepared [spoilRequest]
                    ⟨(), fun _ state => state, []⟩) = (prepared, world) := prepares
                have begins : schema.Begins {} [spoilRequest] ⟨(), fun _ state => state, []⟩
                    (.new runs world true) := ⟨runs, by rw [prepared_eq, only]; exact begun, by
                  rw [prepared_eq]⟩
                have place : (readyJobs (schema.prepared [spoilRequest]
                    ⟨(), fun _ state => state, []⟩).1)[0]? = some job := by
                  rw [prepared_eq, only]
                  rfl
                have visits := Schedule.visits_of_goesOn? .start until_now
                have visits' := Schedule.visits_of_goesOn? .start until_later
                obtain ⟨-, -, weave, -, shares⟩ := begins.shares place visits
                obtain ⟨-, -, weave', -, shares'⟩ :=
                  begins.shares place (Schedule.visits_of_goesOn? visits until_later)
                obtain ⟨rfl, -⟩ := shares.same_run here
                obtain ⟨rfl, -⟩ := shares'.same_run here'
                obtain ⟨field, held⟩ := List.length_eq_one_iff.mp one_held
                obtain ⟨-, -, -, drops⟩ :=
                  mutations_take_turns begins place mutation visits visits' here here'
                obtain ⟨key, site, same, null', only', -⟩ :=
                  drops null field (held ▸ List.mem_singleton_self field)
                exact ⟨schema, _, now, later, job, run, run', field, key, site, finish, begins,
                  visits, visits', here, here', held, one_ready, same, null', only'⟩
              · cases ran
            · cases ran
          · cases ran
        · cases ran
      · cases ran
  · cases ran

end Schema

end GraphExec
