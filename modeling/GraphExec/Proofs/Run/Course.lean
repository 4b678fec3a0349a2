import GraphExec.Proofs.Draft.Reading
import GraphExec.Proofs.Run.Comes

/-!
# The course of a run

Whatever moves a run makes, they amount to moves of the plan that its tasks are. When nothing is
left to do, the data that the run answers are those that its root comes to.
-/

namespace GraphExec

variable {σ : Type} {job : Job σ} {seen : Sight σ → Prop}

/-! ### Transitions -/

/-- The spot of a step that is not wanted any more is dead. -/
theorem Orderly.dead {step : Step σ} {draft : Draft} {rest : List (Task σ)}
    (orderly : Orderly draft (.awake step :: rest)) (dead : step.isAlive draft = false) :
    ¬ draft.Alive (Task.awake step).spot.id := by
  cases step with
  | field step =>
      show ¬ draft.Alive step.parent
      simpa [Step.isAlive, Draft.Alive] using dead
  | item step =>
      show ¬ draft.Alive step.position.parent
      simpa [Step.isAlive, Draft.Alive] using dead
  | object step =>
      cases target : step.target with
      | root => simp [Step.isAlive, target, ObjectTarget.isAlive] at dead
      | child position =>
          have gone : ¬ draft.Alive position.parent := by
            simpa [Step.isAlive, target, ObjectTarget.isAlive, Draft.Alive] using dead
          show ¬ draft.Alive step.spot.id
          cases here : step.state.node? with
          | none =>
              have early := step.early_of_state here
              rw [early, target]
              exact gone
          | some node =>
              have seat := orderly.seated _ List.mem_cons_self node here
              rw [target] at seat
              unfold ObjectStep.spot
              rw [here]
              intro alive
              exact gone (orderly.tidy.wf_draft.child node _ _ alive seat).1

/-- A transition of a step amounts to moves of the plan, dead or alive. -/
theorem Step.realized {step : Step σ} {s t : Stage σ} {progress : Progress σ}
    {rest : List (Task σ)} (gives : (step.advance job).Gives s progress t)
    (made : seen (.advanced step s)) (orderly : Orderly s.run.draft (.awake step :: rest)) :
    Realized job seen step s t progress rest := by
  rcases step.advance_cases gives with ⟨dead, rfl, rfl⟩ | ⟨alive, moves⟩
  · exact .of_move (.of_enters (.of_same (.refl t)))
      (.step (.lose (orderly.dead dead)) (.refl _)) seated_none
  · exact moves.realized gives made alive (orderly.seated _ List.mem_cons_self) orderly

/-- A seat stays as a draft grows. -/
theorem Task.Seated.grows {task : Task σ} {before after : Draft} (seated : task.Seated before)
    (grows : before.Grows after) (known : task.spot.id < before.nodes.size) :
    task.Seated after := by
  have by_step : ∀ step : Step σ, step.Seated before → step.spot.id < before.nodes.size →
      step.Seated after := by
    intro step seated known
    cases step with
    | field step => exact trivial
    | item step => exact trivial
    | object step =>
        intro node here
        have seat := seated node here
        have there : step.spot = .node node := by
          unfold ObjectStep.spot
          rw [here]
        have bound : node < before.nodes.size := by
          show Spot.id (.node node) < _
          rw [← there]
          exact known
        cases target : step.target with
        | root =>
            rw [target] at seat
            exact seat
        | child position =>
            rw [target] at seat
            exact (grows.parent node bound).trans seat
  cases task with
  | awake step => exact by_step step seated known
  | asleep step wait => exact by_step step seated known
  | called step resumption => exact by_step step seated known
  | written node key value nonNull => exact trivial

/-! ### Answers -/

theorem Step.Resumed.stays {step next : Step σ} {resumption : Resumption σ}
    (resumed : step.Resumed resumption next) : step.Stays job next := by
  cases resumed with
  | field resumed => cases resumed <;> exact .field _
  | item resumed => cases resumed <;> exact .item _
  | object resumed =>
      cases resumed with
      | type state | authorization state | value state | arguments state =>
          exact .object (by rw [state]; exact id) (by rw [state]; rfl)

/-- A step that is resumed stays where it is. -/
theorem Step.resume_stays {step next : Step σ} {resumption : Resumption σ}
    (resumes : step.resume resumption = .ok next) : step.Stays job next :=
  (Step.resumed resumes).stays

/-! ### Runs -/

namespace Weave

/-- What is left to do. -/
def tasks (weave : Weave σ) : List (Task σ) :=
  (weave.run.ready ++ weave.run.held).map .awake ++
    (weave.asleep.map (fun entry => .asleep entry.1 entry.2) ++
      weave.called.map (fun entry => .called entry.1 entry.2))

/-- When a run has finished, nothing is left to do. -/
theorem Finished.tasks_eq {weave : Weave σ} (finished : weave.Finished) : weave.tasks = [] := by
  simp [tasks, finished.ready, finished.held, finished.asleep, finished.called]

/-- A held step that is released is left to be done, as it was while it was held back. -/
theorem tasks_release {weave : Weave σ} {step : Step σ} {held : List (Step σ)}
    (idle : weave.run.ready = []) (top : weave.run.held = step :: held) (world : World σ) :
    tasks { weave with run := { weave.run with ready := [step], held }, world } = weave.tasks := by
  unfold tasks
  rw [idle, top]
  rfl

/-- The plan of a run. -/
def plan (weave : Weave σ) : Plan (Task σ) := ⟨weave.run.draft, weave.tasks⟩

/-- Moves of a plan keep its tasks orderly, if new ones are. -/
theorem orderly_of_reaches {draft after : Draft} {kept fresh gone : List (Task σ)}
    (orderly : Orderly draft (gone ++ kept))
    (reaches : Plan.Reaches Task.spot (Comes job seen) ⟨draft, gone ++ kept⟩ ⟨after, fresh ++ kept⟩)
    (seated : ∀ task ∈ fresh, task.Seated after) : Orderly after (fresh ++ kept) := by
  refine ⟨reaches.tidy orderly.tidy, reaches.anchored orderly.tidy orderly.anchored, ?_⟩
  intro task mem
  rcases List.mem_append.mp mem with mem | mem
  · exact seated task mem
  · have before := orderly.seated task (List.mem_append_right _ mem)
    have known := orderly.tidy.known task (List.mem_append_right _ mem)
    exact before.grows reaches.grows known

/-- The tasks of a run are orderly. -/
def Settled (weave : Weave σ) : Prop := Orderly weave.run.draft weave.tasks

/-- Moves of the plan lead from one run to another, and leave it orderly. -/
def Leads (job : Job σ) (seen : Sight σ → Prop) (first last : Weave σ) : Prop :=
  Plan.Reaches Task.spot (Comes job seen) first.plan last.plan ∧ last.Settled

theorem Settled.perm {weave : Weave σ} {tasks : List (Task σ)} (settled : weave.Settled)
    (same : weave.tasks.Perm tasks) : Orderly weave.run.draft tasks :=
  ⟨settled.tidy.sort same, fun t mem => settled.anchored t (same.mem_iff.mpr mem),
    fun t mem => settled.seated t (same.mem_iff.mpr mem)⟩

/-- Some tasks give way to others, in any places. -/
theorem leads_of_reaches {first last : Weave σ} (gone fresh kept : List (Task σ))
    (settled : first.Settled) (before : first.tasks.Perm (gone ++ kept))
    (reaches : Plan.Reaches Task.spot (Comes job seen) ⟨first.run.draft, gone ++ kept⟩
      ⟨last.run.draft, fresh ++ kept⟩)
    (seated : ∀ task ∈ fresh, task.Seated last.run.draft)
    (after : last.tasks.Perm (fresh ++ kept)) : Leads job seen first last := by
  have orderly := orderly_of_reaches (settled.perm before) reaches seated
  constructor
  · exact .step (.sort before) (reaches.trans (.step (.sort after.symm) (.refl _)))
  · exact ⟨orderly.tidy.sort after.symm,
      fun t mem => orderly.anchored t (after.mem_iff.mp mem),
      fun t mem => orderly.seated t (after.mem_iff.mp mem)⟩

/-- One task gives way to another at its spot. -/
theorem leads_of_pass {first last : Weave σ} {task other : Task σ} {kept : List (Task σ)}
    (settled : first.Settled) (draft : last.run.draft = first.run.draft)
    (before : first.tasks.Perm (task :: kept)) (after : last.tasks.Perm (other :: kept))
    (spot : other.spot = task.spot) (backward : ∀ v, Comes job seen other v → Comes job seen task v)
    (seated : task.Seated first.run.draft → other.Seated first.run.draft) :
    Leads job seen first last := by
  have member : task ∈ first.tasks := before.mem_iff.mpr List.mem_cons_self
  refine leads_of_reaches [task] [other] kept settled before ?_ ?_ after
  · rw [draft]
    exact .step (.pass spot backward) (.refl _)
  · intro t mem
    rw [List.mem_singleton.mp mem, draft]
    exact seated (settled.seated task member)

/-- Nothing but what surrounds the run changes, or a held step is released. -/
theorem leads_of_perm {first last : Weave σ} (settled : first.Settled)
    (draft : last.run.draft = first.run.draft) (same : first.tasks.Perm last.tasks) :
    Leads job seen first last := by
  refine leads_of_reaches [] [] first.tasks settled (.refl _) ?_ ?_ same.symm
  · rw [draft]
    exact .refl _
  · exact fun t mem => absurd mem List.not_mem_nil

theorem draft_place (weave : Weave σ) (progress : Progress σ) :
    (weave.place progress).run.draft = weave.run.draft := by
  cases progress <;> rfl

/-- What is left to do besides a ready step. -/
def others (weave : Weave σ) (ready : List (Step σ)) : List (Task σ) :=
  (ready ++ weave.run.held).map .awake ++
    (weave.asleep.map (fun entry => .asleep entry.1 entry.2) ++
      weave.called.map (fun entry => .called entry.1 entry.2))

theorem tasks_picked {weave : Weave σ} {step : Step σ} {ready : List (Step σ)}
    (picked : weave.run.ready.Perm (step :: ready)) :
    weave.tasks.Perm (.awake step :: weave.others ready) :=
  ((picked.append_right weave.run.held).map _).append_right _

/-- What is left to do after a transition, given the steps that it adds. -/
theorem tasks_place {weave : Weave σ} {ready steps : List (Step σ)} {s : Stage σ}
    (added : (s.run.ready ++ s.run.held).Perm (steps ++ (ready ++ weave.run.held)))
    (progress : Progress σ) :
    (place { weave with run := s.run, world := s.world } progress).tasks.Perm
      (progress.tasks steps ++ weave.others ready) := by
  let waiting : List (Task σ) := weave.asleep.map (fun entry => .asleep entry.1 entry.2) ++
    weave.called.map (fun entry => .called entry.1 entry.2)
  have awake : ((s.run.ready ++ s.run.held).map Task.awake ++ waiting).Perm
      (steps.map .awake ++ weave.others ready) := by
    have mapped := (added.map Task.awake).append_right waiting
    refine mapped.trans (.of_eq ?_)
    rw [List.map_append, List.append_assoc]
    rfl
  cases progress with
  | again next => exact awake.cons _
  | finished => exact awake
  | parked next depth wait => exact List.perm_middle.trans (awake.cons _)

theorem leads_advance {weave : Weave σ} {step : Step σ} {ready : List (Step σ)}
    {progress : Progress σ} {s : Stage σ} (settled : weave.Settled)
    (picked : weave.run.ready.Perm (step :: ready))
    (made : seen (.advanced step ⟨{ weave.run with ready }, weave.world⟩))
    (gives : (step.advance job).Gives ⟨{ weave.run with ready }, weave.world⟩ progress s) :
    Leads job seen weave (place { weave with run := s.run, world := s.world } progress) := by
  have before := tasks_picked picked
  obtain ⟨steps, added, reaches, seated⟩ := Step.realized gives made (settled.perm before)
  refine leads_of_reaches [.awake step] (progress.tasks steps) (weave.others ready) settled before
    ?_ ?_ (tasks_place added progress)
  · cases progress <;> exact reaches
  · cases progress <;> exact seated

/-- One task has given way to another. -/
def Swaps (first last : Weave σ) (task other : Task σ) : Prop :=
  ∃ kept, first.tasks.Perm (task :: kept) ∧ last.tasks.Perm (other :: kept)

namespace Swaps

variable {first last : Weave σ} {task other t : Task σ}

theorem mem (swaps : Swaps first last task other) : task ∈ first.tasks ∧ other ∈ last.tasks := by
  obtain ⟨kept, was, is_now⟩ := swaps
  exact ⟨was.mem_iff.mpr List.mem_cons_self, is_now.mem_iff.mpr List.mem_cons_self⟩

theorem kept (swaps : Swaps first last task other) (mem : t ∈ first.tasks) (differs : t ≠ task) :
    t ∈ last.tasks := by
  obtain ⟨kept, was, is_now⟩ := swaps
  rcases List.mem_cons.mp (was.mem_iff.mp mem) with same | mem
  · exact absurd same differs
  · exact is_now.mem_iff.mpr (List.mem_cons_of_mem _ mem)

/-- Whatever is left to do is new, or was left before. -/
theorem left (swaps : Swaps first last task other) (mem : t ∈ last.tasks) :
    t = other ∨ t ∈ first.tasks := by
  obtain ⟨kept, was, is_now⟩ := swaps
  exact (List.mem_cons.mp (is_now.mem_iff.mp mem)).imp_right fun mem =>
    was.mem_iff.mpr (List.mem_cons_of_mem _ mem)

end Swaps

theorem swaps_wait {weave : Weave σ} {step : Step σ} {wait rest : Wait σ}
    {others : List (Step σ × Wait σ)} {s : Stage σ}
    (picked : weave.asleep.Perm ((step, wait) :: others)) (same : SameTree weave.stage s) :
    Swaps weave { weave with run := s.run, world := s.world, asleep := (step, rest) :: others }
      (.asleep step wait) (.asleep step rest) := by
  let ready : List (Task σ) := (weave.run.ready ++ weave.run.held).map .awake
  let asleep : List (Task σ) := others.map fun entry => .asleep entry.1 entry.2
  let called : List (Task σ) := weave.called.map fun entry => .called entry.1 entry.2
  refine ⟨ready ++ (asleep ++ called), ?_, ?_⟩
  · have put : weave.tasks.Perm (ready ++ (.asleep step wait :: (asleep ++ called))) :=
      ((picked.map _).append_right called).append_left ready
    exact put.trans List.perm_middle
  · have awake : (s.run.ready ++ s.run.held).map Task.awake = ready := by
      rw [same.ready, same.held]
      rfl
    show ((s.run.ready ++ s.run.held).map Task.awake ++
      (.asleep step rest :: (asleep ++ called))).Perm _
    rw [awake]
    exact List.perm_middle

theorem swaps_answer {weave : Weave σ} {step : Step σ} {wait : Wait σ}
    {resumption : Resumption σ} {others : List (Step σ × Wait σ)} {s : Stage σ}
    (picked : weave.asleep.Perm ((step, wait) :: others)) (same : SameTree weave.stage s) :
    Swaps weave
      { run := s.run, world := s.world, asleep := others
        called := (step, resumption) :: weave.called }
      (.asleep step wait) (.called step resumption) := by
  let ready : List (Task σ) := (weave.run.ready ++ weave.run.held).map .awake
  let asleep : List (Task σ) := others.map fun entry => .asleep entry.1 entry.2
  let called : List (Task σ) := weave.called.map fun entry => .called entry.1 entry.2
  refine ⟨ready ++ (asleep ++ called), ?_, ?_⟩
  · have put : weave.tasks.Perm (ready ++ (.asleep step wait :: (asleep ++ called))) :=
      ((picked.map _).append_right called).append_left ready
    exact put.trans List.perm_middle
  · have awake : (s.run.ready ++ s.run.held).map Task.awake = ready := by
      rw [same.ready, same.held]
      rfl
    show ((s.run.ready ++ s.run.held).map Task.awake ++
      (asleep ++ (.called step resumption :: called))).Perm _
    rw [awake]
    exact (List.perm_middle.append_left ready).trans List.perm_middle

theorem swaps_resume {weave : Weave σ} {step next : Step σ} {resumption : Resumption σ}
    {others : List (Step σ × Resumption σ)}
    (picked : weave.called.Perm ((step, resumption) :: others)) :
    Swaps weave
      { weave with
        run := { weave.run with
          parked := weave.run.parked - 1
          ready := weave.run.ready ++ [next] }
        called := others }
      (.called step resumption) (.awake next) := by
  let ready : List (Task σ) := weave.run.ready.map .awake
  let held : List (Task σ) := weave.run.held.map .awake
  let asleep : List (Task σ) := weave.asleep.map fun entry => .asleep entry.1 entry.2
  let called : List (Task σ) := others.map fun entry => .called entry.1 entry.2
  refine ⟨ready ++ (held ++ (asleep ++ called)), ?_, ?_⟩
  · have put : weave.tasks.Perm
        ((ready ++ held) ++ (asleep ++ (.called step resumption :: called))) := by
      unfold tasks
      rw [List.map_append]
      exact ((picked.map _).append_left asleep).append_left (ready ++ held)
    rw [List.append_assoc] at put
    refine put.trans ?_
    exact (((List.perm_middle.append_left held).trans List.perm_middle).append_left ready).trans
      List.perm_middle
  · show ((weave.run.ready ++ [next] ++ weave.run.held).map Task.awake ++
      (asleep ++ called)).Perm _
    rw [List.map_append, List.map_append, List.append_assoc, List.append_assoc]
    exact List.perm_middle

theorem leads_wait {weave : Weave σ} {step : Step σ} {wait rest : Wait σ}
    {others : List (Step σ × Wait σ)} {s : Stage σ} (settled : weave.Settled)
    (picked : weave.asleep.Perm ((step, wait) :: others))
    (heard : seen (.polled wait weave.stage))
    (polled : wait.poll weave.stage = (.pending rest, s)) :
    Leads job seen weave
      { weave with run := s.run, world := s.world, asleep := (step, rest) :: others } := by
  have same := Wait.sameTree_of_poll polled
  obtain ⟨kept, before, after⟩ := swaps_wait picked same
  exact leads_of_pass settled same.draft before after rfl
    (fun v after => .waited heard polled after) id

theorem leads_answer {weave : Weave σ} {step : Step σ} {wait : Wait σ}
    {resumption : Resumption σ} {others : List (Step σ × Wait σ)} {s : Stage σ}
    (settled : weave.Settled) (picked : weave.asleep.Perm ((step, wait) :: others))
    (heard : seen (.polled wait weave.stage))
    (polled : wait.poll weave.stage = (.ready resumption, s)) :
    Leads job seen weave
      { run := s.run, world := s.world, asleep := others
        called := (step, resumption) :: weave.called } := by
  have same := Wait.sameTree_of_poll polled
  obtain ⟨kept, before, after⟩ := swaps_answer picked same
  exact leads_of_pass settled same.draft before after rfl
    (fun v after => .answered heard polled after) id

theorem leads_resume {weave : Weave σ} {step next : Step σ} {resumption : Resumption σ}
    {others : List (Step σ × Resumption σ)} (settled : weave.Settled)
    (picked : weave.called.Perm ((step, resumption) :: others))
    (resumes : step.resume resumption = .ok next) :
    Leads job seen weave
      { weave with
        run := { weave.run with
          parked := weave.run.parked - 1
          ready := weave.run.ready ++ [next] }
        called := others } := by
  have stays : step.Stays job next := Step.resume_stays resumes
  obtain ⟨kept, before, after⟩ := swaps_resume picked
  exact leads_of_pass settled rfl before after stays.spot (fun v after => .resumed resumes after)
    stays.seated

/-- Every move of a run amounts to moves of its plan. -/
theorem Move.leads {first last : Weave σ} {sight : Sight σ} (move : Move job first sight last)
    (allowed : seen sight) (settled : first.Settled) : Leads job seen first last := by
  cases move with
  | advance picked advanced => exact leads_advance settled picked allowed advanced
  | @release step held idle top none_parked =>
      exact leads_of_perm settled rfl (.of_eq (tasks_release idle top _).symm)
  | wait picked polled => exact leads_wait settled picked allowed polled
  | answer picked polled => exact leads_answer settled picked allowed polled
  | resume picked resumes => exact leads_resume settled picked resumes
  | change world => exact leads_of_perm settled rfl (.refl _)

theorem Path.leads {first last : Weave σ} (path : Path job seen first last)
    (settled : first.Settled) : Leads job seen first last := by
  induction path with
  | refl => exact ⟨.refl _, settled⟩
  | step _ allowed move ih =>
      obtain ⟨reaches, orderly⟩ := ih
      obtain ⟨more, orderly'⟩ := move.leads allowed orderly
      exact ⟨reaches.trans more, orderly'⟩

end Weave

/-- What a step meets in a move is where it is in a later draft, and so is what it leaves. -/
def Sight.Within (job : Job σ) (later : Draft) : Sight σ → Prop
  | advanced step s =>
    s.run.draft.Rooted ∧ step.spot.id < s.run.draft.nodes.size ∧ s.run.draft.Grows later ∧
      ∀ progress t, (step.advance job).Gives s progress t → t.run.draft.Grows later
  | _ => True

namespace Weave

theorem Move.within {first last : Weave σ} {sight : Sight σ} (move : Move job first sight last)
    (settled : first.Settled) {later : Draft} (grows : first.run.draft.Grows later)
    (after : last.run.draft.Grows later) : sight.Within job later := by
  cases move with
  | @advance step ready progress s picked advanced =>
      have mem : Task.awake step ∈ first.tasks := by
        have ready := List.mem_append_left first.run.held (picked.mem_iff.mpr List.mem_cons_self)
        exact List.mem_append_left _ (List.mem_map.mpr ⟨step, ready, rfl⟩)
      refine ⟨settled.tidy.wf_draft.rooted, settled.tidy.known _ mem, grows, ?_⟩
      intro progress' t gives
      have same := advanced.symm.trans gives
      injection same with _ same
      subst same
      cases progress <;> exact after
  | _ => trivial

/-- Whatever a run meets is where it is in the end. -/
theorem Path.within {first last : Weave σ} (path : Path job seen first last)
    (settled : first.Settled) :
    Path job (fun sight => seen sight ∧ sight.Within job last.run.draft) first last := by
  have all : ∀ later, last.run.draft.Grows later →
      Path job (fun sight => seen sight ∧ sight.Within job later) first last := by
    induction path with
    | refl => exact fun _ _ => .refl _
    | step path allowed move ih =>
        intro later after
        have before := (path.leads settled).2
        have grows := (move.leads allowed before).1.grows.trans after
        exact .step (ih later grows) ⟨allowed, move.within before grows after⟩ move
  exact all _ (.refl _)

/-- The plan of a run that has not been begun is to build the root object. -/
theorem plan_start (job : Job σ) (type : ObjectType σ) (world : World σ) :
    ∃ subject : Subject, subject.value = job.root ∧
      (start job type world).plan =
        .start job.root (.awake (.object (.root job type subject))) := by
  cases root : job.root with
  | data v =>
      refine ⟨⟨.data v, .data 0⟩, rfl, ?_⟩
      simp [plan, tasks, start, Run.start, Plan.start, root]
  | object o =>
      refine ⟨⟨.object o, .object o.identity⟩, rfl, ?_⟩
      simp [plan, tasks, start, Run.start, Plan.start, root]

/-- A run that has not been begun is settled. -/
theorem settled_start (job : Job σ) (type : ObjectType σ) (world : World σ) :
    (start job type world).Settled := by
  obtain ⟨subject, -, plan_eq⟩ := plan_start job type world
  let root : Task σ := .awake (.object (.root job type subject))
  have here : root.spot = .node Draft.root := rfl
  have tidy : Plan.Tidy Task.spot (start job type world).plan := by
    rw [plan_eq]
    exact Plan.tidy_start job.root here
  have only : ∀ task ∈ (start job type world).plan.tasks, task = root := by
    rw [plan_eq]
    exact fun task mem => List.mem_singleton.mp mem
  have draft : (start job type world).plan.draft = .new job.root := by
    rw [plan_eq]
    rfl
  refine ⟨tidy, ?_, ?_⟩
  · intro task mem id there _
    rw [only task mem] at there
    injection there with there
    subst there
    show (start job type world).plan.draft.Alive Draft.root
    rw [draft]
    rfl
  · intro task mem
    rw [only task mem]
    intro node none_yet
    cases none_yet

/-- The data that a finished run answers are those that its root comes to. -/
theorem Path.toJson_eq {type : ObjectType σ} {world : World σ} {last : Weave σ}
    (path : Path job seen (start job type world) last) (finished : last.Finished) :
    ∃ (subject : Subject) (verdict : Verdict), subject.value = job.root ∧
      Comes job seen (.awake (.object (.root job type subject))) verdict ∧
      last.run.draft.toJson = verdict.data ∧ verdict ≠ .omitted := by
  obtain ⟨subject, same, plan_eq⟩ := plan_start job type world
  let root : Task σ := .awake (.object (.root job type subject))
  have here : root.spot = .node Draft.root := rfl
  obtain ⟨reaches, -⟩ := path.leads (settled_start job type world)
  have empty : last.plan = ⟨last.run.draft, []⟩ := by
    unfold plan tasks
    rw [finished.ready, finished.held, finished.asleep, finished.called]
    rfl
  rw [plan_eq, empty] at reaches
  obtain ⟨verdict, comes, data, shown⟩ := reaches.toJson_eq here
  exact ⟨subject, verdict, same, comes, data, shown⟩

end Weave

end GraphExec
