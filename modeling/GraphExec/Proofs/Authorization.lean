import Mathlib
import GraphExec.Proofs.Mutations
import GraphExec.Proofs.Run.Calls
import GraphExec.Proofs.Run.Clearance
import GraphExec.Proofs.Run.Refusals

/-!
# Authorization

Nothing is done for the fields of an object before the hook of its type has let it be shown in its
place: the steps that are left of a run call no application code for them, and there is no step for
one of them. What may not be shown gives way to what the hook of the schema answers, which has to be
let through in its turn. A root object that gives way leaves null, and it stays null.
-/

namespace GraphExec

open Engine

variable {σ : Type} {job : Job σ} {seen : Sight σ → Prop}

/-! ### What steps are there for -/

/-- A node of the response is the object that a step is there for. -/
def Step.WorksFor (draft : Draft) (node : NodeId) : Step σ → Prop
  | .object step => step.state.node? = some node
  | .field step => step.parent = node
  | .item step => draft.Below node step.position.parent

namespace Step

variable {step : Step σ} {draft : Draft} {concern : Concern σ}

/-- A step is there for the fields of an object that may be shown where the step works for it. -/
theorem Cleared.of_concern (cleared : step.Cleared job seen draft) (seated : step.Seated draft)
    (concerned : step.concern? = some concern) : ∃ (node : NodeId) (candidate : Candidate σ),
      step.WorksFor draft node ∧ candidate.target.At draft node ∧
      candidate.subject = concern.subject ∧ candidate.type.name = concern.typeName ∧
      candidate.Cleared job seen := by
  cases step with
  | field step =>
      obtain ⟨candidate, shown⟩ := cleared
      injection concerned with concerned
      subst concerned
      exact ⟨step.parent, candidate, rfl, shown.place, shown.owner.symm, shown.typeName.symm,
        shown.cleared⟩
  | item step =>
      obtain ⟨node, candidate, shown, below⟩ := cleared
      injection concerned with concerned
      subst concerned
      exact ⟨node, candidate, below, shown.place, shown.owner.symm, shown.typeName.symm,
        shown.cleared⟩
  | object step =>
      have itself := cleared.1
      have of_type {type : ObjectType σ} {node : NodeId} (placed : step.state.node? = some node)
          (let_in : (step.candidate type).Cleared job seen)
          (same : (⟨step.subject, type.name, none⟩ : Concern σ) = concern) :
          ∃ (node : NodeId) (candidate : Candidate σ), (Step.object step).WorksFor draft node ∧
            candidate.target.At draft node ∧ candidate.subject = concern.subject ∧
            candidate.type.name = concern.typeName ∧ candidate.Cleared job seen := by
        subst same
        exact ⟨node, step.candidate type, placed, seated node placed, rfl, rfl, let_in⟩
      unfold ObjectStep.Cleared at itself
      unfold concern? at concerned
      cases state : step.state with
      | collect type node | awaitingArguments type node =>
          simp only [state, Option.some.injEq] at itself concerned
          exact of_type (by rw [state]; rfl) itself concerned
      | _ =>
          simp only [state] at concerned
          cases concerned

end Step

namespace Weave

variable {weave : Weave σ}

/-- The steps that are left are among the tasks. -/
theorem task_of_step (job : Job σ) (seen : Sight σ → Prop) {step : Step σ}
    (mem : step ∈ weave.active ++ weave.run.held) :
    ∃ task ∈ weave.tasks, ∀ draft, (task.Cleared job seen draft → step.Cleared job seen draft) ∧
      (task.Seated draft → step.Seated draft) := by
  unfold active at mem
  simp only [List.mem_append, List.mem_map] at mem
  unfold tasks
  rcases mem with (ready | ⟨⟨_, wait⟩, parked, rfl⟩ | ⟨⟨_, resumption⟩, called, rfl⟩) | held
  · exact ⟨.awake step, by simp [ready], fun _ => ⟨id, id⟩⟩
  · exact ⟨.asleep _ wait, by simp [parked], fun _ => ⟨And.left, id⟩⟩
  · exact ⟨.called _ resumption, by simp [called], fun _ => ⟨And.left, id⟩⟩
  · exact ⟨.awake step, by simp [held], fun _ => ⟨id, id⟩⟩

/-- Every step that is left of a run is there for an object that may be shown, if for any. -/
theorem Path.of_concern {first : Weave σ} (path : Path job seen first weave)
    (settled : first.Settled) (cleared : first.Cleared job seen) {step : Step σ}
    (mem : step ∈ weave.active ++ weave.run.held) {concern : Concern σ}
    (concerned : step.concern? = some concern) : ∃ (node : NodeId) (candidate : Candidate σ),
      step.WorksFor weave.run.draft node ∧ candidate.target.At weave.run.draft node ∧
      candidate.subject = concern.subject ∧ candidate.type.name = concern.typeName ∧
      candidate.Cleared job seen := by
  obtain ⟨task, among, to_step⟩ := task_of_step job seen mem
  have step_cleared := (to_step _).1 (path.cleared settled cleared task among)
  have step_seated := (to_step _).2 ((path.leads settled).2.seated task among)
  exact step_cleared.of_concern step_seated concerned

/-- Data that are null stay null. -/
theorem Path.stays_null {last : Weave σ} (path : Path job seen weave last)
    (settled : weave.Settled) (null : weave.run.draft.dataIsNull = true) :
    last.run.draft.dataIsNull = true := by
  obtain ⟨reaches, settled'⟩ := path.leads settled
  obtain ⟨node, top, -⟩ := settled.tidy.wf.rooted.root
  have inside : Draft.root < weave.run.draft.nodes.size := (Array.getElem?_eq_some_iff.mp top).1
  have dead : weave.run.draft.isDead Draft.root = true := settled.tidy.wf.null.trans null
  exact settled'.tidy.wf.null.symm.trans (reaches.stays_dead inside dead)

end Weave

namespace Schema

variable {schema : Schema σ} {config : Config} {requests : List Request} {first : Schedule σ}

/-- In every run, whatever the application code and whenever it answers: for the fields of an object
nothing is called, and no step is there, unless there is no hook of its type or the hook has answered
true for what the object is made from in its place; a field whose own hook refuses a call comes to a
refusal without another call; a step that has come to a refusal has come to what the hook of the schema
answers, null without one, and completes its position with that unless it has to wait for it or it
is refused again; and a root object that is refused leaves null data, which stay. -/
theorem authorization_respected {owner : Nat} {job : Job σ} {run : Run σ} {world : World σ}
    {now : Schedule σ} (begins : schema.Begins config requests world first)
    (visits : first.Visits now) (here : now.runs[owner]? = some (job, run)) :
    (∀ step ∈ now.outstanding owner,
      (step.advance job).Only (job.May step.concern?) ∧
        ∀ concern, step.concern? = some concern → ∃ (node : NodeId) (candidate : Candidate σ),
          step.WorksFor run.draft node ∧ candidate.target.At run.draft node ∧
          candidate.subject = concern.subject ∧ candidate.type.name = concern.typeName ∧
          candidate.Cleared job (first.SawBy now owner job)) ∧
      (∀ (step : FieldStep σ) (s : Stage σ) arguments authorize,
        step.state = .callResolver arguments → step.site.field.authorize? = some authorize →
        s.run.draft.isDead step.parent = false → ∃ extras asked,
          let answer := (authorize ⟨step.site.owner.value, arguments, job.query,
            step.site.typeName, step.site.field.name, extras⟩).run asked
          (step.site.extras job step.parent (step.position.path s.run.draft)).Gives s extras
              ⟨s.run, asked⟩ ∧
            (answer.1 = false → ((Step.field step).advance job).Gives s
              (.again ((Step.field step).given
                (.unauthorized (.field step.site.typeName step.site.field.name))))
              ⟨s.run, answer.2⟩)) ∧
      (∀ (step : Step σ) (s : Stage σ) refusal position, step.refusal? = some refusal →
        step.isAlive s.run.draft = true → step.position? = some position →
        (job.schema.hooks.unauthorized? refusal = none →
          shownValue (job.instead refusal (step.told s.world)).1 = .value .null) ∧
        (step.advance job).Gives s
          (.again (step.given (shownValue (job.instead refusal (step.told s.world)).1)))
          ⟨s.run, (job.instead refusal (step.told s.world)).2⟩) ∧
      (∀ (step : Step σ) (s t : Stage σ) position value progress,
        step.position? = some position → step.isAlive s.run.draft = true →
        (∀ lazy, value ≠ .lazy lazy) → (∀ refusal, value ≠ .unauthorized refusal) →
        ((step.given value).advance job).Gives s progress t →
        progress = .finished ∧ position.Finishes job s value t) ∧
      (∀ (step : Step σ) (s : Stage σ) refusal, step.refusal? = some refusal →
        step.position? = none → (step.advance job).Gives s .finished
          ⟨{ s.run with
              errors := s.run.errors ++ rootErrors (job.instead refusal (step.told s.world)).1
              draft := s.run.draft.nullData }, (job.instead refusal (step.told s.world)).2⟩) ∧
      (run.draft.dataIsNull = true → ∀ later run', now.Visits later →
        later.runs[owner]? = some (job, run') → run'.response.data? = some .null) := by
  obtain ⟨place, -⟩ := begins.job visits here
  obtain ⟨type, weave, root, path, shares⟩ := begins.path_by place visits
  -- The owner's share of the schedule is one execution that weaves its own tasks.
  obtain ⟨-, rfl⟩ := shares.same_run here
  have settled := Weave.settled_start job type (schema.prepared requests world).2
  refine ⟨fun step mem => ⟨step.only_advance, fun concern concerned => ?_⟩, ?_, ?_, ?_, ?_, ?_⟩
  -- Whatever a step may still call, the hook of its object has let it: carried along the weave.
  · have among := shares.outstanding.mem_iff.mpr mem
    exact path.of_concern settled (Weave.cleared_start _ root) among concerned
  -- A hook that refuses a call is asked with what the resolver would be asked with.
  · intro step s arguments authorize state hook alive
    obtain ⟨extras, asked, given⟩ := step.site.extras_given job step.parent
      (step.position.path s.run.draft) s
    refine ⟨extras, asked, given, fun refuses => ?_⟩
    exact step.advance_refused state hook alive given refuses
  · intro step s refusal position refused alive placed
    refine ⟨fun no_hook => ?_, step.refused_given refused alive placed⟩
    unfold Job.instead
    rw [no_hook]
    rfl
  · intro step s t position value progress placed alive no_lazy no_refusal gives
    exact step.given_finishes placed alive no_lazy no_refusal gives
  · intro step s refusal refused top
    exact step.refused_root refused top
  -- A root object that is null is dead, and no move revives what is dead.
  · intro null later run' visits' there
    obtain ⟨weave', path', shares'⟩ := visits'.shares shares
    obtain ⟨-, rfl⟩ := shares'.same_run there
    have still := path'.stays_null (path.leads settled).2 null
    show some weave'.run.draft.toJson = _
    unfold Draft.toJson
    rw [if_pos still]

/-- An object type whose values may be shown once a lazy answer says so, with a field that may not be
resolved. -/
def vaultType : ObjectType Unit where
  name := "Vault"
  fields :=
    [("count",
      { name := "count", type := .named "Int", authorize? := some fun _ => pure false })]
  authorize? := some fun _ _ => pure (.later (.pause (.done (.ok true))))

/-- A schema with an object of that type. -/
def vaults : SchemaBuilder Unit :=
  ((SchemaBuilder.new "Query").register (.object
    { name := "Query"
      fields := [("vault", { name := "vault", type := .named "Vault"
                             resolve? := some fun _ => pure { result := .ok (.object ⟨7, .null⟩) } })]
    })).register (.object vaultType)

/-- The request `{ vault { count } }`. -/
def vaultRequest : Request :=
  { document :=
      { operations := .single
          { name? := none
            kind := .query
            definitions := []
            selections := [.field ⟨none, "vault", [], [],
              [.field ⟨none, "count", [], [], [], ⟨1, 11⟩, 10⟩], ⟨1, 3⟩, 2⟩]
            location := ⟨1, 1⟩ }
        fragments := [] } }

/-- A field of a vault is about to be resolved, and all vaults have a hook. -/
def opensVault (now : Schedule Unit) : Bool :=
  match now.runs with
  | [(job, run)] =>
    match run.ready with
    | [.field step] =>
      step.site.typeName == "Vault" && step.resolved?.isSome && job.schema.types.all fun entry =>
        match entry.2 with
        | .object type => type.name != "Vault" || type.authorize?.isSome
        | _ => true
    | _ => false
  | _ => false

theorem authorization_respected_vault : ∃ schema job first now run step,
    ∃ candidate : Candidate Unit,
    vaults.finish = .ok schema ∧
      schema.Begins {} [vaultRequest] ⟨(), fun _ state => state, []⟩ first ∧
      first.Visits now ∧ now.runs[0]? = some (job, run) ∧ run.ready = [.field step] ∧
      step.resolved? = some step.site.field ∧ candidate.subject = step.site.owner ∧
      candidate.type.name = "Vault" ∧ candidate.target.At run.draft step.parent ∧
      candidate.Answered job (first.SawBy now 0 job) (.ok true) := by
  have ran : vaults.comesTo {} [vaultRequest] ⟨(), fun _ state => state, []⟩ 23 opensVault =
      true := by cbv
  obtain ⟨schema, first, now, finish, begins, visits, holds⟩ := SchemaBuilder.visits_of_comesTo ran
  unfold opensVault at holds
  split at holds
  · rename_i job run only
    split at holds
    · rename_i step ready
      simp only [Bool.and_eq_true, beq_iff_eq] at holds
      obtain ⟨⟨vault, resolves⟩, all_guarded⟩ := holds
      have here : now.runs[0]? = some (job, run) := by rw [only]; rfl
      have left : Step.field step ∈ now.outstanding 0 := by
        unfold Schedule.outstanding
        rw [here]
        simp [ready]
      obtain ⟨-, cleared⟩ := (authorization_respected begins visits here).1 _ left
      obtain ⟨node, candidate, rfl, place, same, named, ⟨name, known⟩, shown⟩ := cleared _ rfl
      have resolved : step.resolved? = some step.site.field := by
        unfold FieldStep.resolved? at resolves ⊢
        split at resolves
        · rfl
        · cases resolves
      have hooked : candidate.type.authorize? ≠ none := by
        intro no_hook
        unfold Schema.objectType? at known
        split at known
        · rename_i type found
          injection known with known
          subst known
          have entry := List.all_eq_true.mp all_guarded _ (Fields.mem_of_get? found)
          simp [named, vault, no_hook] at entry
        · cases known
      exact ⟨schema, job, first, now, run, step, candidate, finish, begins, visits, here, ready,
        resolved, same, named.trans vault, place, shown.resolve_left hooked⟩
    · cases holds
  · cases holds

end Schema

end GraphExec
