import Mathlib
import GraphExec.Proofs.Directives
import GraphExec.Proofs.Mutations
import GraphExec.Proofs.Run.Deeds
import GraphExec.Proofs.Run.Spans
import GraphExec.Schema.Builder

/-!
# What an observer is told of

In whatever order the steps of a run go on: a call of a resolver is told of before and after with
nothing in between, and around an object its type and its authorization are begun and ended in turn.
When a run has ended, what has been begun has been ended, unless the object above has died in the
meantime. Then the step is dropped as it is, and tells nobody.
-/

namespace GraphExec

open Engine

variable {σ : Type} {job : Job σ}

/-! ### Calls of resolvers -/

/-- Whatever is told of a resolver is told of twice in a row, before and after it is called. -/
inductive Event.Paired : List Event → Prop
  | nil : Paired []
  | call (typeName fieldName : String) (path : Path) {rest : List Event} (paired : Paired rest) :
      Paired (.beginField typeName fieldName path :: .endField typeName fieldName path :: rest)
  | other {event : Event} {rest : List Event}
      (other : ∀ typeName fieldName path, event ≠ .beginField typeName fieldName path ∧
        event ≠ .endField typeName fieldName path)
      (paired : Paired rest) : Paired (event :: rest)

theorem Event.Paired.append {events more : List Event} (paired : Paired events)
    (rest : Paired more) : Paired (events ++ more) := by
  induction paired with
  | nil => exact rest
  | call typeName fieldName path _ ih => exact .call typeName fieldName path ih
  | other apart _ ih => exact .other apart ih

/-- What the transitions of the steps of a run have told of, in order. -/
def eventsOf (job : Job σ) (deeds : List (Step σ × Stage σ)) : List Event :=
  deeds.flatMap fun deed => deed.1.events job deed.2

/-- A transition tells of a call before and after, or of no call. -/
theorem Step.paired_events (job : Job σ) (step : Step σ) (s : Stage σ) :
    Event.Paired (step.events job s) := by
  unfold events
  split
  · cases step with
    | item step => exact .nil
    | field step =>
        show Event.Paired (step.events job s)
        unfold FieldStep.events
        split
        · split
          · exact .call _ _ _ .nil
          · exact .nil
        · exact .nil
    | object step =>
        show Event.Paired (step.events job s)
        have alone {event : Event} (other : ∀ typeName fieldName path,
            event ≠ .beginField typeName fieldName path ∧
              event ≠ .endField typeName fieldName path) : Event.Paired [event] := .other other .nil
        unfold ObjectStep.events
        split
        · refine .other (fun _ _ _ => ⟨nofun, nofun⟩) ?_
          split
          · exact alone fun _ _ _ => ⟨nofun, nofun⟩
          · exact .nil
        · exact alone fun _ _ _ => ⟨nofun, nofun⟩
        · split
          · exact alone fun _ _ _ => ⟨nofun, nofun⟩
          · exact .nil
        · exact alone fun _ _ _ => ⟨nofun, nofun⟩
        · exact .nil
  · exact .nil

theorem paired_eventsOf (job : Job σ) (deeds : List (Step σ × Stage σ)) :
    Event.Paired (eventsOf job deeds) := by
  induction deeds with
  | nil => exact .nil
  | cons deed rest ih => exact (deed.1.paired_events job deed.2).append ih

/-! ### What a schedule does -/

namespace Schedule

variable {schedule first now last : Schedule σ} {owner : Nat} {weave : Weave σ}
  {deeds : List (Step σ × Stage σ)}

theorem Did.spanned (did : first.Did owner now deeds) (shares : first.Shares owner job weave)
    (settled : weave.Settled) (spanned : weave.Spanned job []) :
    ∃ after, now.Shares owner job after ∧ after.Spanned job deeds := by
  have advances (deeds : List (Step σ × Stage σ)) (before after : Weave σ) (step : Step σ)
      (s : Stage σ) (spanned : before.Spanned job deeds) (settled : before.Settled)
      (move : Weave.Move job before (.advanced step s) after) :
      after.Spanned job (deeds ++ [(step, s)]) := by
    cases move with
    | advance picked advanced => exact spanned.advance settled picked advanced
  obtain ⟨after, shares', -, spanned'⟩ := did.carries shares settled spanned advances
    fun _ _ _ _ spanned move other => spanned.aside move other
  exact ⟨after, shares', spanned'⟩

end Schedule

/-- Whatever has been begun has been begun by a step that is left. -/
theorem Weave.step_of_span {weave : Weave σ} {task : Task σ} {span : Span} (mem : task ∈ weave.tasks)
    (begun : task.span? = some span) :
    ∃ step ∈ weave.active ++ weave.run.held, step.spot = task.spot ∧ step.span? = some span := by
  rcases List.mem_append.mp mem with awake | waiting
  · obtain ⟨step, among, rfl⟩ := List.mem_map.mp awake
    refine ⟨step, ?_, rfl, begun⟩
    rcases List.mem_append.mp among with ready | held
    · exact List.mem_append_left _ (List.mem_append_left _ ready)
    · exact List.mem_append_right _ held
  · have parked {step : Step σ} (there : step ∈ weave.parkedSteps) :
        step ∈ weave.active ++ weave.run.held :=
      List.mem_append_left _ (List.mem_append_right _ there)
    rcases List.mem_append.mp waiting with asleep | called
    · obtain ⟨entry, among, rfl⟩ := List.mem_map.mp asleep
      exact ⟨entry.1, parked (List.mem_append_left _ (List.mem_map_of_mem among)), rfl, begun⟩
    · obtain ⟨entry, among, rfl⟩ := List.mem_map.mp called
      exact ⟨entry.1, parked (List.mem_append_right _ (List.mem_map_of_mem among)), rfl, begun⟩

/-! ### Executions -/

namespace Schema

variable {schema : Schema σ} {config : Config} {requests : List Request} {first : Schedule σ}

/-- In every run, whatever waits and for however long: each transition tells of its events in order
and of nothing else; a call of a resolver is told of before and after, and nothing in between;
around the objects of a spot, types and authorizations are begun and ended in turn, and what has not
been ended while the spot is alive is what a step there has begun; a step whose parent is dead is
dropped and tells of nothing; and when the run has ended, what has not been ended was begun below a
node that died. -/
theorem spans_in_turn {owner : Nat} {job : Job σ} {run : Run σ} {world : World σ}
    {now : Schedule σ} {deeds : List (Step σ × Stage σ)}
    (begins : schema.Begins config requests world first) (did : first.Did owner now deeds)
    (here : now.runs[owner]? = some (job, run)) :
    (∀ (step : Step σ) (s : Stage σ), (step.advance job).Tells s (step.events job s)) ∧
      Event.Paired (eventsOf job deeds) ∧
      (∀ spot, ∃ open?, Balanced none (spansAt job deeds spot) open? ∧
        ∀ span, open? = some span → run.draft.Alive spot.id →
          ∃ step ∈ now.outstanding owner, step.spot = spot ∧ step.span? = some span) ∧
      (∀ (step : Step σ) (s : Stage σ), step.isAlive s.run.draft = false →
        (step.advance job).Gives s .finished s ∧ step.events job s = []) ∧
      ∀ last, now.step = .finished last → ∀ spot,
        Balanced none (spansAt job deeds spot) none ∨
          ∃ span, Balanced none (spansAt job deeds spot) (some span) ∧
            run.draft.isDead spot.id = true := by
  obtain ⟨place, -⟩ := begins.job did.visits here
  obtain ⟨type, -, shares⟩ := begins.shares_start place
  obtain ⟨weave, shares, spanned⟩ := did.spanned shares
    (Weave.settled_start job type (schema.prepared requests world).2) (Weave.spanned_start type _)
  obtain ⟨-, rfl⟩ := shares.same_run here
  refine ⟨Step.tells_events job, paired_eventsOf job deeds, fun spot => ?_,
    fun step s dead => ⟨Step.advance_dead dead, Step.events_dead dead⟩, fun last turn spot => ?_⟩
  -- While the spot lives, the span that is open there is that of a task at it.
  · obtain ⟨open?, spans, agrees⟩ := spanned.spans spot
    refine ⟨open?, spans, ?_⟩
    rintro span rfl alive
    obtain ⟨each, some_one⟩ := agrees alive
    obtain ⟨task, mem, there⟩ := some_one (Option.some_ne_none span)
    obtain ⟨step, among, same, begun⟩ := Weave.step_of_span mem (each task mem there)
    exact ⟨step, shares.outstanding.mem_iff.mp among, same.trans there, begun⟩
  -- At the end no task is left, so a span can be open only where the spot has died.
  · obtain ⟨open?, spans, agrees⟩ := spanned.spans spot
    cases open? with
    | none => exact .inl spans
    | some span =>
        refine .inr ⟨span, spans, ?_⟩
        by_contra alive
        obtain ⟨-, some_one⟩ := agrees (by simpa [Draft.Alive] using alive)
        obtain ⟨task, mem, -⟩ := some_one (Option.some_ne_none span)
        obtain ⟨finished, -⟩ := shares.finished turn
        rw [finished.tasks_eq] at mem
        cases mem

/-- A schema with an object that is authorized after a while, next to a field that fails before. -/
def orchard : SchemaBuilder Unit :=
  (((SchemaBuilder.new "Query").register (.object
    { name := "Query"
      fields := [("tree",
        { name := "tree", type := .named "Tree"
          resolve? := some fun _ => pure { result := .ok (.object ⟨1, .null⟩) } })]
    })).register (.object
    { name := "Tree"
      fields :=
        [("age",
          { name := "age", type := .nonNull (.named "Int")
            resolve? := some fun _ => pure
              { result := .ok (.lazy (.pause (.done (.error (.execution ⟨"lost", [], none, none⟩))))) }
          }),
          ("apple",
          { name := "apple", type := .named "Apple"
            resolve? := some fun _ => pure { result := .ok (.object ⟨2, .null⟩) } })]
    })).register (.object
    { name := "Apple"
      fields := [("weight", { name := "weight", type := .named "Int" })]
      authorize? := some fun _ _ => pure (.later (.pause (.done (.ok true)))) })

/-- The request `{ tree { age apple { weight } } }`. -/
def orchardRequest : Request :=
  { document :=
      { operations := .single
          { name? := none
            kind := .query
            definitions := []
            selections := [.field ⟨none, "tree", [], [],
              [.field ⟨none, "age", [], [], [], ⟨1, 10⟩, 9⟩,
                .field ⟨none, "apple", [], [],
                  [.field ⟨none, "weight", [], [], [], ⟨1, 22⟩, 21⟩], ⟨1, 14⟩, 13⟩], ⟨1, 3⟩, 2⟩]
            location := ⟨1, 1⟩ }
        fragments := [] } }

/-- The spot of the apple. -/
def appleSpot : Spot := .slot 1 (.field "apple")

/-- A schedule has finished in some number of transitions, and all that has been told of the apple
is that its authorization has begun. -/
def leavesAppleOpen (transitions : Nat) (first : Schedule Unit) : Bool :=
  match first.doing? 0 transitions with
  | some (now, feats) =>
    match now.runs[0]?, now.step with
    | some (job, _), .finished _ =>
      match spansAt job (feats.filterMap Feat.deed?) appleSpot with
      | [.beginAuthorized "Apple"] => true
      | _ => false
    | _, _ => false
  | none => false

theorem spans_in_turn_orchard : ∃ schema first now deeds job run last,
    orchard.finish = .ok schema ∧
      schema.Begins {} [orchardRequest] ⟨(), fun _ state => state, []⟩ first ∧
      first.Did 0 now deeds ∧ now.runs[0]? = some (job, run) ∧ now.step = .finished last ∧
      Balanced none (spansAt job deeds appleSpot) (some (.authorization "Apple")) ∧
      ¬ Balanced none (spansAt job deeds appleSpot) none ∧
      run.draft.isDead appleSpot.id = true := by
  have ran : orchard.comesTo {} [orchardRequest] ⟨(), fun _ state => state, []⟩ 0
      (leavesAppleOpen 35) = true := by cbv
  obtain ⟨schema, first, finish, begins, holds⟩ := SchemaBuilder.begins_of_comesTo ran
  unfold leavesAppleOpen at holds
  split at holds
  · rename_i now feats doing
    split at holds
    · rename_i job run last here turn
      split at holds
      · rename_i told
        let deeds := feats.filterMap Feat.deed?
        have did : first.Did 0 now deeds := (Schedule.does_of_doing? doing).did
        obtain ⟨-, -, -, -, ends⟩ := spans_in_turn begins did here
        have stays_open : ¬ Balanced none (spansAt job deeds appleSpot) none := by
          rw [told]
          exact fun closed => absurd closed.even (by decide)
        refine ⟨schema, first, now, deeds, job, run, last, finish, begins, did, here, turn, ?_,
          stays_open, ?_⟩
        · rw [told]
          have begun : Balanced none [Span.begins (.authorization "Apple")] _ := .begins (.nil _)
          exact begun
        · rcases ends last turn appleSpot with closed | ⟨span, -, dead⟩
          · exact absurd closed stays_open
          · exact dead
      · cases holds
    · cases holds
  · cases holds

end Schema

end GraphExec
