import GraphExec.Proofs.Run.Chronicle
import GraphExec.Proofs.Run.Events
import GraphExec.Proofs.Run.Written

/-!
# What is begun and ended around objects

The type and the authorization of an object are asked for in one transition and taken up in another
one, with a wait in between if need be. At each spot they are begun and ended in turn. What has been
begun and not ended is what the step there waits for, or the node above has died.
-/

namespace GraphExec

variable {σ : Type} {job : Job σ} {s t : Stage σ} {progress : Progress σ}

/-! ### Spans -/

/-- Something that is begun and ended around an object. -/
inductive Span where
  /-- The concrete type of a value is found. -/
  | type (abstractType : String)
  /-- An object is authorized. -/
  | authorization (typeName : String)

namespace Span

/-- What is told of when a span begins. -/
def begins : Span → Event
  | type abstractType => .beginType abstractType
  | authorization typeName => .beginAuthorized typeName

/-- What may be told of when a span ends. -/
inductive Ends : Span → Event → Prop
  | type (abstractType : String) (resolved : Option String) :
      Ends (type abstractType) (.endType abstractType resolved)
  | authorization (typeName : String) (allowed : Option Bool) :
      Ends (authorization typeName) (.endAuthorized typeName allowed)

end Span

/-- Events begin and end spans in turn, from when one is open, or none, to when one is open, or
none. -/
inductive Balanced : Option Span → List Event → Option Span → Prop
  | nil (open? : Option Span) : Balanced open? [] open?
  | begins {span : Span} {events : List Event} {open? : Option Span}
      (rest : Balanced (some span) events open?) : Balanced none (span.begins :: events) open?
  | ends {span : Span} {event : Event} {events : List Event} {open? : Option Span}
      (ends : span.Ends event) (rest : Balanced none events open?) :
      Balanced (some span) (event :: events) open?

theorem Balanced.append {first? middle? last? : Option Span} {events more : List Event}
    (spans : Balanced first? events middle?) (rest : Balanced middle? more last?) :
    Balanced first? (events ++ more) last? := by
  induction spans with
  | nil => exact rest
  | begins _ ih => exact .begins (ih rest)
  | ends ends _ ih => exact .ends ends (ih rest)

/-- As many events begin as end spans, but for those that are open at first and at last. -/
theorem Balanced.even {first? last? : Option Span} {events : List Event}
    (spans : Balanced first? events last?) :
    (first?.toList.length + events.length + last?.toList.length) % 2 = 0 := by
  induction spans with
  | nil open? => cases open? <;> simp
  | begins _ ih | ends _ _ ih =>
      simp only [Option.toList_none, Option.toList_some, List.length_cons, List.length_nil] at ih ⊢
      omega

/-! ### Steps -/

/-- What an object has begun and not ended. -/
def ObjectState.span? : ObjectState σ → Option Span
  | awaitingType abstractType => some (.type abstractType.name)
  | typeResolved abstractType _ => some (.type abstractType.name)
  | awaitingAuthorization type => some (.authorization type.name)
  | authorized type _ => some (.authorization type.name)
  | _ => none

namespace Step

/-- What a step has begun and not ended. -/
def span? : Step σ → Option Span
  | .object step => step.state.span?
  | _ => none

/-- What the next transition of a step tells of around an object. -/
def spans (job : Job σ) (step : Step σ) (s : Stage σ) : List Event :=
  match step with
  | .object _ => step.events job s
  | _ => []

theorem spans_dead {step : Step σ} (dead : step.isAlive s.run.draft = false) :
    step.spans job s = [] := by
  unfold spans
  split
  · exact events_dead dead
  · rfl

end Step

/-- What the step that goes on has begun and not ended. -/
def Progress.span? (progress : Progress σ) : Option Span := progress.next?.bind Step.span?

open Engine

namespace ObjectStep

variable {step : ObjectStep σ}

/-- An object that gives way to a value has ended what it had begun. -/
theorem GivesWay.span? {value : ResolvedValue σ}
    (gives_way : step.GivesWay job value s progress t) : progress.span? = none := by
  cases gives_way <;> rfl

/-- What an object that is still wanted tells of leads from what it has begun to what it has begun
then. -/
theorem Way.spans (way : step.Way job s progress t) :
    Balanced step.state.span? (step.events job s) progress.span? := by
  unfold events
  cases way with
  | @types declared name _ state answered =>
      have asked : step.askedType job declared s = some (.ready name) := (gives_call.mp answered).1
      rw [state]
      simp only [asked]
      show Balanced none [Span.begins (.type declared.name)] _
      exact .begins (.nil _)
  | @asksType declared later _ state answered =>
      have asked : step.askedType job declared s = some (.later later) := (gives_call.mp answered).1
      rw [state]
      simp only [asked]
      show Balanced none [Span.begins (.type declared.name)] _
      exact .begins (.nil _)
  | takesType state =>
      rw [state]
      exact .ends (.type _ _) (.nil none)
  | permits state open_to_all =>
      rw [state]
      simp only [open_to_all]
      exact .nil none
  | @decides type _ _ _ state hook | @asksPermission type _ _ _ state hook =>
      rw [state]
      simp only [hook]
      show Balanced none [Span.begins (.authorization type.name)] _
      exact .begins (.nil _)
  | allows state =>
      rw [state]
      exact .ends (.authorization _ _) (.nil none)
  | fails fails gives_way =>
      rw [gives_way.span?]
      cases fails with
      | mistyped state =>
          rw [state]
          exact .ends (.type _ _) (.nil none)
      | refused state | unauthorized state =>
          rw [state]
          exact .ends (.authorization _ _) (.nil none)
      | replaced state =>
          rw [state]
          exact .nil none
  | allocates state | asks state | collects state =>
      rw [state]
      exact .nil none

end ObjectStep

namespace Step

/-- Only an object begins anything. -/
theorem closed_advance {step : Step σ} (gives : (step.advance job).Gives s progress t)
    (no_object : ∀ object, step ≠ .object object) : progress.span? = none := by
  rcases step.advance_cases gives with ⟨-, rfl, -⟩ | ⟨-, moves⟩
  · rfl
  · cases moves with
    | passes goes stays same =>
        unfold Progress.span?
        rw [goes]
        cases stays with
        | object | root => exact absurd rfl (no_object _)
        | field => rfl
        | item => rfl
    | allocates state target enters => exact absurd rfl (no_object _)
    | completes due same finishes => rfl
    | skips skips same enters => rfl
    | collects state grouped same launched leaves => exact absurd rfl (no_object _)
    | fails target spot fails enters => exact absurd rfl (no_object _)

/-- What a step that is still wanted tells of leads from what it has begun to what it has begun
then. -/
theorem advance_spans {step : Step σ} (alive : step.isAlive s.run.draft = true)
    (gives : (step.advance job).Gives s progress t) :
    Balanced step.span? (step.spans job s) progress.span? := by
  have closed := step.closed_advance gives
  cases Step.way gives with
  | dropped dead => cases alive.symm.trans dead
  | @object step _ _ _ wanted way =>
      show Balanced step.state.span? ((Step.object step).events job s) _
      unfold events
      rw [if_pos alive]
      exact way.spans
  | field | item =>
      rw [closed (by intro object same; cases same)]
      exact .nil none

/-- A step that is new has begun nothing. -/
theorem Begets.span? {step new : Step σ} (begets : step.Begets job new) : new.span? = none := by
  cases begets with
  | @completes _ _ s u position value outcome draft due completes mem =>
      cases outcome with
      | leaf value checked => cases mem
      | omitted => cases mem
      | refusals itemType size => cases mem
      | items itemType cursor values =>
          obtain ⟨n, bound, rfl⟩ := (Position.mem_itemSteps values 0).mp mem
          rfl
      | object object =>
          obtain rfl := List.mem_singleton.mp mem
          cases completes with
          | @object value name type v subject _ _ _ _ _ _ _ => cases type <;> rfl
  | collects state gathers launches mem =>
      obtain ⟨task, there, found⟩ := List.mem_filterMap.mp mem
      obtain ⟨entry, among, same⟩ := (ObjectStep.launched_iff launches).2 task there
      rcases ObjectStep.launched?_eq same with ⟨-, rfl⟩ | ⟨-, field, -, rfl⟩
      · cases found
      · injection found with found
        exact found ▸ rfl

/-- A step goes on where it is, unless it has allocated an object; then it has begun nothing. -/
theorem advance_spot {step next : Step σ} (gives : (step.advance job).Gives s progress t)
    (goes : progress.next? = some next) : next.spot = step.spot ∨ next.span? = none := by
  rcases step.advance_cases gives with ⟨-, rfl, -⟩ | ⟨-, moves⟩
  · cases goes
  · cases moves with
    | passes goes' stays same =>
        obtain rfl := Option.some.inj (goes'.symm.trans goes)
        exact .inl stays.spot
    | allocates state target enters =>
        injection goes with goes
        exact .inr (goes ▸ rfl)
    | completes due same finishes => cases goes
    | skips skips same enters => cases goes
    | collects state grouped same launched leaves => cases goes
    | fails target spot fails enters => cases goes

/-- A step that is resumed has begun what it had begun. -/
theorem span?_resume {step next : Step σ} {resumption : Resumption σ}
    (resumes : step.resume resumption = .ok next) : next.span? = step.span? := by
  cases Step.resumed resumes with
  | field => rfl
  | item => rfl
  | @object step _ _ resumed =>
      show _ = step.state.span?
      cases resumed with
      | type state | authorization state | value state | arguments state =>
          rw [state]
          rfl

end Step

/-! ### Runs -/

/-- What is still to be done has begun and not ended this. -/
def Task.span? : Task σ → Option Span
  | awake step => step.span?
  | asleep step _ => step.span?
  | called step _ => step.span?
  | written _ _ _ _ => none

/-- What the transitions of the steps at a spot have told of around objects, in order. -/
def spansAt (job : Job σ) (deeds : List (Step σ × Stage σ)) (spot : Spot) : List Event :=
  deeds.flatMap fun deed => if deed.1.spot = spot then deed.1.spans job deed.2 else []

section SpansAt

variable {deeds : List (Step σ × Stage σ)} {step : Step σ} {spot : Spot}

theorem spansAt_concat : spansAt job (deeds ++ [(step, s)]) spot =
    spansAt job deeds spot ++ if step.spot = spot then step.spans job s else [] := by
  simp [spansAt]

theorem spansAt_elsewhere (elsewhere : step.spot ≠ spot) :
    spansAt job (deeds ++ [(step, s)]) spot = spansAt job deeds spot := by
  rw [spansAt_concat, if_neg elsewhere, List.append_nil]

theorem spansAt_here : spansAt job (deeds ++ [(step, s)]) step.spot =
    spansAt job deeds step.spot ++ step.spans job s := by
  rw [spansAt_concat, if_pos rfl]

end SpansAt

/-- The spot of a step that is still wanted is alive. -/
theorem Orderly.alive {step : Step σ} {draft : Draft} {rest : List (Task σ)}
    (orderly : Orderly draft (.awake step :: rest)) (alive : step.isAlive draft = true) :
    draft.Alive (Task.awake step).spot.id := by
  cases step with
  | field step =>
      show draft.Alive step.parent
      simpa [Step.isAlive, Draft.Alive] using alive
  | item step =>
      show draft.Alive step.position.parent
      simpa [Step.isAlive, Draft.Alive] using alive
  | object step =>
      have wanted : step.target.isAlive draft = true := alive
      cases here : step.state.node? with
      | some node =>
          have there : (Task.awake (.object step)).spot = .node node := by
            simp [Task.spot, Step.spot, ObjectStep.spot, here]
          rw [there]
          exact orderly.node_alive (orderly.seated _ List.mem_cons_self) here wanted
      | none =>
          have early : (Task.awake (.object step)).spot = _ := step.early_of_state here
          cases target : step.target with
          | root =>
              rw [target] at early
              rw [early]
              exact orderly.anchored.root_alive orderly.tidy List.mem_cons_self early
          | child position =>
              rw [target] at early wanted
              rw [early]
              show draft.isDead position.parent = false
              simpa [ObjectTarget.isAlive] using wanted

/-- No two tasks are at one spot that is alive. -/
theorem Orderly.unique {draft : Draft} {tasks : List (Task σ)} (orderly : Orderly draft tasks)
    {one other : Task σ} (mem : one ∈ tasks) (mem' : other ∈ tasks)
    (alive : draft.Alive one.spot.id) (same : other.spot = one.spot) : other = one := by
  obtain ⟨front, back, rfl⟩ := List.append_of_mem mem
  have tidy : Plan.Tidy Task.spot ⟨draft, one :: (front ++ back)⟩ :=
    orderly.tidy.sort List.perm_middle
  rcases List.mem_cons.mp (List.perm_middle.mem_iff.mp mem') with rfl | among
  · rfl
  · exact absurd same (tidy.differs alive among)

section Agreement

variable {draft : Draft} {tasks fresh kept : List (Task σ)} {spot : Spot} {open? : Option Span}

/-- A task that has begun nothing agrees with what is open at its spot: if something were, another
task would be there. -/
theorem Orderly.closed_agrees (orderly : Orderly draft tasks) (alive : draft.Alive spot.id)
    (some_one : open? ≠ none → ∃ task ∈ tasks, task.spot = spot ∧ task.span? = open?)
    {task : Task σ} (among : task ∈ tasks) (there : task.spot = spot) (closed : task.span? = none) :
    task.span? = open? := by
  by_contra differs
  obtain ⟨other, member, at_spot, same⟩ := some_one fun none_open =>
    differs (closed.trans none_open.symm)
  have alone := orderly.unique member among (at_spot ▸ alive) (there.trans at_spot.symm)
  exact differs (alone ▸ same)

/-- The fresh tasks at a spot, if there are any, have begun what is open there, or nothing. -/
theorem Orderly.agrees_of_fresh (orderly : Orderly draft tasks) (left : tasks.Perm (fresh ++ kept))
    (alive : draft.Alive spot.id)
    (own : ∀ task ∈ fresh, task.span? = none ∨ (task.spot = spot ∧ task.span? = open?))
    (goes_on : open? ≠ none → ∃ task ∈ fresh, task.spot = spot ∧ task.span? = open?)
    (away : ∀ task ∈ kept, task.spot ≠ spot) :
    (∀ task ∈ tasks, task.spot = spot → task.span? = open?) ∧
      (open? ≠ none → ∃ task ∈ tasks, task.spot = spot) := by
  have some_one (some_open : open? ≠ none) : ∃ task ∈ tasks, task.spot = spot ∧ task.span? = open? := by
    obtain ⟨task, member, there⟩ := goes_on some_open
    exact ⟨task, left.mem_iff.mpr (List.mem_append_left _ member), there⟩
  refine ⟨fun task among there => ?_, fun some_open => ?_⟩
  · rcases List.mem_append.mp (left.mem_iff.mp among) with new | old
    · rcases own task new with closed | ⟨-, same⟩
      · exact orderly.closed_agrees alive some_one among there closed
      · exact same
    · exact absurd there (away task old)
  · obtain ⟨task, member, there, -⟩ := some_one some_open
    exact ⟨task, member, there⟩

/-- Where the fresh tasks have begun nothing, what is open stays open. -/
theorem Orderly.agrees_of_kept (orderly : Orderly draft tasks) (left : tasks.Perm (fresh ++ kept))
    (alive : draft.Alive spot.id) (away : ∀ task ∈ fresh, task.span? = none ∨ task.spot ≠ spot)
    (each : ∀ task ∈ kept, task.spot = spot → task.span? = open?)
    (some_one : open? ≠ none → ∃ task ∈ kept, task.spot = spot) :
    (∀ task ∈ tasks, task.spot = spot → task.span? = open?) ∧
      (open? ≠ none → ∃ task ∈ tasks, task.spot = spot) := by
  have still (some_open : open? ≠ none) : ∃ task ∈ tasks, task.spot = spot ∧ task.span? = open? := by
    obtain ⟨task, member, there⟩ := some_one some_open
    exact ⟨task, left.mem_iff.mpr (List.mem_append_right _ member), there, each task member there⟩
  refine ⟨fun task among there => ?_, fun some_open => ?_⟩
  · rcases List.mem_append.mp (left.mem_iff.mp among) with new | old
    · rcases away task new with closed | elsewhere
      · exact orderly.closed_agrees alive still among there closed
      · exact absurd there elsewhere
    · exact each task old there
  · obtain ⟨task, member, there, -⟩ := still some_open
    exact ⟨task, member, there⟩

end Agreement

namespace Progress

/-- What is left to be done by a transition has begun nothing, or is the step that goes on there. -/
theorem tasks_span {step : Step σ} {steps : List (Step σ)}
    (gives : (step.advance job).Gives s progress t)
    (begets : ∀ new ∈ steps, step.Begets job new) :
    ∀ task ∈ progress.tasks steps,
      task.span? = none ∨ (task.spot = step.spot ∧ task.span? = progress.span?) := by
  intro task mem
  rcases List.mem_append.mp mem with own | new
  · cases progress with
    | finished => cases own
    | again next =>
        obtain rfl : task = Task.awake next := by simpa [task?] using own
        rcases Step.advance_spot gives rfl with same | closed
        · exact .inr ⟨same, rfl⟩
        · exact .inl closed
    | parked next depth wait =>
        obtain rfl : task = Task.asleep next wait := by simpa [task?] using own
        rcases Step.advance_spot gives rfl with same | closed
        · exact .inr ⟨same, rfl⟩
        · exact .inl closed
  · obtain ⟨step', member, rfl⟩ := List.mem_map.mp new
    exact .inl (begets step' member).span?

/-- If something has been begun, the step goes on where it is. -/
theorem task_of_span {step : Step σ} (steps : List (Step σ))
    (gives : (step.advance job).Gives s progress t) (some_open : progress.span? ≠ none) :
    ∃ task ∈ progress.tasks steps, task.spot = step.spot ∧ task.span? = progress.span? := by
  have stays {next : Step σ} (goes : progress.next? = some next)
      (same : next.span? = progress.span?) : next.spot = step.spot := by
    rcases Step.advance_spot gives goes with there | closed
    · exact there
    · exact absurd (same.symm.trans closed) some_open
  cases progress with
  | finished => exact absurd rfl some_open
  | again next => exact ⟨.awake next, List.mem_cons_self, stays rfl rfl, rfl⟩
  | parked next depth wait => exact ⟨.asleep next wait, List.mem_cons_self, stays rfl rfl, rfl⟩

end Progress

namespace Weave

/-- What has been told of around the objects of a run has begun and ended spans in turn at every
spot. At a spot that is still wanted, the task there says which one has been begun and not ended. -/
structure Spanned (job : Job σ) (deeds : List (Step σ × Stage σ)) (weave : Weave σ) : Prop where
  spans : ∀ spot, ∃ open?, Balanced none (spansAt job deeds spot) open? ∧
    (weave.run.draft.Alive spot.id →
      (∀ task ∈ weave.tasks, task.spot = spot → task.span? = open?) ∧
      (open? ≠ none → ∃ task ∈ weave.tasks, task.spot = spot))
  known : ∀ spot, spansAt job deeds spot ≠ [] → spot.id < weave.run.draft.nodes.size

variable {first second last : Weave σ} {deeds : List (Step σ × Stage σ)} {seen : Sight σ → Prop}

/-- Nothing has been begun in a run that has not been begun. -/
theorem spanned_start (type : ObjectType σ) (world : World σ) :
    (start job type world).Spanned job [] := by
  obtain ⟨subject, -, plan_eq⟩ := plan_start job type world
  refine ⟨fun spot => ⟨none, .nil none, fun _ => ⟨fun task mem _ => ?_, fun some_open =>
    absurd rfl some_open⟩⟩, fun spot some_told => absurd rfl some_told⟩
  have among : task ∈ (start job type world).plan.tasks := mem
  rw [plan_eq] at among
  obtain rfl := List.mem_singleton.mp among
  rfl

/-- A task gives way to another one at its spot that has begun the same. -/
theorem Spanned.of_swaps {task other : Task σ} (spanned : first.Spanned job deeds)
    (swaps : Swaps first last task other) (draft : last.run.draft = first.run.draft)
    (spot : other.spot = task.spot) (span : other.span? = task.span?) :
    last.Spanned job deeds := by
  refine ⟨fun at_spot => ?_, fun at_spot some_told => draft ▸ spanned.known at_spot some_told⟩
  obtain ⟨open?, spans, agrees⟩ := spanned.spans at_spot
  refine ⟨open?, spans, fun alive => ?_⟩
  obtain ⟨each, some_one⟩ := agrees (draft ▸ alive)
  constructor
  · intro t mem here
    rcases swaps.left mem with rfl | mem
    · exact span.trans (each task swaps.mem.1 (spot.symm.trans here))
    · exact each t mem here
  · intro some_open
    obtain ⟨t, mem, here⟩ := some_one some_open
    by_cases same : t = task
    · exact ⟨other, swaps.mem.2, spot.trans (same ▸ here)⟩
    · exact ⟨t, swaps.kept mem same, here⟩

/-- Whatever happens in a run besides the transitions of its steps begins and ends nothing. -/
theorem Spanned.aside {sight : Sight σ} (spanned : first.Spanned job deeds)
    (move : Move job first sight last) (other : ∀ step s, sight ≠ .advanced step s) :
    last.Spanned job deeds := by
  cases move with
  | advance picked advanced => exact absurd rfl (other _ _)
  | @release step held idle top none_parked =>
      refine ⟨fun spot => ?_, spanned.known⟩
      rw [tasks_release idle top]
      exact spanned.spans spot
  | @wait step wait rest others s picked polled =>
      have same := Wait.sameTree_of_poll polled
      exact spanned.of_swaps (swaps_wait picked same) same.draft rfl rfl
  | @answer step wait resumption others s picked polled =>
      have same := Wait.sameTree_of_poll polled
      exact spanned.of_swaps (swaps_answer picked same) same.draft rfl rfl
  | @resume step next resumption others picked resumes =>
      have stays : step.Stays job next := Step.resume_stays resumes
      exact spanned.of_swaps (swaps_resume picked) rfl stays.spot (Step.span?_resume resumes)
  | change world => exact ⟨spanned.spans, spanned.known⟩

/-- A transition begins and ends spans in turn at its spot, and what is left to be done then has
begun what has not been ended. -/
theorem Spanned.advance {step : Step σ} {ready : List (Step σ)} {progress : Progress σ}
    {s : Stage σ} (spanned : second.Spanned job deeds) (settled : second.Settled)
    (picked : second.run.ready.Perm (step :: ready))
    (gives : (step.advance job).Gives ⟨{ second.run with ready }, second.world⟩ progress s) :
    (place { second with run := s.run, world := s.world } progress).Spanned job
      (deeds ++ [(step, ⟨{ second.run with ready }, second.world⟩)]) := by
  let stage : Stage σ := ⟨{ second.run with ready }, second.world⟩
  let after := place { second with run := s.run, world := s.world } progress
  have before := tasks_picked picked
  have orderly := settled.perm before
  have mem : Task.awake step ∈ second.tasks := before.mem_iff.mpr List.mem_cons_self
  have leads : Leads job (fun _ => True) second after := leads_advance settled picked trivial gives
  obtain ⟨reaches, settled'⟩ := leads
  obtain ⟨steps, added, begets⟩ := Step.advance_begets gives
  have left := tasks_place added progress
  have fresh := Progress.tasks_span gives begets
  -- A spot that is alive afterwards was alive before, or is new.
  have lived {spot : Spot} (known : spot.id < second.run.draft.nodes.size)
      (alive : after.run.draft.Alive spot.id) : second.run.draft.Alive spot.id := by
    by_contra dead
    have was_dead : second.run.draft.isDead spot.id = true := by simpa [Draft.Alive] using dead
    exact absurd (alive.symm.trans (reaches.stays_dead known was_dead)) (by decide)
  have here : step.spot.id < second.run.draft.nodes.size := orderly.tidy.known _ List.mem_cons_self
  refine ⟨fun spot => ?_, fun spot some_told => ?_⟩
  · by_cases at_step : step.spot = spot
    · subst at_step
      obtain ⟨open?, spans, agrees⟩ := spanned.spans step.spot
      rw [spansAt_here]
      cases alive : step.isAlive stage.run.draft with
      | false =>
          rw [Step.spans_dead alive, List.append_nil]
          exact ⟨open?, spans, fun lives => absurd (lived here lives) (orderly.dead alive)⟩
      | true =>
          obtain rfl : step.span? = open? := (agrees (orderly.alive alive)).1 _ mem rfl
          exact ⟨progress.span?, spans.append (Step.advance_spans alive gives), fun lives =>
            settled'.agrees_of_fresh left lives fresh (Progress.task_of_span steps gives)
              fun _ => orderly.tidy.differs (lived here lives)⟩
    · obtain ⟨open?, spans, agrees⟩ := spanned.spans spot
      rw [spansAt_elsewhere at_step]
      have away : ∀ task ∈ progress.tasks steps, task.span? = none ∨ task.spot ≠ spot :=
        fun task new => (fresh task new).imp_right fun same there => at_step (same.1.symm.trans there)
      refine ⟨open?, spans, fun lives => ?_⟩
      by_cases known : spot.id < second.run.draft.nodes.size
      · obtain ⟨each, some_one⟩ := agrees (lived known lives)
        refine settled'.agrees_of_kept left lives away
          (fun task old => each task (before.mem_iff.mpr (List.mem_cons_of_mem _ old)))
          fun some_open => ?_
        obtain ⟨task, among, there⟩ := some_one some_open
        rcases List.mem_cons.mp (before.mem_iff.mp among) with rfl | kept
        · exact absurd there at_step
        · exact ⟨task, kept, there⟩
      · -- Nothing has been told of at a spot that is new, and nothing was to be done there.
        have nothing : spansAt job deeds spot = [] := by
          by_contra some_told
          exact known (spanned.known spot some_told)
        rw [nothing] at spans
        cases spans
        refine settled'.agrees_of_kept left lives away (fun task old there => ?_) (absurd rfl)
        have was_known := orderly.tidy.known task (List.mem_cons_of_mem _ old)
        exact absurd (there ▸ was_known) known
  · refine Nat.lt_of_lt_of_le ?_ reaches.grows.size
    by_cases at_step : step.spot = spot
    · exact at_step ▸ here
    · rw [spansAt_elsewhere at_step] at some_told
      exact spanned.known spot some_told

end Weave

end GraphExec
