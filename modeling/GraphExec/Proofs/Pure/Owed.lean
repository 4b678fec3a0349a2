import GraphExec.Proofs.Pure.Sound
import GraphExec.Proofs.Run.Ways

/-!
# What steps owe

A step that is still on its way owes what the recursion makes of what it has come to so far. A
transition of a pure step, a poll and a resumption leave what is owed.
-/

namespace GraphExec

variable {σ : Type}

open Engine

/-! ### States -/

/-- The result that a field comes to from a state on, unless it is left out. -/
def FieldState.result? (setting : Setting σ) (place : Place σ) (above? : Option AppValue) :
    FieldState σ → Option (FieldResult σ)
  | runDirectives cursor =>
    (cursor.passage setting place.object place.path).result?
      (setting.argued place above? (setting.arguments place))
  | loadArguments => some (setting.argued place above? (setting.arguments place))
  | awaitingArguments => some (setting.argued place above? (setting.arguments place))
  | argumentsLoaded result => some (setting.argued place above? result)
  | callResolver arguments => some (setting.resolved place above? arguments)
  | resolved result => some result
  | awaitingValue => none

/-- The result that an item comes to from a state on, unless it is left out. -/
def ItemState.result? (setting : Setting σ) (place : Place σ) :
    ItemState σ → Option (FieldResult σ)
  | runDirectives cursor item =>
    (cursor.passage setting place.object place.path).result? (.ok item)
  | resolved result => some result
  | settled value => some (.ok value)
  | awaitingValue => none

namespace Setting

variable (setting : Setting σ)

/-- The object type of a name that a value is told to have, or its failure to have one. -/
def typed? (declared : TypeDefinition σ) :
    Except ResolverError String → Option (Except ResolverError (ObjectType σ))
  | .error error => some (.error error)
  | .ok name => (ObjectStep.possibleType? setting.job declared name).map .ok

/-- The type of an object, unless the value may not be shown. -/
def shownAs (value : AppValue) (type : ObjectType σ) : Except (FieldResult σ) (ObjectType σ) :=
  match setting.refused? type value with
  | some result => .error result
  | none => .ok type

/-- The type of an object, unless it has none or may not be shown. -/
def verified (value : AppValue) :
    Except ResolverError (ObjectType σ) → Except (FieldResult σ) (ObjectType σ)
  | .error error => .error (.error error)
  | .ok type => setting.shownAs value type

/-- What the hooks for concrete types tell of a value. -/
def told? (declared : TypeDefinition σ) (value : AppValue) :
    Option (Except ResolverError String) :=
  ((setting.job.schema.resolveType declared value setting.job.query).answer setting.state).map
    (·.result setting.loads setting.state)

end Setting

/-- The type of the object that is built from a state on, or the result that stands instead of
it. -/
def ObjectState.built? (setting : Setting σ) (value : AppValue) :
    ObjectState σ → Option (Except (FieldResult σ) (ObjectType σ))
  | resolveType declared =>
    ((setting.told? declared value).bind (setting.typed? declared)).map (setting.verified value)
  | typeResolved declared result => (setting.typed? declared result).map (setting.verified value)
  | authorize type => some (setting.shownAs value type)
  | authorized type (.ok true) => some (.ok type)
  | authorized type (.ok false) => some (.error (.ok (.unauthorized (.object type.name))))
  | authorized _ (.error error) => some (.error (.error error))
  | replaced result => some (.error result)
  | allocate type => some (.ok type)
  | _ => none

/-- The building of an object begins as its declared type demands. -/
theorem ObjectState.built?_ofType (setting : Setting σ) (value : AppValue)
    (declared : TypeDefinition σ) :
    (ofType declared).built? setting value = setting.built? declared value := by
  have abstract : setting.concrete? declared value =
      (setting.told? declared value).bind (setting.typed? declared) →
      (resolveType declared).built? setting value = setting.built? declared value := by
    intro same
    show ((setting.told? declared value).bind (setting.typed? declared)).map
      (setting.verified value) = _
    unfold Setting.built?
    rw [same]
    rcases (setting.told? declared value).bind (setting.typed? declared) with _ | error | type
    · rfl
    · rfl
    · simp only [Option.map_some, Setting.verified, Setting.shownAs]
      cases setting.refused? type value <;> rfl
  have asked : (∀ type, declared ≠ .object type) → setting.concrete? declared value =
      (setting.told? declared value).bind (setting.typed? declared) := by
    intro other
    unfold Setting.concrete? Setting.told?
    split
    · exact absurd rfl (other _)
    · rename_i abstract
      cases (setting.job.schema.resolveType declared value setting.job.query).answer
        setting.state with
      | none => rfl
      | some answer =>
          simp only [Option.map_some, Option.bind_some]
          cases answer.result setting.loads setting.state <;> rfl
  cases declared with
  | object type =>
      show some (setting.shownAs value type) = _
      unfold Setting.built? Setting.concrete? Setting.shownAs
      simp only
      cases setting.refused? type value <;> rfl
  | _ => exact abstract (asked fun _ same => by cases same)

/-! ### What is owed -/

namespace ObjectTarget

/-- What the object above is made from. -/
def above? : ObjectTarget σ → Option AppValue
  | root => none
  | child position => some position.site.owner.value

/-- What is owed for the object of a type at a target, once it is allocated. -/
def OwesFields (setting : Setting σ) (draft : Draft) (selections : List Selection)
    (value : AppValue) (type : ObjectType σ) (v : Verdict) (target : ObjectTarget σ) : Prop :=
  Evaluates setting (.object target.above? (target.path draft) selections value type) v

/-- What is owed for an object at a target, given its type or what stands instead of it. -/
def Owes (setting : Setting σ) (draft : Draft) (selections : List Selection) (value : AppValue)
    (v : Verdict) (built : Except (FieldResult σ) (ObjectType σ)) : ObjectTarget σ → Prop
  | root =>
    match built with
    | .ok type => OwesFields setting draft selections value type v root
    | .error result => v = .invalid ∧ ∃ value, setting.settled? [] result = some value
  | child position =>
    match built with
    | .ok type => ∃ w, OwesFields setting draft selections value type w (child position) ∧
        v = w.raise position.nonNull
    | .error result => Evaluates setting (.position (position.place draft) (some result)) v

end ObjectTarget

/-- What an object is to come to. -/
def ObjectStep.Owes (setting : Setting σ) (draft : Draft) (v : Verdict) (step : ObjectStep σ) :
    Prop :=
  match step.state with
  | .collect type _ =>
    step.target.OwesFields setting draft step.selections step.subject.value type v
  | state => ∃ built, state.built? setting step.subject.value = some built ∧
      step.target.Owes setting draft step.selections step.subject.value v built

/-- What a step is to come to, where it is in a draft. -/
def Step.Owes (setting : Setting σ) (draft : Draft) (v : Verdict) : Step σ → Prop
  | .object step => step.Owes setting draft v
  | .field step => Evaluates setting (.position (step.position.place draft)
      (step.state.result? setting (step.position.place draft) (draft.parentValue? step.parent))) v
  | .item step => Evaluates setting (.position (step.position.place draft)
      (step.state.result? setting (step.position.place draft))) v

/-- What is to come of a task. A step that waits goes on with what it waits for. -/
def Task.Owes (setting : Setting σ) (good : ArgumentKey → ArgumentsResult → Prop) (draft : Draft)
    (v : Verdict) : Task σ → Prop
  | awake step => step.Owes setting draft v
  | called step resumption => ∃ next, step.resume resumption = .ok next ∧
      next.Owes setting draft v
  | asleep step wait => ∃ resumption next, wait.Answers setting.loads good resumption ∧
      step.resume resumption = .ok next ∧ next.Owes setting draft v
  | written _ _ value nonNull => v = .ofLeaf value nonNull

variable {setting : Setting σ} {good : ArgumentKey → ArgumentsResult → Prop} {draft : Draft}
  {s t : Stage σ} {progress : Progress σ} {task : Task σ} {v : Verdict}

/-- A result is as good as the value that it stands for. -/
theorem Evaluates.of_settled {place : Place σ} {result other : FieldResult σ}
    (evaluates : Evaluates setting (.position place (some result)) v)
    (same : setting.settled? place.path other = setting.settled? place.path result) :
    Evaluates setting (.position place (some other)) v := by
  cases evaluates with
  | done settled read => exact .done (same.trans settled) read
  | again settled read after => exact .again (same.trans settled) read after
  | list settled read verdicts each fine => exact .list (same.trans settled) read verdicts each fine
  | listNulled settled read found invalid =>
      exact .listNulled (same.trans settled) read found invalid
  | replaced settled read built after => exact .replaced (same.trans settled) read built after
  | object settled read built below => exact .object (same.trans settled) read built below

/-- A place comes to what it comes to with the value that is waited for, or that stands for the
one that it had. -/
def Completion.Passes (setting : Setting σ) (place : Place σ) (result : FieldResult σ) :
    Completion σ → Prop
  | done => True
  | waiting lazy => ∀ v,
    Evaluates setting (.position place (some (lazy.answer setting.loads setting.state))) v →
      Evaluates setting (.position place (some result)) v
  | replaced value => ∀ v, Evaluates setting (.position place (some (.ok value))) v →
      Evaluates setting (.position place (some result)) v

theorem Setting.Sound.complete (place : Place σ) (sound : setting.Sound good)
    (even : setting.Even good s) {position : Position σ} {value : ResolvedValue σ} {result : FieldResult σ}
    {completion : Completion σ}
    (gives : (position.complete setting.job value).Gives s completion t)
    (settled : setting.settled? place.path result = some value) :
    completion.Passes setting place result := by
  rcases Position.complete_cases gives with ⟨later, rfl, rfl, -⟩ |
    ⟨refusal, answer, rfl, asked, rfl⟩ | ⟨rfl, -⟩
  · exact fun v evaluates => .again settled rfl evaluates
  · obtain ⟨rfl, -, -⟩ := even.call (sound.fine.pure.unauthorized refusal _) asked
    exact fun v evaluates => .again settled rfl evaluates
  · trivial

/-! ### Transitions -/

/-- A step is in a draft where it is in a later one. -/
def Step.Rests (now later : Draft) : Step σ → Prop
  | .field step =>
    now.pathTo step.parent (.field step.key) = later.pathTo step.parent (.field step.key) ∧
      now.parentValue? step.parent = later.parentValue? step.parent
  | .item step => step.position.path now = step.position.path later
  | .object step => step.target.path now = step.target.path later

/-- A transition owed what is owed by what it goes on with. -/
def Step.Passes (setting : Setting σ) (good : ArgumentKey → ArgumentsResult → Prop)
    (draft : Draft) (step : Step σ) (progress : Progress σ) : Prop :=
  ∀ task v, progress.task? = some task → task.Owes setting good draft v →
    step.Owes setting draft v

/-- A step that goes on with what it waits for owes what it comes to with the answer. -/
theorem Step.passes_parked {step next : Step σ} {depth : Nat} {wait : Wait σ}
    (after : ∀ resumption resumed v, wait.Answers setting.loads good resumption →
      next.resume resumption = .ok resumed → resumed.Owes setting draft v →
      step.Owes setting draft v) :
    step.Passes setting good draft (.parked next depth wait) := by
  intro task v same owes
  injection same with same
  subst same
  obtain ⟨resumption, resumed, answers, resumes, owes⟩ := owes
  exact after resumption resumed v answers resumes owes

theorem Step.passes_again {step next : Step σ}
    (after : ∀ v, next.Owes setting draft v → step.Owes setting draft v) :
    step.Passes setting good draft (.again next) := by
  intro task v same owes
  injection same with same
  subst same
  exact after v owes

theorem Step.passes_finished {step : Step σ} :
    step.Passes setting good draft .finished :=
  fun _ _ none_there => nomatch none_there

namespace FieldStep

variable {step : FieldStep σ}

/-- A field goes on to a state that has the same result. -/
theorem passes_goTo {state : FieldState σ}
    (same : step.state.result? setting (step.position.place draft)
        (draft.parentValue? step.parent) =
      state.result? setting (step.position.place draft) (draft.parentValue? step.parent)) :
    (Step.field step).Passes setting good draft (step.goTo state) := by
  refine Step.passes_again fun v owes => ?_
  show Evaluates _ _ _
  rw [same]
  exact owes

/-- A field that waits for its value comes to what it comes to with the value. -/
theorem passes_awaiting {lazy : Lazy σ (FieldResult σ)} {result : FieldResult σ}
    (state : step.state = .resolved result)
    (passes : (Completion.waiting lazy).Passes setting (step.position.place draft) result) :
    (Step.field step).Passes setting good draft
      (step.parkedAt .awaitingValue (.value (.start lazy)) t) := by
  refine Step.passes_parked fun resumption resumed v answers resumes owes => ?_
  cases answers with
  | value answers pure =>
      injection resumes with resumes
      subst resumes
      obtain rfl := Lazy.Answers.answer answers setting.state
      show Evaluates _ _ _
      rw [state]
      exact passes v owes

theorem passes (sound : setting.Sound good) (pure : (Step.field step).Pure setting.loads setting.job)
    (even : setting.Even good s) (rests : (Step.field step).Rests s.run.draft draft)
    (way : step.Way setting.job s progress t) :
    (Step.field step).Passes setting good draft progress := by
  obtain ⟨rests, above⟩ := rests
  have here : step.position.path s.run.draft = step.position.path draft := rests
  obtain ⟨known, pure⟩ := pure
  have told {cursor : DirectiveCursor σ} {answer : CursorProgress σ} {u : Stage σ}
      (state : step.state = .runDirectives cursor)
      (directed : step.Directs setting.job cursor s answer u) :
      answer.Says setting good step.site.owner.value (step.position.path draft)
        (cursor.passage setting step.site.owner.value (step.position.path draft)) := by
    rw [state] at pure
    have said := sound.cursor pure even directed
    rwa [here] at said
  have directed {cursor : DirectiveCursor σ} {passage : Passage σ}
      (state : step.state = .runDirectives cursor)
      (same : cursor.passage setting step.site.owner.value (step.position.path draft) = passage) :
      step.state.result? setting (step.position.place draft) (draft.parentValue? step.parent) =
        passage.result? (setting.argued (step.position.place draft)
          (draft.parentValue? step.parent) (setting.arguments (step.position.place draft))) := by
    rw [state, ← same]
    rfl
  have completed {result : FieldResult σ} {value : ResolvedValue σ} {completion : Completion σ}
      {u : Stage σ} (state : step.state = .resolved result)
      (settled : step.Settles setting.job result s value u)
      (completed : (step.position.complete setting.job value).Gives u completion t) :
      completion.Passes setting (step.position.place draft) result := by
    rw [state] at pure
    unfold Settles at settled
    rw [here] at settled
    obtain ⟨-, even'⟩ := even.gives (agrees_settle sound.fine pure) settled
    exact sound.complete _ even' completed (sound.settle even settled)
  cases way with
  | directs state directs => exact passes_goTo (directed state (told state directs).symm)
  | passes state directs => exact passes_goTo (directed state (told state directs))
  | stops state directs => exact passes_goTo (directed state (told state directs))
  | @awaits _ next _ _ state directs =>
      refine Step.passes_parked fun resumption resumed v answers resumes owes => ?_
      obtain ⟨_, taken, rfl⟩ := Except.map_eq_ok.mp resumes
      obtain ⟨cursor, moved, taken⟩ := Except.bind_eq_ok.mp taken
      injection taken with taken
      subst taken
      show Evaluates _ _ _
      rw [directed state (told state directs resumption cursor answers moved).symm]
      exact owes
  | @finds bag _ state looked =>
      obtain ⟨there, -⟩ := sound.lookUpArguments
        (draft.pathTo step.parent (.field step.key)) step.position.type known even looked
      have same : setting.arguments (step.position.place draft) = bag := there bag rfl
      exact passes_goTo (by rw [state, ← same]; rfl)
  | asks state looked =>
      obtain ⟨-, waited⟩ := sound.lookUpArguments
        (draft.pathTo step.parent (.field step.key)) step.position.type known even looked
      refine Step.passes_parked fun resumption resumed v answers resumes owes => ?_
      rw [waited rfl resumption answers] at resumes
      injection resumes with resumes
      subst resumes
      show Evaluates _ _ _
      rw [state]
      exact owes
  | takes state | fails state => exact passes_goTo (by rw [state]; rfl)
  | resolves state resolved =>
      rw [here] at resolved
      refine passes_goTo ?_
      rw [state, sound.resolve _ step.position.type known even resolved, above]
      rfl
  | waits state settled completes => exact passes_awaiting state (completed state settled completes)
  | replaces state settled completes =>
      refine Step.passes_again fun v owes => ?_
      show Evaluates _ _ _
      rw [state]
      exact completed state settled completes v owes
  | skips | completes => exact Step.passes_finished

end FieldStep

namespace ItemStep

variable {step : ItemStep σ}

/-- An item goes on to a state that has the same result. -/
theorem passes_goTo {state : ItemState σ}
    (same : step.state.result? setting (step.position.place draft) =
      state.result? setting (step.position.place draft)) :
    (Step.item step).Passes setting good draft (step.goTo state) := by
  refine Step.passes_again fun v owes => ?_
  show Evaluates _ _ _
  rw [same]
  exact owes

/-- An item that waits for its value comes to what it comes to with the value. -/
theorem passes_awaiting {lazy : Lazy σ (FieldResult σ)} {result : FieldResult σ}
    (result_of : step.state.result? setting (step.position.place draft) = some result)
    (passes : (Completion.waiting lazy).Passes setting (step.position.place draft) result) :
    (Step.item step).Passes setting good draft
      (step.parkedAt .awaitingValue (.value (.start lazy)) t) := by
  refine Step.passes_parked fun resumption resumed v answers resumes owes => ?_
  cases answers with
  | value answers pure =>
      injection resumes with resumes
      subst resumes
      obtain rfl := Lazy.Answers.answer answers setting.state
      show Evaluates _ _ _
      rw [result_of]
      exact passes v owes

theorem passes (sound : setting.Sound good) (pure : (Step.item step).Pure setting.loads setting.job)
    (even : setting.Even good s) (rests : (Step.item step).Rests s.run.draft draft)
    (way : step.Way setting.job s progress t) :
    (Step.item step).Passes setting good draft progress := by
  obtain ⟨known, pure⟩ := pure
  have here : step.position.path s.run.draft = step.position.path draft := rests
  have told {cursor : DirectiveCursor σ} {item : ResolvedValue σ} {answer : CursorProgress σ}
      {u : Stage σ} (state : step.state = .runDirectives cursor item)
      (directed : step.Directs setting.job cursor s answer u) :
      answer.Says setting good step.position.site.owner.value (step.position.path draft)
        (cursor.passage setting step.position.site.owner.value (step.position.path draft)) := by
    rw [state] at pure
    have said := sound.cursor pure.1 even directed
    rwa [here] at said
  have directed {cursor : DirectiveCursor σ} {item : ResolvedValue σ} {passage : Passage σ}
      (state : step.state = .runDirectives cursor item)
      (same : cursor.passage setting step.position.site.owner.value (step.position.path draft) =
        passage) :
      step.state.result? setting (step.position.place draft) = passage.result? (.ok item) := by
    rw [state, ← same]
    rfl
  cases way with
  | directs state directs => exact passes_goTo (directed state (told state directs).symm)
  | passes state directs => exact passes_goTo (directed state (told state directs))
  | stops state directs => exact passes_goTo (directed state (told state directs))
  | @awaits _ next item _ _ state directs =>
      refine Step.passes_parked fun resumption resumed v answers resumes owes => ?_
      obtain ⟨_, taken, rfl⟩ := Except.map_eq_ok.mp resumes
      obtain ⟨cursor, moved, taken⟩ := Except.bind_eq_ok.mp taken
      injection taken with taken
      subst taken
      show Evaluates _ _ _
      rw [directed state (told state directs resumption cursor answers moved).symm]
      exact owes
  | waits state settled =>
      rw [here] at settled
      exact passes_awaiting (by rw [state]; rfl)
        fun v evaluates => .again (sound.settle even settled) rfl evaluates
  | settles state settled =>
      rw [here] at settled
      refine Step.passes_again fun v owes => ?_
      show Evaluates _ _ _
      rw [state]
      exact Evaluates.of_settled owes (sound.settle even settled)
  | defers state completed =>
      exact passes_awaiting (by rw [state]; rfl) (sound.complete _ even completed rfl)
  | replaces state completed =>
      refine Step.passes_again fun v owes => ?_
      show Evaluates _ _ _
      rw [state]
      exact sound.complete _ even completed rfl v owes
  | skips | completes => exact Step.passes_finished

end ItemStep

namespace ObjectStep

variable {step : ObjectStep σ}

/-- What is owed for an object that is not allocated. -/
theorem owes_iff (outside : step.state.node? = none) :
    step.Owes setting draft v ↔ ∃ built, step.state.built? setting step.subject.value = some built ∧
      step.target.Owes setting draft step.selections step.subject.value v built := by
  unfold ObjectStep.Owes
  cases state : step.state with
  | collect type node => rw [state] at outside; cases outside
  | _ => exact Iff.rfl

/-- An object goes on to a state from which the same is built. -/
theorem passes_goTo {state : ObjectState σ} (outside : step.state.node? = none)
    (outside' : state.node? = none)
    (same : step.state.built? setting step.subject.value =
      state.built? setting step.subject.value) :
    (Step.object step).Passes setting good draft (step.goTo state) := by
  refine Step.passes_again fun v owes => (owes_iff outside).mpr ?_
  rw [same]
  exact (@owes_iff _ _ _ _ { step with state } outside').mp owes

/-- An object waits, and goes on to a state from which the same is built. -/
theorem passes_parked {state : ObjectState σ} {depth : Nat} {wait : Wait σ}
    (outside : step.state.node? = none)
    (after : ∀ resumption, wait.Answers setting.loads good resumption → ∃ state',
      ({ step with state } : ObjectStep σ).resume resumption = .ok { step with state := state' } ∧
      state'.node? = none ∧
      step.state.built? setting step.subject.value =
        state'.built? setting step.subject.value) :
    (Step.object step).Passes setting good draft
      (.parked (.object { step with state }) depth wait) := by
  refine Step.passes_parked fun resumption resumed v answers resumes owes => ?_
  obtain ⟨state', resumes', outside', same⟩ := after resumption answers
  obtain rfl : Step.object { step with state := state' } = resumed := by
    simpa [Step.resume, resumes'] using resumes
  have passes : (Step.object step).Passes setting good draft (step.goTo state') :=
    passes_goTo outside outside' same
  exact passes _ v rfl owes

/-- An object gives way to a value. -/
theorem GivesWay.passes (sound : setting.Sound good) (even : setting.Even good s)
    {value : ResolvedValue σ} {result : FieldResult σ}
    (gives_way : step.GivesWay setting.job value s progress t)
    (outside : step.state.node? = none)
    (built : step.state.built? setting step.subject.value = some (.error result))
    (settled : setting.settled? (step.target.path draft) result = some value) :
    (Step.object step).Passes setting good draft progress := by
  have replaced {position : Position σ} {other : FieldResult σ} {v : Verdict}
      (target : step.target = .child position)
      (passes : Evaluates setting (.position (position.place draft) (some other)) v →
        Evaluates setting (.position (position.place draft) (some result)) v)
      (owes : ({ step with state := .replaced other } : ObjectStep σ).Owes setting draft v) :
      step.Owes setting draft v := by
    obtain ⟨_, same, owes⟩ := owes
    injection same with same
    subst same
    refine (owes_iff outside).mpr ⟨_, built, ?_⟩
    rw [target] at owes ⊢
    exact passes owes
  cases gives_way with
  | root | completes => exact Step.passes_finished
  | @waits position later _ target completed =>
      rw [target] at settled
      refine Step.passes_parked fun resumption resumed v answers resumes owes => ?_
      cases answers with
      | value answers pure =>
          injection resumes with resumes
          subst resumes
          obtain rfl := Lazy.Answers.answer answers setting.state
          exact replaced target (sound.complete (position.place draft) even completed settled v) owes
  | @replaces position _ _ target completed =>
      rw [target] at settled
      exact Step.passes_again fun v =>
        replaced target (sound.complete (position.place draft) even completed settled v)

/-- An object that fails gives way to what the failure comes to. -/
theorem Fails.passes (sound : setting.Sound good) (even : setting.Even good s)
    {value : ResolvedValue σ} {u : Stage σ} (fails : step.Fails setting.job s value u)
    (gives_way : step.GivesWay setting.job value u progress t)
    (pure : step.state.Pure setting.loads setting.job)
    (rests : step.target.path s.run.draft = step.target.path draft) :
    (Step.object step).Passes setting good draft progress := by
  cases fails with
  | mistyped state settled | unauthorized state settled =>
      rw [rests] at settled
      obtain ⟨-, even'⟩ := (even.tell _).gives
        (agrees_settle sound.fine (FieldResult.pure_error _)) settled
      exact gives_way.passes sound even' (by rw [state]; rfl) (by rw [state]; rfl)
        (sound.settle (even.tell _) settled)
  | @refused type state =>
      have refused : step.state.built? setting step.subject.value =
          some (.error (.ok (.unauthorized (.object type.name)))) := by rw [state]; rfl
      exact gives_way.passes sound (even.tell _) (by rw [state]; rfl) refused rfl
  | replaced state settled =>
      rw [rests] at settled
      rw [state] at pure
      obtain ⟨-, even'⟩ := even.gives (agrees_settle sound.fine pure) settled
      exact gives_way.passes sound even' (by rw [state]; rfl) (by rw [state]; rfl)
        (sound.settle even settled)

/-- An object that asks for its type is built of the type that is told. -/
theorem built?_of_told {declared : TypeDefinition σ} {result : Except ResolverError String}
    (state : step.state = .resolveType declared)
    (told : setting.told? declared step.subject.value = some result) :
    step.state.built? setting step.subject.value =
      (ObjectState.typeResolved declared result).built? setting step.subject.value := by
  rw [state]
  show ((setting.told? _ _).bind _).map _ = _
  rw [told]
  rfl

/-- The hooks for concrete types tell what they are asked at any time. -/
theorem told?_of_call (sound : setting.Sound good) (even : setting.Even good s)
    {declared : TypeDefinition σ} (knows : setting.job.schema.Knows declared) {value : AppValue}
    {answer : Answer σ ResolverError String}
    (answered : (call (setting.job.schema.resolveType declared value setting.job.query)).Gives s
      (some answer) t) :
    setting.told? declared value = some (answer.result setting.loads setting.state) := by
  obtain ⟨name, found⟩ := knows
  obtain ⟨same, -, -⟩ := even.call (sound.fine.pure.resolveType found _ _) answered
  unfold Setting.told?
  rw [← same]
  rfl

/-- A value may be shown, or not, as its authorization comes to. -/
theorem shownAs_eq {type : ObjectType σ}
    {authorize : AppValue → QueryContext → Action σ (Answer σ ResolverError Bool)}
    (found : type.authorize? = some authorize) (value : AppValue)
    {result : Except ResolverError Bool}
    (same : ((authorize value setting.job.query).answer setting.state).result setting.loads
      setting.state = result) :
    some (setting.shownAs value type) =
      (ObjectState.authorized type result).built? setting value := by
  unfold Setting.shownAs Setting.refused?
  rw [found]
  simp only [same]
  rcases result with error | _ | _ <;> rfl

theorem passes (sound : setting.Sound good)
    (pure : (Step.object step).Pure setting.loads setting.job) (even : setting.Even good s)
    (rests : (Step.object step).Rests s.run.draft draft)
    (stays : ∀ next, progress.next? = some next → (Step.object step).Stays setting.job next)
    (way : step.Way setting.job s progress t) :
    (Step.object step).Passes setting good draft progress := by
  have own : step.state.Pure setting.loads setting.job := pure.state
  cases way with
  | types state answered =>
      rw [state] at own
      have told := told?_of_call sound (even.tell _) own answered
      exact passes_goTo (by rw [state]; rfl) rfl (built?_of_told state told)
  | asksType state answered =>
      rw [state] at own
      have told := told?_of_call sound (even.tell _) own answered
      refine passes_parked (by rw [state]; rfl) fun resumption answers => ?_
      cases answers with
      | type answers =>
          refine ⟨_, rfl, rfl, built?_of_told state ?_⟩
          rw [told, ← Lazy.Answers.answer answers setting.state]
          rfl
  | takesType state possible =>
      refine passes_goTo (by rw [state]; rfl) rfl ?_
      rw [state]
      show (setting.typed? _ (.ok _)).map _ = _
      unfold Setting.typed?
      simp only
      rw [possible]
      rfl
  | permits state open_to_all =>
      refine passes_goTo (by rw [state]; rfl) rfl ?_
      rw [state]
      show some (setting.shownAs _ _) = _
      unfold Setting.shownAs Setting.refused?
      rw [open_to_all]
      rfl
  | decides state hook answered =>
      rw [state] at own
      obtain ⟨same, -, -⟩ := (even.tell _).call
        ((sound.fine.objectType own).authorizes _ hook _ _) answered
      refine passes_goTo (by rw [state]; rfl) rfl ?_
      rw [state]
      exact shownAs_eq hook _ (by rw [← same]; rfl)
  | asksPermission state hook answered =>
      rw [state] at own
      obtain ⟨same, -, -⟩ := (even.tell _).call
        ((sound.fine.objectType own).authorizes _ hook _ _) answered
      refine passes_parked (by rw [state]; rfl) fun resumption answers => ?_
      cases answers with
      | authorization answers =>
          refine ⟨_, rfl, rfl, ?_⟩
          rw [state]
          exact shownAs_eq hook _ (by
            rw [← same, ← Lazy.Answers.answer answers setting.state]; rfl)
  | allows state => exact passes_goTo (by rw [state]; rfl) rfl (by rw [state]; rfl)
  | fails fails gives_way => exact fails.passes sound even gives_way own rests
  | @allocates type node _ state allocated =>
      -- What is owed for the root is owed once its node is taken up.
      have root : step.target = .root := by
        cases stays _ rfl with
        | object typed outside => rw [state] at outside; cases outside
        | root _ target => exact target
      refine Step.passes_again fun v owes => ?_
      refine (owes_iff (by rw [state]; rfl)).mpr ⟨.ok type, by rw [state]; rfl, ?_⟩
      have owes : step.target.OwesFields setting draft step.selections step.subject.value type v :=
        owes
      rw [root] at owes ⊢
      exact owes
  | asks state grouped =>
      refine Step.passes_parked fun resumption resumed v answers resumes owes => ?_
      cases answers with
      | arguments fine =>
          injection resumes with resumes
          subst resumes
          show step.Owes setting draft v
          unfold ObjectStep.Owes
          rw [state]
          exact owes
  | collects => exact Step.passes_finished

end ObjectStep

/-- A transition of a pure step that goes on owes what it goes on with. -/
theorem Step.passes (sound : setting.Sound good) {step : Step σ}
    (pure : step.Pure setting.loads setting.job) (even : setting.Even good s)
    (rests : step.Rests s.run.draft draft)
    (stays : ∀ next, progress.next? = some next → step.Stays setting.job next)
    (gives : (step.advance setting.job).Gives s progress t) :
    step.Passes setting good draft progress := by
  cases Step.way gives with
  | dropped => exact passes_finished
  | @object step _ _ _ _ way => exact step.passes sound pure even rests stays way
  | @field step _ _ _ _ way => exact step.passes sound pure even rests way
  | @item step _ _ _ _ way => exact step.passes sound pure even rests way

end GraphExec
