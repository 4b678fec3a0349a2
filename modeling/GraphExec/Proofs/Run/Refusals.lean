import GraphExec.Proofs.Run.Transitions

/-!
# What refusals come to

A step that has come to a refusal asks the hook of the schema what to show instead, and goes on with
the answer as if it had come to that. A refused root object shows nothing. A field whose own hook
refuses a call has come to a refusal; its resolver is not called.
-/

namespace GraphExec

open Engine

variable {σ : Type} {job : Job σ}

/-! ### What is shown instead -/

/-- The hook that answers a refusal. That for objects stands in for a missing hook for fields. -/
def SchemaHooks.unauthorized? (hooks : SchemaHooks σ) : UnauthorizedError → Option (UnauthorizedHook σ)
  | .object _ => hooks.unauthorizedObject?
  | .field _ _ => hooks.unauthorizedField?.or hooks.unauthorizedObject?

/-- What a job shows instead of a refused value, null without a hook, and the world after the hook. -/
def Job.instead (job : Job σ) (refusal : UnauthorizedError) (world : World σ) :
    Except ExecutionError (ResolvedValue σ) × World σ :=
  match job.schema.hooks.unauthorized? refusal with
  | some hook => (hook refusal job.query).run world
  | none => (.ok .null, world)

/-- The value that an answer of the hook stands for. -/
def shownValue : Except ExecutionError (ResolvedValue σ) → ResolvedValue σ
  | .ok value => value
  | .error error => .error error

/-- The errors that a refused root object leaves in the response. -/
def rootErrors : Except ExecutionError (ResolvedValue σ) → List ExecutionError
  | .ok (.error error) => [error]
  | .error error => [error]
  | .ok _ => []

theorem Job.gives_unauthorized (job : Job σ) (refusal : UnauthorizedError) (s : Stage σ) :
    (Engine.call (job.schema.unauthorized refusal job.query)).Gives s
      (job.instead refusal s.world).1 ⟨s.run, (job.instead refusal s.world).2⟩ := by
  have same : (job.schema.unauthorized refusal job.query).run s.world =
      job.instead refusal s.world := by
    unfold Schema.unauthorized Job.instead SchemaHooks.unauthorized?
    cases refusal with
    | object name =>
        simp only
        cases job.schema.hooks.unauthorizedObject? <;> rfl
    | field name field =>
        simp only
        cases job.schema.hooks.unauthorizedField?.or job.schema.hooks.unauthorizedObject? <;> rfl
  refine gives_call.mpr ⟨?_, ?_⟩
  · rw [same]
  · rw [same]

namespace Position

variable {position : Position σ} {s : Stage σ}

theorem complete_refusal (refusal : UnauthorizedError) :
    (position.complete job (.unauthorized refusal)).Gives s
      (.replaced (shownValue (job.instead refusal s.world).1))
      ⟨s.run, (job.instead refusal s.world).2⟩ := by
  refine gives_bind.mpr ⟨_, _, job.gives_unauthorized refusal s, ?_⟩
  cases (job.instead refusal s.world).1 with
  | ok value => exact gives_pure.mpr ⟨rfl, rfl⟩
  | error error => exact gives_pure.mpr ⟨rfl, rfl⟩

/-- Completing a position with a value that is neither lazy nor refused is done at once. -/
theorem complete_done {value : ResolvedValue σ} {completion : Completion σ} {t : Stage σ}
    (no_lazy : ∀ lazy, value ≠ .lazy lazy) (no_refusal : ∀ refusal, value ≠ .unauthorized refusal)
    (completed : (position.complete job value).Gives s completion t) :
    completion = .done ∧ position.Finishes job s value t := by
  rcases position.complete_cases completed with
    ⟨later, lazy, -, -⟩ | ⟨refusal, answer, refused, -, -⟩ | finishes
  · exact absurd lazy (no_lazy later)
  · exact absurd refused (no_refusal refusal)
  · exact finishes

end Position

/-! ### Steps that have come to a refusal -/

/-- The refusal that the building of an object has come to. -/
def ObjectState.refusal? : ObjectState σ → Option UnauthorizedError
  | authorized type (.ok false) => some (.object type.name)
  | replaced (.ok (.unauthorized refusal)) => some refusal
  | _ => none

/-- The world in which an object with a refusal asks what to show instead. -/
def ObjectState.told (world : World σ) : ObjectState σ → World σ
  | authorized type (.ok false) => world.tell (.endAuthorized type.name (some false))
  | _ => world

def FieldState.refusal? : FieldState σ → Option UnauthorizedError
  | resolved (.ok (.unauthorized refusal)) => some refusal
  | _ => none

def ItemState.refusal? : ItemState σ → Option UnauthorizedError
  | settled (.unauthorized refusal) => some refusal
  | _ => none

namespace Step

/-- The refusal that a step has come to. -/
def refusal? : Step σ → Option UnauthorizedError
  | .object step => step.state.refusal?
  | .field step => step.state.refusal?
  | .item step => step.state.refusal?

/-- The world in which a step with a refusal asks what to show instead. -/
def told (world : World σ) : Step σ → World σ
  | .object step => step.state.told world
  | _ => world

/-- The step that has come to a value instead. -/
def given (value : ResolvedValue σ) : Step σ → Step σ
  | .object step => .object { step with state := .replaced (.ok value) }
  | .field step => .field { step with state := .resolved (.ok value) }
  | .item step => .item { step with state := .settled value }

/-- The position that a step finds a value for, unless it builds the root object. -/
def position? : Step σ → Option (Position σ)
  | .object step =>
    match step.target with
    | .root => none
    | .child position => some position
  | .field step => some step.position
  | .item step => some step.position

end Step

namespace ObjectStep

variable {step : ObjectStep σ} {s : Stage σ} {refusal : UnauthorizedError}

/-- The value of a refused object is not looked at any more. -/
theorem fail_refusal {position : Position σ} (target : step.target = .child position) :
    (step.fail job (.unauthorized refusal)).Gives s
      (.again ((Step.object step).given (shownValue (job.instead refusal s.world).1)))
      ⟨s.run, (job.instead refusal s.world).2⟩ := by
  unfold fail
  rw [target]
  refine gives_bind.mpr ⟨_, _, Position.complete_refusal refusal, ?_⟩
  refine gives_pure.mpr ⟨?_, rfl⟩
  unfold goTo Step.given
  rfl

/-- A refused root object shows nothing. -/
theorem fail_refusal_root (target : step.target = .root) :
    (step.fail job (.unauthorized refusal)).Gives s .finished
      ⟨{ s.run with
          errors := s.run.errors ++ rootErrors (job.instead refusal s.world).1
          draft := s.run.draft.nullData }, (job.instead refusal s.world).2⟩ := by
  unfold fail
  rw [target]
  refine gives_bind.mpr ⟨(), _, ?_, gives_pure.mpr ⟨rfl, rfl⟩⟩
  unfold failRoot
  refine gives_bind.mpr ⟨_, _, job.gives_unauthorized refusal s, ?_⟩
  have nulled (error : ExecutionError) : (do
      Engine.report error
      Engine.modifyDraft Draft.nullData : Engine σ Unit).Gives
      ⟨s.run, (job.instead refusal s.world).2⟩ ()
      ⟨{ s.run with errors := s.run.errors ++ [error], draft := s.run.draft.nullData },
        (job.instead refusal s.world).2⟩ :=
    gives_bind.mpr ⟨(), _, gives_report.mpr rfl, gives_modifyDraft.mpr rfl⟩
  have quietly : (Engine.modifyDraft Draft.nullData : Engine σ Unit).Gives
      ⟨s.run, (job.instead refusal s.world).2⟩ ()
      ⟨{ s.run with errors := s.run.errors ++ [], draft := s.run.draft.nullData },
        (job.instead refusal s.world).2⟩ := by
    rw [List.append_nil]
    exact gives_modifyDraft.mpr rfl
  cases (job.instead refusal s.world).1 with
  | error error => exact nulled error
  | ok value =>
      cases value with
      | error error => exact nulled error
      | _ => exact quietly

/-- A refused object leaves it to the hook of the schema what to show. -/
theorem advance_refusal (refused : step.state.refusal? = some refusal)
    (alive : step.target.isAlive s.run.draft = true) {progress : Progress σ} {t : Stage σ}
    (fails : (step.fail job (.unauthorized refusal)).Gives
      ⟨s.run, step.state.told s.world⟩ progress t) :
    (step.advance job).Gives s progress t := by
  refine gives_bind.mpr ⟨s.run.draft, s, gives_draft.mpr ⟨rfl, rfl⟩, ?_⟩
  rw [if_pos alive]
  unfold ObjectState.refusal? at refused
  unfold advanceAlive
  split at refused
  · rename_i type state
    injection refused with refused
    subst refused
    rw [state] at fails
    simp only [state]
    exact gives_bind.mpr ⟨(), _, gives_tell.mpr rfl, fails⟩
  · rename_i other state
    injection refused with refused
    subst refused
    rw [state] at fails
    simp only [state]
    refine gives_bind.mpr ⟨_, s, gives_draft.mpr ⟨rfl, rfl⟩, ?_⟩
    exact gives_bind.mpr ⟨_, s, gives_pure.mpr ⟨rfl, rfl⟩, fails⟩
  · cases refused

end ObjectStep

theorem FieldStep.advance_refusal {step : FieldStep σ} {refusal : UnauthorizedError} {s : Stage σ}
    (refused : step.state.refusal? = some refusal)
    (alive : s.run.draft.isDead step.parent = false) :
    (step.advance job).Gives s
      (.again ((Step.field step).given (shownValue (job.instead refusal s.world).1)))
      ⟨s.run, (job.instead refusal s.world).2⟩ := by
  refine gives_bind.mpr ⟨s.run.draft, s, gives_draft.mpr ⟨rfl, rfl⟩, ?_⟩
  rw [if_neg (by simp [alive])]
  refine gives_bind.mpr ⟨s.run.draft, s, gives_draft.mpr ⟨rfl, rfl⟩, ?_⟩
  unfold FieldState.refusal? at refused
  split at refused
  · rename_i other state
    injection refused with refused
    subst refused
    simp only [state]
    refine gives_bind.mpr ⟨_, s, gives_pure.mpr ⟨rfl, rfl⟩, ?_⟩
    exact gives_bind.mpr ⟨_, _, Position.complete_refusal other, gives_pure.mpr ⟨rfl, rfl⟩⟩
  · cases refused

theorem ItemStep.advance_refusal {step : ItemStep σ} {refusal : UnauthorizedError} {s : Stage σ}
    (refused : step.state.refusal? = some refusal)
    (alive : s.run.draft.isDead step.position.parent = false) :
    (step.advance job).Gives s
      (.again ((Step.item step).given (shownValue (job.instead refusal s.world).1)))
      ⟨s.run, (job.instead refusal s.world).2⟩ := by
  refine gives_bind.mpr ⟨s.run.draft, s, gives_draft.mpr ⟨rfl, rfl⟩, ?_⟩
  rw [if_neg (by simp [alive])]
  refine gives_bind.mpr ⟨s.run.draft, s, gives_draft.mpr ⟨rfl, rfl⟩, ?_⟩
  unfold ItemState.refusal? at refused
  split at refused
  · rename_i other state
    injection refused with refused
    subst refused
    simp only [state]
    exact gives_bind.mpr ⟨_, _, Position.complete_refusal other, gives_pure.mpr ⟨rfl, rfl⟩⟩
  · cases refused

namespace Step

variable {step : Step σ} {s t : Stage σ} {progress : Progress σ} {refusal : UnauthorizedError}
  {position : Position σ}

/-- A step that has come to a refusal has come to what the hook of the schema answers, and nothing
else has happened. -/
theorem refused_given (refused : step.refusal? = some refusal)
    (alive : step.isAlive s.run.draft = true) (placed : step.position? = some position) :
    (step.advance job).Gives s
      (.again (step.given (shownValue (job.instead refusal (step.told s.world)).1)))
      ⟨s.run, (job.instead refusal (step.told s.world)).2⟩ := by
  cases step with
  | field step =>
      exact step.advance_refusal refused (by simpa [isAlive] using alive)
  | item step =>
      exact step.advance_refusal refused (by simpa [isAlive] using alive)
  | object step =>
      simp only [position?] at placed
      cases target : step.target with
      | root => simp [target] at placed
      | child spot => exact step.advance_refusal refused alive (step.fail_refusal target)

/-- A refused root object leaves nothing of the response but its errors. -/
theorem refused_root (refused : step.refusal? = some refusal) (root : step.position? = none) :
    (step.advance job).Gives s .finished
      ⟨{ s.run with
          errors := s.run.errors ++ rootErrors (job.instead refusal (step.told s.world)).1
          draft := s.run.draft.nullData }, (job.instead refusal (step.told s.world)).2⟩ := by
  cases step with
  | field step => cases root
  | item step => cases root
  | object step =>
      simp only [position?] at root
      cases target : step.target with
      | child spot => simp [target] at root
      | root =>
          have alive : step.target.isAlive s.run.draft = true := by rw [target]; rfl
          exact step.advance_refusal refused alive (step.fail_refusal_root target)

/-- A step that is given a value completes its position with it, unless it has to wait for it or it
is a refusal again. -/
theorem given_finishes {value : ResolvedValue σ} (placed : step.position? = some position)
    (alive : step.isAlive s.run.draft = true) (no_lazy : ∀ lazy, value ≠ .lazy lazy)
    (no_refusal : ∀ refusal, value ≠ .unauthorized refusal)
    (gives : ((step.given value).advance job).Gives s progress t) :
    progress = .finished ∧ position.Finishes job s value t := by
  cases step with
  | field step =>
      injection placed with placed
      subst placed
      obtain ⟨draft, u, got, gives⟩ := gives_bind.mp gives
      obtain ⟨rfl, rfl⟩ := gives_draft.mp got
      rw [if_neg (by simpa [isAlive] using alive)] at gives
      obtain ⟨draft, u, got, gives⟩ := gives_bind.mp gives
      obtain ⟨rfl, rfl⟩ := gives_draft.mp got
      obtain ⟨settled, u, same, gives⟩ := gives_bind.mp gives
      obtain ⟨rfl, rfl⟩ := gives_pure.mp same
      obtain ⟨completion, u, completed, gives⟩ := gives_bind.mp gives
      obtain ⟨rfl, finishes⟩ := Position.complete_done no_lazy no_refusal completed
      obtain ⟨rfl, rfl⟩ := gives_pure.mp gives
      exact ⟨rfl, finishes⟩
  | item step =>
      injection placed with placed
      subst placed
      obtain ⟨draft, u, got, gives⟩ := gives_bind.mp gives
      obtain ⟨rfl, rfl⟩ := gives_draft.mp got
      rw [if_neg (by simpa [isAlive] using alive)] at gives
      obtain ⟨draft, u, got, gives⟩ := gives_bind.mp gives
      obtain ⟨rfl, rfl⟩ := gives_draft.mp got
      obtain ⟨completion, u, completed, gives⟩ := gives_bind.mp gives
      obtain ⟨rfl, finishes⟩ := Position.complete_done no_lazy no_refusal completed
      obtain ⟨rfl, rfl⟩ := gives_pure.mp gives
      exact ⟨rfl, finishes⟩
  | object step =>
      obtain ⟨draft, u, got, gives⟩ := gives_bind.mp gives
      obtain ⟨rfl, rfl⟩ := gives_draft.mp got
      have wanted : step.target.isAlive s.run.draft = true := alive
      rw [if_pos wanted] at gives
      obtain ⟨draft, u, got, gives⟩ := gives_bind.mp gives
      obtain ⟨rfl, rfl⟩ := gives_draft.mp got
      obtain ⟨settled, u, same, gives⟩ := gives_bind.mp gives
      obtain ⟨rfl, rfl⟩ := gives_pure.mp same
      simp only [position?] at placed
      unfold ObjectStep.fail at gives
      cases target : step.target with
      | root => simp [target] at placed
      | child spot =>
          simp only [target, Option.some.injEq] at placed gives
          subst placed
          obtain ⟨completion, u, completed, gives⟩ := gives_bind.mp gives
          obtain ⟨rfl, finishes⟩ := Position.complete_done no_lazy no_refusal completed
          obtain ⟨rfl, rfl⟩ := gives_pure.mp gives
          exact ⟨rfl, finishes⟩

end Step

/-! ### Fields that refuse a call -/

namespace FieldSite

variable {site : FieldSite σ} {parent : NodeId} {path : Path} {arguments : Arguments} {s : Stage σ}

/-- What a field asks for can always be had, and the run is not touched. -/
theorem extras_given (site : FieldSite σ) (job : Job σ) (parent : NodeId) (path : Path)
    (s : Stage σ) : ∃ extras world, (site.extras job parent path).Gives s extras ⟨s.run, world⟩ := by
  have provided : ∀ (asked : List Extra) (values : Fields Value) (world : World σ),
      ∃ custom after, (site.provide job values asked).Gives ⟨s.run, world⟩ custom ⟨s.run, after⟩ := by
    intro asked
    induction asked with
    | nil => exact fun values world => ⟨values, world, gives_pure.mpr ⟨rfl, rfl⟩⟩
    | cons extra rest ih =>
        intro values world
        cases extra with
        | custom name =>
            unfold provide
            cases site.field.provide? with
            | some provide =>
                obtain ⟨custom, after, given⟩ := ih _ _
                exact ⟨custom, after, gives_bind.mpr ⟨_, _, gives_call.mpr ⟨rfl, rfl⟩, given⟩⟩
            | none =>
                obtain ⟨custom, after, given⟩ := ih _ _
                exact ⟨custom, after, gives_bind.mpr ⟨_, _, gives_pure.mpr ⟨rfl, rfl⟩, given⟩⟩
        | _ => exact ih values world
  obtain ⟨custom, after, given⟩ := provided site.field.extras [] s.world
  have read : (Engine.draft : Engine σ Draft).Gives s s.run.draft s := gives_draft.mpr ⟨rfl, rfl⟩
  exact ⟨_, after, gives_bind.mpr ⟨_, _, read, gives_bind.mpr ⟨_, _, given, gives_pure.mpr
    ⟨Eq.refl _, rfl⟩⟩⟩⟩

/-- A field whose hook refuses a call comes to a refusal. Nothing else happens after the call of the
hook. -/
theorem resolve_refused {authorize : ResolverContext σ → Action σ Bool} {extras : Extras σ}
    {world : World σ} (hook : site.field.authorize? = some authorize)
    (asked : (site.extras job parent path).Gives s extras ⟨s.run, world⟩)
    (refuses : ((authorize ⟨site.owner.value, arguments, job.query, site.typeName, site.field.name,
      extras⟩).run world).1 = false) :
    (site.resolve job parent path arguments).Gives s
      (.ok (.unauthorized (.field site.typeName site.field.name)))
      ⟨s.run, ((authorize ⟨site.owner.value, arguments, job.query, site.typeName,
        site.field.name, extras⟩).run world).2⟩ := by
  refine gives_bind.mpr ⟨extras, _, asked, ?_⟩
  simp only [hook]
  exact gives_bind.mpr ⟨false, _, gives_call.mpr ⟨refuses, rfl⟩, gives_pure.mpr ⟨rfl, rfl⟩⟩

end FieldSite

/-- The transition of a field that is about to be resolved, and is refused. -/
theorem FieldStep.advance_refused {step : FieldStep σ} {arguments : Arguments} {s : Stage σ}
    {authorize : ResolverContext σ → Action σ Bool} {extras : Extras σ} {world : World σ}
    (state : step.state = .callResolver arguments)
    (hook : step.site.field.authorize? = some authorize)
    (alive : s.run.draft.isDead step.parent = false)
    (asked : (step.site.extras job step.parent (step.position.path s.run.draft)).Gives s extras
      ⟨s.run, world⟩)
    (refuses : ((authorize ⟨step.site.owner.value, arguments, job.query, step.site.typeName,
      step.site.field.name, extras⟩).run world).1 = false) :
    ((Step.field step).advance job).Gives s
      (.again ((Step.field step).given
        (.unauthorized (.field step.site.typeName step.site.field.name))))
      ⟨s.run, ((authorize ⟨step.site.owner.value, arguments, job.query, step.site.typeName,
        step.site.field.name, extras⟩).run world).2⟩ := by
  refine gives_bind.mpr ⟨s.run.draft, s, gives_draft.mpr ⟨rfl, rfl⟩, ?_⟩
  rw [if_neg (by simp [alive])]
  refine gives_bind.mpr ⟨s.run.draft, s, gives_draft.mpr ⟨rfl, rfl⟩, ?_⟩
  simp only [state]
  refine gives_bind.mpr ⟨_, _, step.site.resolve_refused hook asked refuses, ?_⟩
  exact gives_pure.mpr ⟨rfl, rfl⟩

end GraphExec
