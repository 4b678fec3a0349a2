import GraphExec.Proofs.Draft.Written
import GraphExec.Proofs.Run.Deeds
import GraphExec.Proofs.Run.Spans

/-!
# How lazies are forced

A step that takes up a lazy for its position parks, at the depth of the position, and changes
nothing else. What is left of the lazy is driven forward until it answers, and then the step takes
up the answer. So a chain of lazies is forced from the outside in, and the step goes on with what is
in the middle as if it had been there at once; a failure ends the chain.
-/

namespace GraphExec

open Engine

variable {σ : Type} {job : Job σ} {s t : Stage σ} {position : Position σ}

/-! ### Steps -/

namespace Step

/-- A step is about to take up a result for a position: that of a field, that of an item, or that
which replaces an object. -/
inductive TakesUp : Step σ → Position σ → FieldResult σ → Prop
  | field {step : FieldStep σ} {result : FieldResult σ} (state : step.state = .resolved result) :
      TakesUp (.field step) step.position result
  | item {step : ItemStep σ} {result : FieldResult σ} (state : step.state = .resolved result) :
      TakesUp (.item step) step.position result
  | settled {step : ItemStep σ} {value : ResolvedValue σ} (state : step.state = .settled value) :
      TakesUp (.item step) step.position (.ok value)
  | object {step : ObjectStep σ} {position : Position σ} {result : FieldResult σ}
      (target : step.target = .child position) (state : step.state = .replaced result) :
      TakesUp (.object step) position result

/-- The step with a result to take up. -/
def offered (result : FieldResult σ) : Step σ → Step σ
  | field step => .field { step with state := .resolved result }
  | item step => .item { step with state := .resolved result }
  | object step => .object { step with state := .replaced result }

/-- The step as it waits for a result. -/
def waiter : Step σ → Step σ
  | field step => .field { step with state := .awaitingValue }
  | item step => .item { step with state := .awaitingValue }
  | object step => .object { step with state := .awaitingReplacement }

/-- The transition of a step takes up a failure: what it is settled to is reported at the position,
where a null is written, and the step is done; for an item that takes another transition. -/
inductive Settles (job : Job σ) (position : Position σ) (error : ResolverError) :
    Step σ → Stage σ → Progress σ → Stage σ → Prop
  | writes {step : Step σ} {failure : ExecutionError} {s u t : Stage σ}
      (settled : (settle job (position.path s.run.draft) (.error error)).Gives s (.error failure) u)
      (written : (position.writeError failure).Gives u () t) :
      Settles job position error step s .finished t
  | item {step : ItemStep σ} {failure : ExecutionError} {s u : Stage σ}
      (settled : (settle job (position.path s.run.draft) (.error error)).Gives s (.error failure) u) :
      Settles job position error (.item step) s
        (.again (.item { step with state := .settled (.error failure) })) u

variable {step : Step σ} {result answer : FieldResult σ} {lazy : Lazy σ (FieldResult σ)}
  {progress : Progress σ}

@[simp] theorem offered_offered : (step.offered result).offered answer = step.offered answer := by
  cases step <;> rfl

theorem resume_waiter : step.waiter.resume (.value answer) = .ok (step.offered answer) := by
  cases step <;> rfl

/-- A step has one result to take up at most. -/
theorem TakesUp.unique {other : Position σ} (takes : step.TakesUp position result)
    (takes' : step.TakesUp other answer) : other = position ∧ answer = result := by
  cases takes with
  | field state =>
      cases takes' with
      | field state' => exact ⟨rfl, (FieldState.resolved.inj (state.symm.trans state')).symm⟩
  | item state =>
      cases takes' with
      | item state' => exact ⟨rfl, (ItemState.resolved.inj (state.symm.trans state')).symm⟩
      | settled state' => cases state.symm.trans state'
  | settled state =>
      cases takes' with
      | item state' => cases state.symm.trans state'
      | settled state' =>
          exact ⟨rfl, congrArg Except.ok (ItemState.settled.inj (state.symm.trans state')).symm⟩
  | object target state =>
      cases takes' with
      | object target' state' =>
          exact ⟨(ObjectTarget.child.inj (target.symm.trans target')).symm,
            (ObjectState.replaced.inj (state.symm.trans state')).symm⟩

theorem TakesUp.offered (takes : step.TakesUp position result) (answer : FieldResult σ) :
    (step.offered answer).TakesUp position answer := by
  cases takes with
  | field => exact TakesUp.field rfl
  | item => exact TakesUp.item rfl
  | settled => exact TakesUp.item rfl
  | object target => exact .object target rfl

theorem TakesUp.spot (takes : step.TakesUp position result) :
    step.spot = .slot position.parent position.key := by
  cases takes with
  | field => rfl
  | item => rfl
  | settled => rfl
  | object target state => simp [Step.spot, ObjectStep.spot, state, target, ObjectState.node?]

theorem TakesUp.spot_waiter (takes : step.TakesUp position result) :
    step.waiter.spot = step.spot := by
  rw [takes.spot]
  cases takes with
  | field => rfl
  | item => rfl
  | settled => rfl
  | object target state => simp [Step.spot, ObjectStep.spot, waiter, target, ObjectState.node?]

end Step

/-! ### Transitions -/

/-- One transition of a step that is still wanted. -/
def Step.advanceAlive (job : Job σ) : Step σ → Engine σ (Progress σ)
  | .object step => step.advanceAlive job
  | .field step => step.advanceAlive job
  | .item step => step.advanceAlive job

theorem Step.advance_alive {step : Step σ} (alive : step.isAlive s.run.draft = true) :
    (step.advance job).runAt s = (step.advanceAlive job).runAt s := by
  cases step with
  | object step =>
      show (if step.target.isAlive s.run.draft then step.advanceAlive job
        else pure .finished : Engine σ (Progress σ)).runAt s = _
      rw [if_pos (by exact alive)]
      rfl
  | field step =>
      show (if s.run.draft.isDead step.parent then pure .finished
        else step.advanceAlive job : Engine σ (Progress σ)).runAt s = _
      rw [if_neg (by simpa [isAlive] using alive)]
      rfl
  | item step =>
      show (if s.run.draft.isDead step.position.parent then pure .finished
        else step.advanceAlive job : Engine σ (Progress σ)).runAt s = _
      rw [if_neg (by simpa [isAlive] using alive)]
      rfl

namespace Step

variable {step : Step σ} {result answer : FieldResult σ} {lazy : Lazy σ (FieldResult σ)}
  {progress : Progress σ}

theorem TakesUp.isAlive (takes : step.TakesUp position result)
    (alive : s.run.draft.Alive position.parent) : step.isAlive s.run.draft = true := by
  have lives : s.run.draft.isDead position.parent = false := alive
  cases takes with
  | field => exact Bool.not_eq_true' _ |>.mpr lives
  | item => simpa [Step.isAlive] using lives
  | settled => simpa [Step.isAlive] using lives
  | object target => simpa [Step.isAlive, ObjectTarget.isAlive, target] using lives

/-- A lazy is waited for at the depth of the position, and nothing else happens. -/
theorem TakesUp.parks (takes : step.TakesUp position (.ok (.lazy lazy)))
    (alive : s.run.draft.Alive position.parent) :
    (step.advance job).Gives s
      (.parked step.waiter (s.run.draft.depth position.parent + 1) (.value (.start lazy))) s := by
  unfold Gives
  rw [advance_alive (takes.isAlive alive)]
  generalize took : Except.ok (ResolvedValue.lazy lazy) = result at takes
  cases takes with
  | field state =>
      subst took
      unfold Step.advanceAlive FieldStep.advanceAlive
      simp only [state]
      rfl
  | item state =>
      subst took
      unfold Step.advanceAlive ItemStep.advanceAlive
      simp only [state]
      rfl
  | settled state =>
      injection took with took
      subst took
      unfold Step.advanceAlive ItemStep.advanceAlive
      simp only [state]
      rfl
  | @object step position _ target state =>
      subst took
      unfold Step.advanceAlive ObjectStep.advanceAlive ObjectStep.failWith ObjectStep.fail
      simp only [state, target]
      unfold ObjectStep.park waiter
      simp only [target]
      rfl

theorem settle_no_lazy {path : Path} {value : ResolvedValue σ}
    (no_lazy : ∀ lazy, result ≠ .ok (.lazy lazy))
    (settled : (settle job path result).Gives s value t) : ∀ lazy, value ≠ .lazy lazy := by
  unfold settle at settled
  split at settled
  · obtain ⟨rfl, -⟩ := gives_pure.mp settled
    exact fun lazy same => no_lazy lazy (congrArg Except.ok same)
  · obtain ⟨rfl, -⟩ := gives_pure.mp settled
    exact fun lazy same => by cases same
  · obtain ⟨error, _, -, done⟩ := gives_bind.mp settled
    obtain ⟨rfl, -⟩ := gives_pure.mp done
    exact fun lazy same => by cases same

/-- The transition of a step that takes up a result which is no lazy: the result is settled to a
value and the position is completed with it, or with what replaces it in another transition. An item
is completed in a transition after the one that settles it. -/
inductive Proceeds (job : Job σ) (position : Position σ) (result : FieldResult σ) :
    Step σ → Stage σ → Progress σ → Stage σ → Prop
  | looks {step : ItemStep σ} {value : ResolvedValue σ} {s u : Stage σ}
      (state : step.state = .resolved result)
      (settled : (settle job (position.path s.run.draft) result).Gives s value u) :
      Proceeds job position result (.item step) s (.again (.item { step with state := .settled value })) u
  | completes {step : Step σ} {value : ResolvedValue σ} {s u t : Stage σ}
      (settled : (settle job (position.path s.run.draft) result).Gives s value u)
      (completed : (position.complete job value).Gives u .done t) :
      Proceeds job position result step s .finished t
  | replaced {step next : Step σ} {value replacement : ResolvedValue σ} {s u t : Stage σ}
      (settled : (settle job (position.path s.run.draft) result).Gives s value u)
      (completed : (position.complete job value).Gives u (.replaced replacement) t)
      (takes : next.TakesUp position (.ok replacement)) :
      Proceeds job position result step s (.again next) t

theorem TakesUp.proceeds (takes : step.TakesUp position result)
    (no_lazy : ∀ lazy, result ≠ .ok (.lazy lazy)) (alive : s.run.draft.Alive position.parent)
    (gives : (step.advance job).Gives s progress t) :
    Proceeds job position result step s progress t := by
  have lives := takes.isAlive alive
  -- With no lazy to take up, completing the position cannot come back with one either.
  have not_waiting {value : ResolvedValue σ} {lazy : Lazy σ (FieldResult σ)} {u v : Stage σ}
      (settled : (settle job (position.path s.run.draft) result).Gives s value u)
      (completed : (position.complete job value).Gives u (.waiting lazy) v) : False :=
    settle_no_lazy no_lazy settled lazy (position.complete_waiting completed).1
  cases takes with
  | @field step result state =>
      cases Step.way gives with
      | dropped dead => cases lives.symm.trans dead
      | field _ way =>
          cases way with
          | completes state' settled completed =>
              cases state.symm.trans state'
              exact .completes settled completed
          | waits state' settled completed =>
              cases state.symm.trans state'
              exact (not_waiting settled completed).elim
          | replaces state' settled completed =>
              cases state.symm.trans state'
              exact .replaced settled completed (.field rfl)
          | _ => cases state.symm.trans ‹step.state = _›
  | @item step result state =>
      cases Step.way gives with
      | dropped dead => cases lives.symm.trans dead
      | item _ way =>
          cases way with
          | waits state' settled =>
              cases state.symm.trans state'
              exact absurd rfl (settle_no_lazy no_lazy settled _)
          | settles state' settled _ =>
              cases state.symm.trans state'
              exact .looks state settled
          | _ => cases state.symm.trans ‹step.state = _›
  | @settled step value state =>
      have settled : (settle job (step.position.path s.run.draft) (.ok value)).Gives s value s :=
        gives_pure.mpr ⟨rfl, rfl⟩
      cases Step.way gives with
      | dropped dead => cases lives.symm.trans dead
      | item _ way =>
          cases way with
          | completes state' completed =>
              cases state.symm.trans state'
              exact .completes settled completed
          | defers state' completed =>
              cases state.symm.trans state'
              exact (not_waiting settled completed).elim
          | replaces state' completed =>
              cases state.symm.trans state'
              exact .replaced settled completed (.settled rfl)
          | _ => cases state.symm.trans ‹step.state = _›
  | @object step position result target state =>
      cases Step.way gives with
      | dropped dead => cases lives.symm.trans dead
      | object _ way =>
          cases way with
          | fails fails gives_way =>
              obtain settled := fails.of_replaced state
              rw [target] at settled
              cases gives_way with
              | root target' => cases target.symm.trans target'
              | completes target' completed =>
                  cases target.symm.trans target'
                  exact .completes settled completed
              | waits target' completed =>
                  cases target.symm.trans target'
                  exact (not_waiting settled completed).elim
              | replaces target' completed =>
                  cases target.symm.trans target'
                  exact .replaced settled completed (.object target rfl)
          | _ => cases state.symm.trans ‹step.state = _›

/-- An item that takes up a value which is no lazy goes on with it, and nothing else happens. -/
theorem TakesUp.item_settles {item : ItemStep σ} {value : ResolvedValue σ}
    (state : item.state = .resolved (.ok value)) (no_lazy : ∀ lazy, value ≠ .lazy lazy)
    (alive : s.run.draft.Alive item.position.parent) :
    (Step.advance (.item item) job).Gives s (.again (.item { item with state := .settled value }))
      s := by
  unfold Gives
  rw [advance_alive (TakesUp.isAlive (.item state) alive)]
  unfold Step.advanceAlive ItemStep.advanceAlive
  simp only [state]
  cases value with
  | lazy lazy => exact absurd rfl (no_lazy lazy)
  | _ => rfl

/-- A failure is settled and written. -/
theorem Proceeds.settles {error : ResolverError}
    (proceeds : Proceeds job position (.error error) step s progress t) :
    Settles job position error step s progress t := by
  cases proceeds with
  | looks state settled =>
      obtain ⟨failure, rfl⟩ := settle_error settled
      exact .item settled
  | completes settled completed =>
      obtain ⟨failure, rfl⟩ := settle_error settled
      obtain ⟨_, u, written, done⟩ := gives_bind.mp completed
      obtain ⟨-, rfl⟩ := gives_pure.mp done
      exact .writes settled written
  | replaced settled completed takes =>
      obtain ⟨failure, rfl⟩ := settle_error settled
      obtain ⟨_, u, written, done⟩ := gives_bind.mp completed
      cases (gives_pure.mp done).1

end Step

end GraphExec
