import GraphExec.Run.State

/-!
# What transitions answer

A transition is a program over a stage. `Gives` says what it answers and which stage it leaves;
one equivalence per operation reads a program off, line by line.
-/

namespace GraphExec

namespace Engine

variable {σ α β : Type}

/-- The answer of a program at a stage, and the stage that it leaves. -/
def runAt (program : Engine σ α) (stage : Stage σ) : Except FatalError α × Stage σ :=
  program.run.run stage

/-- A program answers at a stage, and leaves another one. -/
def Gives (program : Engine σ α) (stage : Stage σ) (answer : α) (after : Stage σ) : Prop :=
  program.runAt stage = (.ok answer, after)

/-- A program answers in one way. -/
theorem Gives.unique {program : Engine σ α} {stage s t : Stage σ} {a b : α}
    (one : program.Gives stage a s) (other : program.Gives stage b t) : a = b ∧ s = t := by
  have same := one.symm.trans other
  injection same with answer after
  injection answer with answer
  exact ⟨answer, after⟩

/-- A program ends in a fatal error at a stage. -/
def Fails (program : Engine σ α) (stage : Stage σ) (error : FatalError) : Prop :=
  (program.runAt stage).1 = .error error

theorem runAt_bind (x : Engine σ α) (f : α → Engine σ β) (s : Stage σ) :
    (x >>= f).runAt s =
      match x.runAt s with
      | (.ok a, t) => (f a).runAt t
      | (.error e, t) => (.error e, t) := by
  unfold runAt
  rw [ExceptT.run_bind, StateT.run_bind]
  cases h : x.run.run s with
  | mk result t => cases result <;> rfl

@[simp] theorem gives_pure {a b : α} {s t : Stage σ} :
    Gives (pure a : Engine σ α) s b t ↔ a = b ∧ s = t := by
  constructor
  · intro h
    injection h with h h'
    injection h with h
    exact ⟨h, h'⟩
  · rintro ⟨rfl, rfl⟩
    rfl

@[simp] theorem gives_bind {x : Engine σ α} {f : α → Engine σ β} {s t : Stage σ} {b : β} :
    Gives (x >>= f) s b t ↔ ∃ a u, Gives x s a u ∧ Gives (f a) u b t := by
  unfold Gives
  rw [runAt_bind]
  rcases x.runAt s with ⟨e | a, u⟩
  · simp
  · constructor
    · intro h
      exact ⟨a, u, rfl, h⟩
    · rintro ⟨_, _, h, h'⟩
      injection h with h h''
      injection h with h
      subst h h''
      exact h'

@[simp] theorem not_gives_throw {error : FatalError} {s t : Stage σ} {a : α} :
    ¬ Gives (throw error : Engine σ α) s a t := by
  intro h
  injection h with h
  cases h

theorem fails_throw (error : FatalError) (s : Stage σ) :
    Fails (throw error : Engine σ α) s error := rfl

theorem fails_bind {x : Engine σ α} {f : α → Engine σ β} {s : Stage σ} {error : FatalError} :
    Fails (x >>= f) s error ↔ Fails x s error ∨ ∃ a t, Gives x s a t ∧ Fails (f a) t error := by
  unfold Fails Gives
  rw [runAt_bind]
  rcases x.runAt s with ⟨e | a, t⟩
  · simp
  · constructor
    · exact fun h => .inr ⟨a, t, rfl, h⟩
    · rintro (h | ⟨_, _, h, h'⟩)
      · cases h
      · injection h with h h''
        injection h with h
        subst h h''
        exact h'

/-- What a program answers is no fatal error. -/
theorem Gives.not_fails {program : Engine σ α} {s t : Stage σ} {a : α}
    (gives : program.Gives s a t) (error : FatalError) : ¬ program.Fails s error := by
  intro fails
  have answered : (program.runAt s).1 = .ok a := congrArg Prod.fst gives
  cases answered.symm.trans fails

@[simp] theorem gives_call {action : Action σ α} {s t : Stage σ} {a : α} :
    Gives (call action) s a t ↔
      (action.run s.world).1 = a ∧ { s with world := (action.run s.world).2 } = t := by
  constructor
  · intro h
    injection h with h h'
    injection h with h
    exact ⟨h, h'⟩
  · rintro ⟨rfl, rfl⟩
    rfl

@[simp] theorem gives_tell {event : Event} {s t : Stage σ} {u : Unit} :
    Gives (tell event) s u t ↔ { s with world := s.world.tell event } = t := by
  constructor
  · intro h
    injection h
  · rintro rfl
    rfl

@[simp] theorem gives_draft {s t : Stage σ} {d : Draft} :
    Gives (draft : Engine σ Draft) s d t ↔ s.run.draft = d ∧ s = t := by
  constructor
  · intro h
    injection h with h h'
    injection h with h
    exact ⟨h, h'⟩
  · rintro ⟨rfl, rfl⟩
    rfl

@[simp] theorem gives_modifyRun {f : Run σ → Run σ} {s t : Stage σ} {u : Unit} :
    Gives (modifyRun f) s u t ↔ { s with run := f s.run } = t := by
  constructor
  · intro h
    injection h
  · rintro rfl
    rfl

@[simp] theorem gives_modifyDraft {f : Draft → Draft} {s t : Stage σ} {u : Unit} :
    Gives (modifyDraft f) s u t ↔
      { s with run := { s.run with draft := f s.run.draft } } = t :=
  gives_modifyRun

@[simp] theorem gives_report {error : ExecutionError} {s t : Stage σ} {u : Unit} :
    Gives (report error) s u t ↔
      { s with run := { s.run with errors := s.run.errors ++ [error] } } = t :=
  gives_modifyRun

@[simp] theorem gives_enqueue {step : Step σ} {s t : Stage σ} {u : Unit} :
    Gives (enqueue step) s u t ↔
      { s with run := { s.run with ready := s.run.ready ++ [step] } } = t :=
  gives_modifyRun

@[simp] theorem gives_hold {step : Step σ} {s t : Stage σ} {u : Unit} :
    Gives (hold step) s u t ↔ { s with run := { s.run with held := s.run.held ++ [step] } } = t :=
  gives_modifyRun

@[simp] theorem gives_allocate {f : Draft → NodeId × Draft} {s t : Stage σ} {id : NodeId} :
    Gives (allocate f) s id t ↔
      (f s.run.draft).1 = id ∧
        { s with run := { s.run with draft := (f s.run.draft).2 } } = t := by
  constructor
  · intro h
    injection h with h h'
    injection h with h
    exact ⟨h, h'⟩
  · rintro ⟨rfl, rfl⟩
    rfl

end Engine

end GraphExec
