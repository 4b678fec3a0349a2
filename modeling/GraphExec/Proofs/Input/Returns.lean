import GraphExec.Proofs.Execution
import GraphExec.Proofs.Input.Cases

/-!
# What an attempt returns

Application code that may fail is run in a world; it returns something there, or fails. What a
sequence of attempts returns is read off backward, one attempt after another. Whatever the world, a
coercion returns a value for a value and nothing for nothing.
-/

namespace GraphExec

variable {σ ε α β : Type}

namespace Attempt

/-- The code succeeds in a world. -/
def Returns (attempt : Attempt σ ε α) (world : World σ) (a : α) : Prop :=
  (attempt.run.run world).1 = .ok a

variable {world : World σ} {attempt : Attempt σ ε α}

theorem returns_pure {a b : α} : (pure a : Attempt σ ε α).Returns world b ↔ a = b := by
  show (Except.ok a : Except ε α) = .ok b ↔ a = b
  exact Except.ok.injEq a b ▸ Iff.rfl

theorem returns_throw {error : ε} {a : α} :
    ¬ (throw error : Attempt σ ε α).Returns world a := by
  intro returns
  cases returns

/-- A sequence returns what its rest returns in the world that its first part leaves. -/
theorem returns_bind {f : α → Attempt σ ε β} {b : β} :
    (attempt >>= f).Returns world b ↔
      ∃ a, attempt.Returns world a ∧ (f a).Returns (attempt.run.run world).2 b := by
  have split : (attempt >>= f).run.run world =
      (ExceptT.bindCont f (attempt.run.run world).1).run (attempt.run.run world).2 :=
    Action.run_bind attempt.run (ExceptT.bindCont f) world
  unfold Returns
  rw [split]
  cases (attempt.run.run world).1 with
  | ok a =>
      constructor
      · exact fun returns => ⟨a, rfl, returns⟩
      · rintro ⟨other, same, returns⟩
        injection same with same
        exact same ▸ returns
  | error error =>
      constructor
      · intro returns
        cases returns
      · rintro ⟨other, same, -⟩
        cases same

theorem returns_map {f : α → β} {b : β} :
    (f <$> attempt).Returns world b ↔ ∃ a, attempt.Returns world a ∧ f a = b := by
  have split : (f <$> attempt).run.run world =
      (Action.run (match (attempt.run.run world).1 with
        | .ok a => pure (.ok (f a))
        | .error error => pure (.error error))) (attempt.run.run world).2 :=
    Action.run_bind attempt.run _ world
  unfold Returns
  rw [split]
  cases (attempt.run.run world).1 with
  | ok a =>
      show (Except.ok (f a) : Except ε β) = .ok b ↔ _
      simp
  | error error =>
      show (Except.error error : Except ε β) = .ok b ↔ _
      simp

theorem run_mapError {δ : Type} {tell : δ → ε} (action : Action σ (Except δ α)) :
    ((Except.mapError tell <$> action : Action σ (Except ε α)).run world).1 =
      (action.run world).1.mapError tell :=
  congrArg Prod.fst (Action.run_bind action (fun result => .done (result.mapError tell)) world)

theorem mapError_eq_ok {δ : Type} (tell : δ → ε) {result : Except δ α} {a : α} :
    result.mapError tell = .ok a ↔ result = .ok a := by
  cases result <;> simp [Except.mapError]

theorem returns_adapt {δ : Type} {tell : δ → ε} {attempt : Attempt σ δ α} {a : α} :
    Returns (ExceptT.adapt tell attempt : ExceptT ε (Action σ) α) world a ↔
      attempt.Returns world a := by
  unfold Returns
  rw [← mapError_eq_ok tell, ← run_mapError]
  rfl

theorem returns_callOr {δ : Type} {tell : δ → ε} {action : Action σ (Except δ α)} {a : α} :
    (callOr tell action : Attempt σ ε α).Returns world a ↔ (action.run world).1 = .ok a := by
  rw [← mapError_eq_ok tell, ← run_mapError]
  rfl

theorem Always.of_returns {holds : α → Prop} {a : α} (always : attempt.Always holds)
    (returns : attempt.Returns world a) : holds a :=
  Action.Always.run always world a returns

/-! ### What an attempt fails with -/

/-- The code fails in a world. -/
def Fails (attempt : Attempt σ ε α) (world : World σ) (error : ε) : Prop :=
  (attempt.run.run world).1 = .error error

theorem fails_throw {error other : ε} :
    (throw error : Attempt σ ε α).Fails world other ↔ error = other := by
  show (Except.error error : Except ε α) = .error other ↔ _
  simp

theorem fails_pure {a : α} {error : ε} : ¬ (pure a : Attempt σ ε α).Fails world error := by
  intro fails
  cases fails

/-- A sequence fails where its first part fails, or where its rest does in the world that is left. -/
theorem fails_bind {f : α → Attempt σ ε β} {error : ε} :
    (attempt >>= f).Fails world error ↔
      attempt.Fails world error ∨
        ∃ a, attempt.Returns world a ∧ (f a).Fails (attempt.run.run world).2 error := by
  have split : (attempt >>= f).run.run world =
      (ExceptT.bindCont f (attempt.run.run world).1).run (attempt.run.run world).2 :=
    Action.run_bind attempt.run (ExceptT.bindCont f) world
  unfold Fails Returns
  rw [split]
  cases (attempt.run.run world).1 with
  | ok a =>
      show ((f a).run.run (attempt.run.run world).2).1 = .error error ↔ _
      simp
  | error other =>
      show (Except.error other : Except ε β) = .error error ↔ _
      simp

theorem fails_adapt {δ : Type} {tell : δ → ε} {attempt : Attempt σ δ α} {error : ε} :
    Fails (ExceptT.adapt tell attempt : ExceptT ε (Action σ) α) world error ↔
      ∃ refused, attempt.Fails world refused ∧ error = tell refused := by
  have run : (ExceptT.run (ExceptT.adapt tell attempt : ExceptT ε (Action σ) α)).run world =
      ((Except.mapError tell <$> attempt.run : Action σ (Except ε α)).run world) := rfl
  unfold Fails
  rw [run, run_mapError]
  cases (attempt.run.run world).1 with
  | ok a => simp [Except.mapError]
  | error refused => simp [Except.mapError, eq_comm]

theorem fails_callOr {δ : Type} {tell : δ → ε} {action : Action σ (Except δ α)} {error : ε} :
    (callOr tell action : Attempt σ ε α).Fails world error ↔
      ∃ refused, (action.run world).1 = .error refused ∧ error = tell refused :=
  @fails_adapt _ _ _ _ _ tell (ExceptT.mk action) error

end Attempt

namespace Schema

open Attempt

variable {schema : Schema σ}

theorem always_true {ε α : Type} (attempt : Attempt σ ε α) : attempt.Always fun _ => True :=
  always (fun _ => trivial) attempt

theorem always_some {action : Action σ (Except String Value)} {given : Value} :
    (some <$> callOr InputError.refused action : Attempt σ InputError (Option Value)).Always
      fun result? => result?.isSome = (some given).isSome :=
  Always.bind (always_true (callOr InputError.refused action))
    (f := fun value => (pure (some value) : Attempt σ InputError (Option Value)))
    fun _ _ => always_pure rfl

/-- In every case a coercion returns a value for a value, and nothing for nothing. -/
theorem isSome_cases : schema.CoercionCases
    (fun n type given? => (schema.coerceWithin n type given?).Always
      fun result? => result?.isSome = given?.isSome)
    (fun _ _ _ _ _ => True) (fun _ _ _ _ => True) (fun _ _ _ => True) where
  required n inner given? null := by
    rw [coerceWithin_required null]
    exact always_throw
  nullable n type given? null nullable := by
    rw [coerceWithin_nullable null nullable]
    exact always_pure rfl
  nonNull n inner value not_null ih := by
    rw [coerceWithin_nonNull not_null]
    exact ih
  list n item values _ := by
    rw [coerceWithin_list]
    exact (always_true _).bind fun _ _ => always_pure rfl
  single n item value not_null not_list _ := by
    rw [coerceWithin_single not_null not_list]
    exact (always_true _).bind fun _ _ => always_pure rfl
  scalar n name t value known not_null := by
    rw [coerceWithin_scalar known not_null]
    exact always_some
  enum n name t value known not_null := by
    rw [coerceWithin_enum known not_null]
    exact always_some
  inputObject n name t given known _ := by
    rw [coerceWithin_inputObject known]
    refine (always_true _).bind ?_
    rintro ⟨coerced, rest⟩ -
    cases rest with
    | nil => exact always_pure rfl
    | cons entry rest => exact always_throw
  no_object n name t value known not_null not_object := by
    rw [coerceWithin_no_object known not_null not_object]
    exact always_throw
  no_input n name value no_input not_null := by
    rw [coerceWithin_no_input no_input not_null]
    exact always_throw
  given _ _ _ _ _ _ := trivial
  without _ _ _ _ _ _ := trivial
  endless _ _ _ _ _ := trivial
  default _ _ _ _ _ _ _ := trivial
  no_fields _ _ _ := trivial
  fields _ _ _ _ _ _ _ _ := trivial
  no_items _ _ := trivial
  items _ _ _ _ _ _ := trivial

/-- A coercion returns a value for a value, and nothing for nothing. -/
theorem coerceWithin_always (defaults : Nat) (type : TypeRef) (given? : Option Value) :
    (schema.coerceWithin defaults type given?).Always
      fun result? => result?.isSome = given?.isSome :=
  isSome_cases.within defaults type given?

theorem coerceInput_always (type : TypeRef) (given? : Option Value) :
    (schema.coerceInput type given?).Always fun result? => result?.isSome = given?.isSome :=
  coerceWithin_always _ type given?

end Schema

end GraphExec
