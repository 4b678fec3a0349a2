import Mathlib
import GraphExec.Proofs.Inputs

/-!
# Variables

The variables of an operation are coerced in the order of their definitions, each from the value
that is provided for it, else from its default, else from nothing. They are bound if all of these
coercions return; the first that fails is reported. What else is provided, and in which order,
makes no difference.
-/

namespace GraphExec

variable {σ : Type}

open Attempt

/-- What a variable is coerced from: the value that is provided for it, null included, else its
default, else nothing. -/
def VariableDefinition.given? (definition : VariableDefinition) (provided : Fields Json) :
    Option Value :=
  ((Fields.get? provided definition.name).map Value.ofJson).or definition.default?

theorem VariableDefinition.given?_isNone {definition : VariableDefinition}
    {provided : Fields Json} : (definition.given? provided).isNone = true ↔
      (Fields.get? provided definition.name).isNone ∧ definition.default?.isNone := by
  simp [VariableDefinition.given?]

/-- How it is reported that a variable cannot be coerced. -/
def VariableDefinition.refusal (definition : VariableDefinition) (provided : Fields Json)
    (error : InputError) : RequestError :=
  if (Fields.get? provided definition.name).isNone ∧ definition.default?.isNone then
    .missingVariable definition.name definition.type
  else .invalidVariable definition.name error

/-- The coercion of a variable. -/
structure VariableCoercion where
  /-- The variable. -/
  definition : VariableDefinition
  /-- What the coercion comes to. -/
  result : Except InputError (Option Value)

/-- The variable has been coerced. -/
def VariableCoercion.Succeeds (coercion : VariableCoercion) : Prop :=
  ∃ value?, coercion.result = .ok value?

/-- The variable with its value, if it has one. -/
def VariableCoercion.binding? (coercion : VariableCoercion) : Option (String × Value) :=
  coercion.result.toOption.join.map (coercion.definition.name, ·)

namespace Schema

variable {schema : Schema σ} {provided : Fields Json} {world : World σ}

/-- What each variable is coerced to, one after another: each in the world that those before it
leave behind. -/
def coercions (schema : Schema σ) (provided : Fields Json) :
    List VariableDefinition → World σ → List VariableCoercion
  | [], _ => []
  | definition :: rest, world =>
    let coercion := schema.coerceInput definition.type (definition.given? provided)
    let coerced := coercion.run.run world
    ⟨definition, coerced.1⟩ :: schema.coercions provided rest coerced.2

/-! ### A single variable -/

theorem returns_variable {definition : VariableDefinition} {value? : Option Value} :
    (schema.coerceVariable provided definition).Returns world value? ↔
      (schema.coerceInput definition.type (definition.given? provided)).Returns world value? :=
  returns_adapt

theorem fails_variable {definition : VariableDefinition} {error : RequestError} :
    (schema.coerceVariable provided definition).Fails world error ↔
      ∃ refused,
        (schema.coerceInput definition.type (definition.given? provided)).Fails world refused ∧
          error = definition.refusal provided refused := by
  unfold VariableDefinition.refusal
  simp only [← VariableDefinition.given?_isNone]
  exact fails_adapt

theorem world_variable {definition : VariableDefinition} :
    ((schema.coerceVariable provided definition).run.run world).2 =
      ((schema.coerceInput definition.type (definition.given? provided)).run.run world).2 :=
  congrArg Prod.snd (Action.run_bind
    (schema.coerceInput definition.type (definition.given? provided)).run _ world)

/-! ### What else is provided -/

theorem coerceVariable_congr {other : Fields Json} {definition : VariableDefinition}
    (same : Fields.get? other definition.name = Fields.get? provided definition.name) :
    schema.coerceVariable other definition = schema.coerceVariable provided definition := by
  unfold coerceVariable
  rw [same]

/-- Under distinct names the variables behind one have other names. -/
theorem names_apart {definition : VariableDefinition} {rest : List VariableDefinition}
    (distinct : ((definition :: rest).map (·.name)).Nodup) :
    ∀ next ∈ rest, next.name ≠ definition.name := by
  intro next mem same
  have absent := (List.nodup_cons.mp distinct).1
  exact absent (List.mem_map.mpr ⟨next, mem, same⟩)

/-- Coercing the variables depends on what is provided for them alone. -/
theorem coerceVariables_congr {definitions : List VariableDefinition}
    (distinct : (definitions.map (·.name)).Nodup) {other : Fields Json}
    (same : ∀ definition ∈ definitions,
      Fields.get? other definition.name = Fields.get? provided definition.name)
    (bindings : Fields Value) :
    schema.coerceVariables other bindings definitions =
      schema.coerceVariables provided bindings definitions := by
  induction definitions generalizing other provided bindings with
  | nil => rfl
  | cons definition rest ih =>
      have later : ∀ next ∈ rest,
          Fields.get? (Fields.erase other definition.name) next.name =
            Fields.get? (Fields.erase provided definition.name) next.name := by
        intro next mem
        have apart := names_apart distinct next mem
        rw [Fields.get?_erase_of_ne apart, Fields.get?_erase_of_ne apart]
        exact same next (List.mem_cons_of_mem _ mem)
      have ih := fun bindings => ih (List.nodup_cons.mp distinct).2 later bindings
      unfold coerceVariables
      rw [coerceVariable_congr (same definition List.mem_cons_self)]
      simp only [ih]

/-- A variable of another name may be taken out of what is provided. -/
theorem coerceVariables_erase {definition : VariableDefinition}
    {rest : List VariableDefinition} (distinct : ((definition :: rest).map (·.name)).Nodup)
    (bindings : Fields Value) :
    schema.coerceVariables (Fields.erase provided definition.name) bindings rest =
      schema.coerceVariables provided bindings rest := by
  have apart := names_apart distinct
  exact coerceVariables_congr (List.nodup_cons.mp distinct).2
    (fun next mem => Fields.get?_erase_of_ne (apart next mem)) bindings

/-! ### All variables -/

/-- A variable with the value that it is bound to, if it is bound. -/
def binding (definition : VariableDefinition) (value? : Option Value) : Fields Value :=
  (value?.map (definition.name, ·)).toList

theorem coerceVariables_cons {definition : VariableDefinition}
    {rest : List VariableDefinition} (distinct : ((definition :: rest).map (·.name)).Nodup)
    {bindings : Fields Value} (fresh : definition.name ∉ bindings.keys) :
    schema.coerceVariables provided bindings (definition :: rest) =
      schema.coerceVariable provided definition >>= fun value? =>
        schema.coerceVariables provided (bindings ++ binding definition value?) rest := by
  rw [coerceVariables]
  simp only [coerceVariables_erase distinct, Fields.insert_of_not_mem fresh]
  refine bind_congr fun value? => ?_
  cases value? with
  | none => rw [binding, Option.map_none, Option.toList_none, List.append_nil]
  | some value => rfl

/-- The variables behind one are not among the bindings after it either. -/
theorem fresh_behind {definition : VariableDefinition} {rest : List VariableDefinition}
    (distinct : ((definition :: rest).map (·.name)).Nodup) {bindings : Fields Value}
    (fresh : ∀ next ∈ definition :: rest, next.name ∉ bindings.keys) (value? : Option Value) :
    ∀ next ∈ rest, next.name ∉ (bindings ++ binding definition value?).keys := by
  intro next mem
  have absent := fresh next (List.mem_cons_of_mem _ mem)
  have apart := names_apart distinct next mem
  cases value? with
  | none => simpa [binding] using absent
  | some value =>
      simp only [Fields.keys, binding, List.map_append, List.mem_append] at absent ⊢
      simp [absent, apart]

/-- The variables are bound if every one of them can be coerced: those that have a value, in
order. -/
theorem returns_variables {definitions : List VariableDefinition}
    (distinct : (definitions.map (·.name)).Nodup) {bindings bound : Fields Value}
    (fresh : ∀ definition ∈ definitions, definition.name ∉ bindings.keys) :
    (schema.coerceVariables provided bindings definitions).Returns world bound ↔
      (∀ coercion ∈ schema.coercions provided definitions world, coercion.Succeeds) ∧
        bound = bindings ++
          (schema.coercions provided definitions world).filterMap (·.binding?) := by
  induction definitions generalizing bindings world with
  | nil =>
      unfold coerceVariables coercions
      rw [returns_pure]
      simp [eq_comm]
  | cons definition rest ih =>
      have ih := fun value? (left : World σ) => @ih left (List.nodup_cons.mp distinct).2 _
        (fresh_behind distinct fresh value?)
      rw [coerceVariables_cons distinct (fresh _ List.mem_cons_self), returns_bind]
      simp only [ih, world_variable, returns_variable, coercions, List.forall_mem_cons]
      unfold Returns
      cases ((schema.coerceInput definition.type (definition.given? provided)).run.run world).1 with
      | ok value? =>
          cases value? <;>
            simp [VariableCoercion.Succeeds, VariableCoercion.binding?, binding, Except.toOption]
      | error error => simp [VariableCoercion.Succeeds]

/-- The first variable that cannot be coerced is reported. -/
theorem fails_variables {definitions : List VariableDefinition}
    (distinct : (definitions.map (·.name)).Nodup) {bindings : Fields Value}
    (fresh : ∀ definition ∈ definitions, definition.name ∉ bindings.keys) {error : RequestError} :
    (schema.coerceVariables provided bindings definitions).Fails world error ↔
      ∃ before definition refused behind,
        schema.coercions provided definitions world =
            before ++ ⟨definition, .error refused⟩ :: behind ∧
          (∀ coercion ∈ before, coercion.Succeeds) ∧
          error = definition.refusal provided refused := by
  induction definitions generalizing bindings world with
  | nil =>
      unfold coerceVariables coercions
      simp [fails_pure]
  -- What is provided for one variable is taken out for those behind it, which is not noticed under
  -- distinct names: so the induction goes through with the same provided values.
  | cons definition rest ih =>
      have ih := fun value? (left : World σ) => @ih left (List.nodup_cons.mp distinct).2 _
        (fresh_behind distinct fresh value?)
      rw [coerceVariables_cons distinct (fresh _ List.mem_cons_self), fails_bind, fails_variable]
      simp only [ih, world_variable, returns_variable, coercions]
      unfold Returns Fails
      cases ((schema.coerceInput definition.type (definition.given? provided)).run.run world).1 with
      -- The first one succeeds, so the one that fails is further behind.
      | ok value? =>
          constructor
          · rintro (⟨refused, wrong, -⟩ | ⟨value?, -, before, found⟩)
            · cases wrong
            · obtain ⟨definition, refused, behind, split, succeed, rfl⟩ := found
              exact ⟨_ :: before, definition, refused, behind, congrArg _ split,
                List.forall_mem_cons.mpr ⟨⟨_, rfl⟩, succeed⟩, rfl⟩
          · rintro ⟨before, definition, refused, behind, split, succeed, rfl⟩
            cases before with
            | nil => cases split
            | cons first before =>
                injection split with _ split
                exact .inr ⟨value?, rfl, before, definition, refused, behind, split,
                  (List.forall_mem_cons.mp succeed).2, rfl⟩
      -- The first one fails, so nothing stands before it.
      | error refused =>
          constructor
          · rintro (⟨refused, same, rfl⟩ | ⟨value?, wrong, -⟩)
            · exact ⟨[], definition, refused, _, by rw [same]; rfl, nofun, rfl⟩
            · cases wrong
          · rintro ⟨before, definition, refused, behind, split, succeed, rfl⟩
            cases before with
            | nil =>
                injection split with same
                injection same with same same'
                exact .inl ⟨refused, same', same ▸ rfl⟩
            | cons first before =>
                injection split with same
                obtain ⟨value?, wrong⟩ := succeed first List.mem_cons_self
                rw [← same] at wrong
                cases wrong

/-- Once they have all been coerced, the bound ones are those with something to be coerced from. -/
theorem names_bound {definitions : List VariableDefinition}
    (succeed : ∀ coercion ∈ schema.coercions provided definitions world, coercion.Succeeds) :
    Fields.keys ((schema.coercions provided definitions world).filterMap (·.binding?)) =
      (definitions.filter fun definition => (definition.given? provided).isSome).map (·.name) := by
  induction definitions generalizing world with
  | nil => rfl
  | cons definition rest ih =>
      unfold coercions at succeed ⊢
      obtain ⟨⟨value?, returns⟩, succeed⟩ := List.forall_mem_cons.mp succeed
      have stands : value?.isSome = (definition.given? provided).isSome :=
        (coerceInput_always definition.type (definition.given? provided)).of_returns returns
      have ih := ih succeed
      simp only [Fields.keys, List.filterMap_cons, List.filter_cons,
        VariableCoercion.binding?] at ih returns ⊢
      rw [returns, ← stands]
      cases value? with
      | none => exact ih
      | some value => exact congrArg (definition.name :: ·) ih

/-- The variables can be coerced if each of them can: from what is provided for it, null included,
else from its default, else from nothing. The bound ones are then those that are provided or have
defaults, in the order of the definitions. Else the first that cannot be coerced is reported: as
missing if it is neither provided nor has a default. What is provided for other names, and in which
order, makes no difference. -/
theorem variables_coerced {definitions : List VariableDefinition}
    (distinct : (definitions.map (·.name)).Nodup) (schema : Schema σ) (provided : Fields Json)
    (world : World σ) :
    (∀ bound, (schema.coerceVariables provided [] definitions).Returns world bound ↔
      (∀ coercion ∈ schema.coercions provided definitions world, coercion.Succeeds) ∧
        bound = (schema.coercions provided definitions world).filterMap (·.binding?)) ∧
    (∀ bound, (schema.coerceVariables provided [] definitions).Returns world bound →
      bound.keys =
        (definitions.filter fun definition => (definition.given? provided).isSome).map (·.name)) ∧
    (∀ error, (schema.coerceVariables provided [] definitions).Fails world error ↔
      ∃ before definition refused behind,
        schema.coercions provided definitions world =
            before ++ ⟨definition, .error refused⟩ :: behind ∧
          (∀ coercion ∈ before, coercion.Succeeds) ∧
          error = definition.refusal provided refused) ∧
    ∀ other, (∀ definition ∈ definitions,
        Fields.get? other definition.name = Fields.get? provided definition.name) →
      schema.coerceVariables other [] definitions =
        schema.coerceVariables provided [] definitions := by
  have returns : ∀ bound, (schema.coerceVariables provided [] definitions).Returns world bound ↔
      (∀ coercion ∈ schema.coercions provided definitions world, coercion.Succeeds) ∧
        bound = (schema.coercions provided definitions world).filterMap (·.binding?) :=
    fun bound => returns_variables distinct fun _ _ => List.not_mem_nil
  refine ⟨returns, ?_, fun error => fails_variables distinct fun _ _ => List.not_mem_nil, ?_⟩
  · intro bound bind
    obtain ⟨succeed, rfl⟩ := (returns bound).mp bind
    exact names_bound succeed
  · exact fun other same => coerceVariables_congr distinct same []

/-- One variable is null, one has its default, one is left out; and one that must be there is
missing. -/
theorem variables_coerced_measured :
    let definitions : List VariableDefinition :=
      [{ name := "share", type := .named "Percent", default? := some (.int 250) },
        { name := "ranges", type := .list (.named "Range"), default? := some (.list []) },
        { name := "unit", type := .named "String", default? := none }]
    let needed : VariableDefinition :=
      { name := "needed", type := .nonNull (.named "Range"), default? := none }
    let provided : Fields Json := [("other", .bool true), ("ranges", .null)]
    let world : World Unit := ⟨(), fun _ state => state, []⟩
    (measured.coerceVariables provided [] definitions).Returns world
        [("share", .int 100), ("ranges", .null)] ∧
      (measured.coerceVariables provided [] (definitions ++ [needed])).Fails world
        (.missingVariable "needed" (.nonNull (.named "Range"))) := by
  intro definitions needed provided world
  constructor
  · have coerced : measured.coercions provided definitions world =
        [⟨definitions[0], .ok (some (.int 100))⟩, ⟨definitions[1], .ok (some .null)⟩,
          ⟨definitions[2], .ok none⟩] := by cbv
    refine ((variables_coerced (by decide) measured provided world).1 _).mpr ?_
    rw [coerced]
    exact ⟨by simp [VariableCoercion.Succeeds], rfl⟩
  · let before : List VariableCoercion :=
      [⟨definitions[0], .ok (some (.int 100))⟩, ⟨definitions[1], .ok (some .null)⟩,
        ⟨definitions[2], .ok none⟩]
    have coerced : measured.coercions provided (definitions ++ [needed]) world =
        before ++ [⟨needed, .error (.nullFound needed.type)⟩] := by cbv
    refine ((variables_coerced (by decide) measured provided world).2.2.1 _).mpr
      ⟨before, needed, _, [], coerced, ?_, rfl⟩
    simp [before, VariableCoercion.Succeeds]

end Schema

end GraphExec
