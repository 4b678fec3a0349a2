import GraphExec.Arguments.Coercion

/-!
# The cases of a coercion

What a coercion does, one equation for each case; and a principle by which what holds in every case
holds of all coercions: of values, of the fields of objects, and of the items of lists.
-/

namespace GraphExec

namespace Schema

variable {σ : Type} {schema : Schema σ} {n : Nat} {name : String} {value : Value}
  {given? : Option Value}

/-! ### Values -/

theorem coerceWithin_required (null : given?.getD .null = .null) (inner : TypeRef) :
    schema.coerceWithin n (.nonNull inner) given? = throw (.nullFound (.nonNull inner)) := by
  cases given? with
  | none => rw [coerceWithin]
  | some value =>
      obtain rfl : value = .null := null
      rw [coerceWithin]

/-- Where null is allowed, it stands for itself, and nothing for nothing. -/
theorem coerceWithin_nullable (null : given?.getD .null = .null) {type : TypeRef}
    (nullable : type.isNonNull = false) : schema.coerceWithin n type given? = pure given? := by
  cases given? with
  | none =>
      cases type with
      | nonNull inner => cases nullable
      | _ => rw [coerceWithin]
  | some value =>
      obtain rfl : value = .null := null
      cases type with
      | nonNull inner => cases nullable
      | _ => rw [coerceWithin]

theorem coerceWithin_nonNull (not_null : value ≠ .null) (inner : TypeRef) :
    schema.coerceWithin n (.nonNull inner) (some value) =
      schema.coerceWithin n inner (some value) := by
  rw [coerceWithin]
  exact not_null

theorem coerceWithin_list (item : TypeRef) (values : List Value) :
    schema.coerceWithin n (.list item) (some (.list values)) =
      schema.coerceItems n item values >>= fun results => pure (some (.list results)) := by
  rw [coerceWithin]

theorem coerceWithin_single (not_null : value ≠ .null) (not_list : ∀ values, value ≠ .list values)
    (item : TypeRef) : schema.coerceWithin n (.list item) (some value) =
      schema.coerceWithin n item (some value) >>= fun alone =>
        pure (some (.list [alone.getD .null])) := by
  rw [coerceWithin]
  · exact not_null
  · exact not_list

theorem coerceWithin_scalar {t : ScalarType σ} (known : schema.type? name = some (.scalar t))
    (not_null : value ≠ .null) : schema.coerceWithin n (.named name) (some value) =
      some <$> Attempt.callOr .refused (t.coerceInput value) := by
  rw [coerceWithin, known]
  exact not_null

theorem coerceWithin_enum {t : EnumType} (known : schema.type? name = some (.enum t))
    (not_null : value ≠ .null) : schema.coerceWithin n (.named name) (some value) =
      some <$> Attempt.callOr .refused (pure (t.coerce value)) := by
  rw [coerceWithin, known]
  exact not_null

/-- What is left over when an object has been coerced is refused. -/
def noneLeft (typeName : String) : Fields Value × Fields Value →
    Attempt σ InputError (Option Value)
  | (coerced, []) => pure (some (.object coerced))
  | (_, (unknown, _) :: _) => throw (.unknownField unknown typeName)

theorem coerceWithin_inputObject {t : InputObjectType σ}
    (known : schema.type? name = some (.inputObject t)) (given : Fields Value) :
    schema.coerceWithin n (.named name) (some (.object given)) =
      schema.coerceFields n t.name t.fields given >>= noneLeft t.name := by
  rw [coerceWithin, known]
  · refine congrArg (schema.coerceFields n t.name t.fields given >>= ·) (funext ?_)
    rintro ⟨coerced, _ | ⟨⟨unknown, value⟩, rest⟩⟩ <;> rfl
  · intro null
    cases null

theorem coerceWithin_no_object {t : InputObjectType σ}
    (known : schema.type? name = some (.inputObject t)) (not_null : value ≠ .null)
    (not_object : ∀ given, value ≠ .object given) :
    schema.coerceWithin n (.named name) (some value) = throw (.objectExpected t.name value) := by
  rw [coerceWithin, known]
  · cases value with
    | object given => exact absurd rfl (not_object given)
    | _ => rfl
  · exact not_null

/-- The name is of no type that input is coerced to. -/
def NoInput (schema : Schema σ) (name : String) : Prop :=
  (∀ t, schema.type? name ≠ some (.scalar t)) ∧ (∀ t, schema.type? name ≠ some (.enum t)) ∧
    ∀ t, schema.type? name ≠ some (.inputObject t)

theorem coerceWithin_no_input (no_input : schema.NoInput name) (not_null : value ≠ .null) :
    schema.coerceWithin n (.named name) (some value) = throw (.notInputType name) := by
  obtain ⟨not_scalar, not_enum, not_input⟩ := no_input
  rw [coerceWithin]
  · cases known : schema.type? name with
    | none => rfl
    | some type =>
        cases type with
        | scalar t => exact absurd known (not_scalar t)
        | enum t => exact absurd known (not_enum t)
        | inputObject t => exact absurd known (not_input t)
        | _ => rfl
  · exact not_null

/-! ### Items of lists -/

theorem coerceItems_nil (type : TypeRef) : schema.coerceItems n type [] = pure [] := by
  rw [coerceItems]

theorem coerceItems_cons (type : TypeRef) (item : Value) (rest : List Value) :
    schema.coerceItems n type (item :: rest) =
      schema.coerceWithin n type (some item) >>= fun result? =>
        schema.coerceItems n type rest >>= fun results =>
          pure (result?.getD .null :: results) := by
  rw [coerceItems]

/-! ### Fields of objects -/

/-- Coerces what is given for a field, else its default, which is one more inside the others. -/
def coerceField (schema : Schema σ) (typeName name : String) (definition : InputDefinition σ)
    (given? : Option Value) (n : Nat) : Attempt σ InputError (Option Value) :=
  match given?, definition.default?, n with
  | none, some _, 0 => throw (.endlessDefault name typeName)
  | none, some value, n + 1 => schema.coerceWithin n definition.type (some value)
  | _, _, n => schema.coerceWithin n definition.type given?

theorem coerceField_given (typeName name : String) (definition : InputDefinition σ)
    (value : Value) (n : Nat) :
    schema.coerceField typeName name definition (some value) n =
      schema.coerceWithin n definition.type (some value) := by
  cases definition.default? <;> rfl

variable {definition : InputDefinition σ}

theorem coerceField_without (without : definition.default? = none) (typeName name : String)
    (n : Nat) : schema.coerceField typeName name definition none n =
      schema.coerceWithin n definition.type none := by
  unfold coerceField
  rw [without]

theorem coerceField_zero (stands : definition.default? = some value) (typeName name : String) :
    schema.coerceField typeName name definition none 0 = throw (.endlessDefault name typeName) := by
  unfold coerceField
  rw [stands]

theorem coerceField_succ (stands : definition.default? = some value) (typeName name : String)
    (n : Nat) : schema.coerceField typeName name definition none (n + 1) =
      schema.coerceWithin n definition.type (some value) := by
  unfold coerceField
  rw [stands]

theorem coerceFields_nil (typeName : String) (given : Fields Value) :
    schema.coerceFields n typeName [] given = pure ([], given) := by
  rw [coerceFields]

theorem coerceFields_cons (n : Nat) (typeName name : String) (definition : InputDefinition σ)
    (others : Fields (InputDefinition σ)) (fields : Fields Value) :
    schema.coerceFields n typeName ((name, definition) :: others) fields =
      (ExceptT.adapt (.inField name)
          (schema.coerceField typeName name definition (Fields.get? fields name) n) :
        Attempt σ InputError (Option Value)) >>= fun value? =>
      schema.coerceFields n typeName others (Fields.erase fields name) >>= fun coerced =>
        pure ((value?.map (name, ·)).toList ++ coerced.1, coerced.2) := by
  rw [coerceFields]
  refine congr (congrArg _ (congrArg _ ?_)) (funext fun value? => ?_)
  · split
    · rename_i value found
      rw [found, coerceField_given]
    · rename_i absent without
      rw [absent, coerceField_without without]
    · rename_i value absent stands
      rw [absent]
      cases n with
      | zero => exact (coerceField_zero stands typeName name).symm
      | succ n => exact (coerceField_succ stands typeName name n).symm
  · refine bind_congr fun coerced => ?_
    cases value? <;> rfl

/-! ### All of them -/

/-- What holds of coercions of values, of fields, of objects and of lists if it holds of the
coercions inside them. -/
structure CoercionCases (schema : Schema σ) (within : Nat → TypeRef → Option Value → Prop)
    (field : Nat → String → String → InputDefinition σ → Option Value → Prop)
    (fields : Nat → String → Fields (InputDefinition σ) → Fields Value → Prop)
    (items : Nat → TypeRef → List Value → Prop) : Prop where
  required : ∀ n inner given?, given?.getD .null = .null → within n (.nonNull inner) given?
  nullable : ∀ n type given?, given?.getD .null = .null → type.isNonNull = false →
    within n type given?
  nonNull : ∀ n inner value, value ≠ .null → within n inner (some value) →
    within n (.nonNull inner) (some value)
  list : ∀ n item values, items n item values → within n (.list item) (some (.list values))
  single : ∀ n item value, value ≠ .null → (∀ values, value ≠ .list values) →
    within n item (some value) → within n (.list item) (some value)
  scalar : ∀ n name t value, schema.type? name = some (.scalar t) → value ≠ .null →
    within n (.named name) (some value)
  enum : ∀ n name t value, schema.type? name = some (.enum t) → value ≠ .null →
    within n (.named name) (some value)
  inputObject : ∀ n name t given, schema.type? name = some (.inputObject t) →
    fields n t.name t.fields given → within n (.named name) (some (.object given))
  no_object : ∀ n name t value, schema.type? name = some (.inputObject t) → value ≠ .null →
    (∀ given, value ≠ .object given) → within n (.named name) (some value)
  no_input : ∀ n name value, schema.NoInput name → value ≠ .null →
    within n (.named name) (some value)
  given : ∀ n typeName name definition value, within n definition.type (some value) →
    field n typeName name definition (some value)
  without : ∀ n typeName name definition, definition.default? = none →
    within n definition.type none → field n typeName name definition none
  endless : ∀ typeName name definition value, definition.default? = some value →
    field 0 typeName name definition none
  default : ∀ n typeName name definition value, definition.default? = some value →
    within n definition.type (some value) → field (n + 1) typeName name definition none
  no_fields : ∀ n typeName given, fields n typeName [] given
  fields : ∀ n typeName name definition others given,
    field n typeName name definition (Fields.get? given name) →
      fields n typeName others (Fields.erase given name) →
        fields n typeName ((name, definition) :: others) given
  no_items : ∀ n type, items n type []
  items : ∀ n type item rest, within n type (some item) → items n type rest →
    items n type (item :: rest)

/-- What holds in every case holds of all coercions. -/
theorem CoercionCases.within {within : Nat → TypeRef → Option Value → Prop}
    {field : Nat → String → String → InputDefinition σ → Option Value → Prop}
    {fields : Nat → String → Fields (InputDefinition σ) → Fields Value → Prop}
    {items : Nat → TypeRef → List Value → Prop}
    (cases : schema.CoercionCases within field fields items) (n : Nat) (type : TypeRef)
    (given? : Option Value) : within n type given? := by
  refine (coerceWithin.mutual_induct schema within fields items
    (fun n inner => cases.required n inner none rfl)
    (fun n inner => cases.required n inner (some .null) rfl) cases.nonNull
    (fun n item => cases.nullable n (.list item) none rfl rfl)
    (fun n item => cases.nullable n (.list item) (some .null) rfl rfl) cases.list cases.single
    (fun n name => cases.nullable n (.named name) none rfl rfl)
    (fun n name => cases.nullable n (.named name) (some .null) rfl rfl)
    (fun n name value not_null t known => cases.scalar n name t value known not_null)
    (fun n name value not_null t known => cases.enum n name t value known not_null)
    (fun n name t known given _ => cases.inputObject n name t given known)
    (fun n name t known value not_object not_null =>
      cases.no_object n name t value known not_null not_object)
    (fun n name value not_null not_scalar not_enum not_input =>
      cases.no_input n name value ⟨not_scalar, not_enum, not_input⟩ not_null)
    cases.no_fields ?_ cases.no_items cases.items).1 n type given?
  intro n typeName given name definition others of_given of_none of_default behind
  refine cases.fields n typeName name definition others given ?_ behind
  cases found : Fields.get? given name with
  | some value => exact cases.given n typeName name definition value (of_given value found)
  | none =>
      cases stands : definition.default? with
      | none => exact cases.without n typeName name definition stands (of_none found)
      | some value =>
          cases n with
          | zero => exact cases.endless typeName name definition value stands
          | succ n => exact cases.default n typeName name definition value stands (of_default value)

end Schema

end GraphExec
