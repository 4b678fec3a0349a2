import GraphExec.Proofs.Fields
import GraphExec.Proofs.Input.Arguments

/-!
# Schemas that differ in timing

Two schemas are alike for arguments if their types are the same but for the hooks that authorize
objects, and these answer the same in the end. Two definitions are alike if they are the same but
for their loads, and these bring the same in the end. What an argument comes to is the same then.
-/

namespace GraphExec

variable {σ ε α : Type}

/-- Hooks that answer the same in the end, at once or later. -/
def SameInTime (loads : Loads) (first second : Action σ (Answer σ ε α)) : Prop :=
  ∀ state, (first.answer state).result? loads state = (second.answer state).result? loads state

/-- Loads that bring the same in the end, at once or later. -/
def SameLoads (loads : Loads) (first second : Action σ (Except ε (Answer σ ε α))) : Prop :=
  ∀ state, ((first.answer state).toOption.bind (·.result? loads state)) =
    (second.answer state).toOption.bind (·.result? loads state)

/-- Types that are the same but for when the authorization of objects is answered. -/
inductive TypeDefinition.Alike (loads : Loads) : TypeDefinition σ → TypeDefinition σ → Prop
  | same (type : TypeDefinition σ) : Alike loads type type
  | object (type : ObjectType σ)
      {authorize? : Option (AppValue → QueryContext → Action σ (Answer σ ResolverError Bool))}
      (same : Option.Rel (fun first second => ∀ object query,
        SameInTime loads (first object query) (second object query)) type.authorize? authorize?) :
      Alike loads (.object type) (.object { type with authorize? })

/-- Schemas whose types are the same but for when the authorization of objects is answered. -/
def Schema.Alike (loads : Loads) (first second : Schema σ) : Prop :=
  List.Forall₂ (fun entry other => entry.1 = other.1 ∧ entry.2.Alike loads other.2)
    first.types second.types

/-- Definitions that are the same but for when their loads are answered. -/
structure InputDefinition.Alike (loads : Loads) (first second : InputDefinition σ) : Prop where
  name : first.name = second.name
  type : first.type = second.type
  default? : first.default? = second.default?
  prepare? : first.prepare? = second.prepare?
  loading : Option.Rel (fun load other => load.1 = other.1 ∧ ∀ value query,
    SameLoads loads (load.2 value query) (other.2 value query)) first.loads? second.loads?

namespace Schema

variable {schema schema' : Schema σ} {loads : Loads}

theorem Alike.type? (alike : schema.Alike loads schema') (name : String) :
    Option.Rel (TypeDefinition.Alike loads) (schema.type? name) (schema'.type? name) := by
  unfold Schema.type?
  unfold Schema.Alike at alike
  generalize schema.types = types at alike ⊢
  generalize schema'.types = types' at alike ⊢
  induction alike with
  | nil => exact .none
  | @cons entry other _ _ same _ ih =>
      obtain ⟨key, type⟩ := entry
      obtain ⟨key', type'⟩ := other
      obtain ⟨rfl, same⟩ := same
      unfold Fields.get?
      split
      · exact .some same
      · exact ih

/-- What is not an object type is the same in both schemas. -/
theorem Alike.type?_eq_iff (alike : schema.Alike loads schema') {name : String}
    {type : TypeDefinition σ} (no_object : ∀ t, type ≠ .object t) :
    schema.type? name = some type ↔ schema'.type? name = some type := by
  have related := alike.type? name
  generalize schema.type? name = found at related ⊢
  generalize schema'.type? name = found' at related ⊢
  cases related with
  | none => exact Iff.rfl
  | some same =>
      cases same with
      | same => exact Iff.rfl
      | object t _ =>
          constructor <;> exact fun known => absurd (Option.some.inj known).symm (no_object _)

theorem Alike.type?_eq (alike : schema.Alike loads schema') {name : String}
    {type : TypeDefinition σ} (known : schema.type? name = some type)
    (no_object : ∀ t, type ≠ .object t) : schema'.type? name = some type :=
  (alike.type?_eq_iff no_object).mp known

theorem Alike.type?_eq_of (alike : schema.Alike loads schema') {name : String}
    {type : TypeDefinition σ} (known : schema'.type? name = some type)
    (no_object : ∀ t, type ≠ .object t) : schema.type? name = some type :=
  (alike.type?_eq_iff no_object).mpr known

theorem Alike.inputDefaults (alike : schema.Alike loads schema') :
    schema.inputDefaults = schema'.inputDefaults := by
  unfold Schema.inputDefaults Fields.values
  unfold Schema.Alike at alike
  generalize schema.types = types at alike ⊢
  generalize schema'.types = types' at alike ⊢
  induction alike with
  | nil => rfl
  | @cons entry other _ _ same _ ih =>
      obtain ⟨key, type⟩ := entry
      obtain ⟨key', type'⟩ := other
      simp only [List.map_cons, List.flatMap_cons, List.length_append] at ih ⊢
      rw [ih]
      cases same.2 <;> rfl

theorem Alike.no_input (alike : schema.Alike loads schema') {name : String}
    (no_input : schema.NoInput name) : schema'.NoInput name :=
  ⟨fun t known => no_input.1 t (alike.type?_eq_of known nofun),
    fun t known => no_input.2.1 t (alike.type?_eq_of known nofun),
    fun t known => no_input.2.2 t (alike.type?_eq_of known nofun)⟩

/-- In every case input is coerced in the same way. -/
theorem Alike.coercion_cases (alike : schema.Alike loads schema') : schema.CoercionCases
    (fun n type given? => schema.coerceWithin n type given? = schema'.coerceWithin n type given?)
    (fun n typeName name definition given? =>
      schema.coerceField typeName name definition given? n =
        schema'.coerceField typeName name definition given? n)
    (fun n typeName definitions given =>
      schema.coerceFields n typeName definitions given =
        schema'.coerceFields n typeName definitions given)
    (fun n type items => schema.coerceItems n type items = schema'.coerceItems n type items) where
  required n inner given? null := by
    rw [coerceWithin_required null, coerceWithin_required null]
  nullable n type given? null nullable := by
    rw [coerceWithin_nullable null nullable, coerceWithin_nullable null nullable]
  nonNull n inner value not_null ih := by
    rw [coerceWithin_nonNull not_null, coerceWithin_nonNull not_null, ih]
  list n item values ih := by
    rw [coerceWithin_list, coerceWithin_list, ih]
  single n item value not_null not_list ih := by
    rw [coerceWithin_single not_null not_list, coerceWithin_single not_null not_list, ih]
  scalar n name t value known not_null := by
    have known' := alike.type?_eq known nofun
    rw [coerceWithin_scalar known not_null, coerceWithin_scalar known' not_null]
  enum n name t value known not_null := by
    have known' := alike.type?_eq known nofun
    rw [coerceWithin_enum known not_null, coerceWithin_enum known' not_null]
  inputObject n name t given known ih := by
    have known' := alike.type?_eq known nofun
    rw [coerceWithin_inputObject known, coerceWithin_inputObject known', ih]
  no_object n name t value known not_null not_object := by
    have known' := alike.type?_eq known nofun
    rw [coerceWithin_no_object known not_null not_object,
      coerceWithin_no_object known' not_null not_object]
  no_input n name value no_input not_null := by
    rw [coerceWithin_no_input no_input not_null,
      coerceWithin_no_input (alike.no_input no_input) not_null]
  given n typeName name definition value ih := by
    rw [coerceField_given, coerceField_given, ih]
  without n typeName name definition without ih := by
    rw [coerceField_without without, coerceField_without without, ih]
  endless typeName name definition value stands := by
    rw [coerceField_zero stands, coerceField_zero stands]
  default n typeName name definition value stands ih := by
    rw [coerceField_succ stands, coerceField_succ stands, ih]
  no_fields n typeName given := by
    rw [coerceFields_nil, coerceFields_nil]
  fields n typeName name definition others given here behind := by
    rw [coerceFields_cons, coerceFields_cons, here, behind]
  no_items n type := by
    rw [coerceItems_nil, coerceItems_nil]
  items n type item rest first behind := by
    rw [coerceItems_cons, coerceItems_cons, first, behind]

/-- Input is coerced in the same way. -/
theorem Alike.coerceWithin (alike : schema.Alike loads schema') (defaults : Nat) (type : TypeRef)
    (value? : Option Value) :
    schema.coerceWithin defaults type value? = schema'.coerceWithin defaults type value? :=
  alike.coercion_cases.within defaults type value?

/-- Objects are admitted in the same way. -/
theorem Alike.admitted? (alike : schema.Alike loads schema') (state : σ) (query : QueryContext)
    (typeName : String) (object : AppValue) :
    schema.admitted? loads state query typeName object =
      schema'.admitted? loads state query typeName object := by
  have related := alike.type? typeName
  unfold Schema.admitted? granted? Schema.authorizeLoaded objectType?
  generalize schema.type? typeName = found at related ⊢
  generalize schema'.type? typeName = found' at related ⊢
  cases related with
  | none => rfl
  | some same =>
      cases same with
      | same => rfl
      | @object t authorize? same =>
          obtain ⟨name, fields, interfaces, authorize⟩ := t
          simp only [Option.bind_some] at same ⊢
          cases same with
          | none => rfl
          | some answers =>
              exact congrArg (fun may => Option.bind may _) (answers object query state)

/-- Alike definitions come to the same in alike schemas. -/
theorem Alike.argument? (alike : schema.Alike loads schema') {definition other : InputDefinition σ}
    (same : definition.Alike loads other) (state : σ) (query : QueryContext) (owner : ArgumentOwner)
    (raw : Fields Value) :
    schema.argument? loads state query owner raw definition =
      schema'.argument? loads state query owner raw other := by
  have coerced : schema.coercedFor? state owner raw definition =
      schema'.coercedFor? state owner raw other := by
    unfold coercedFor? coerceArgument coerceInput
    rw [alike.inputDefaults, alike.coerceWithin, same.name, same.type, same.default?]
  have loaded : ∀ value, schema.loadedFor? loads state query definition value =
      schema'.loadedFor? loads state query other value := by
    intro value
    have related := same.loading
    have admitted := funext fun typeName => funext (alike.admitted? state query typeName)
    unfold loadedFor?
    rw [admitted]
    generalize definition.loads? = loading at related ⊢
    generalize other.loads? = loading' at related ⊢
    cases related with
    | none => rfl
    | @some load load' same =>
        obtain ⟨typeName, load⟩ := load
        obtain ⟨typeName', load'⟩ := load'
        obtain ⟨rfl, brings⟩ := same
        simp only
        split
        · rfl
        · rw [← Option.bind_assoc, ← Option.bind_assoc, brings value query state]
  have made : ∀ value, schema.made? loads state query raw definition value =
      schema'.made? loads state query raw other value := by
    intro value
    unfold made? prepareArgument argumentDetail
    rw [same.prepare?, same.name, same.type]
    simp only [loaded]
  unfold Schema.argument?
  rw [coerced]
  simp only [made]

theorem Alike.arguments (alike : schema.Alike loads schema')
    {definitions others : List (InputDefinition σ)}
    (same : List.Forall₂ (InputDefinition.Alike loads) definitions others) (state : σ)
    (query : QueryContext) (owner : ArgumentOwner) (raw : Fields Value) :
    definitions.mapM (schema.argument? loads state query owner raw) =
      others.mapM (schema'.argument? loads state query owner raw) := by
  induction same with
  | nil => rfl
  | cons same _ ih => rw [List.mapM_cons, List.mapM_cons, alike.argument? same, ih]

end Schema

end GraphExec
