import GraphExec.Arguments.Coercion
import GraphExec.Proofs.Input.Returns
import GraphExec.Proofs.Schema.Possible

/-!
# Values that inhabit types

What it is for a value to inhabit an input type, said by the type and the value alone: without
defaults, without single values that stand for lists, and without omitted fields that must be there.
Whatever a coercion returns inhabits the type; the coercion of a value that is not null is not null.
-/

namespace GraphExec

variable {σ : Type}

/-- Something that came in is coerced to the value, in some world. -/
def ScalarType.Outputs (t : ScalarType σ) (value : Value) : Prop :=
  ∃ given world, ((t.coerceInput given).run world).1 = .ok value

/-- Nothing but null is coerced to null. -/
def ScalarType.KeepsNonNull (t : ScalarType σ) : Prop :=
  ∀ given world, given ≠ .null → ((t.coerceInput given).run world).1 ≠ .ok .null

namespace Schema

mutual

/-- A value inhabits a type. -/
inductive Inhabits (schema : Schema σ) : TypeRef → Value → Prop
  | nonNull {inner : TypeRef} {value : Value} (not_null : value ≠ .null)
      (inhabits : Inhabits schema inner value) : Inhabits schema (.nonNull inner) value
  | nullList (item : TypeRef) : Inhabits schema (.list item) .null
  | list {item : TypeRef} {values : List Value}
      (each : ∀ value ∈ values, Inhabits schema item value) :
      Inhabits schema (.list item) (.list values)
  | nullNamed (name : String) : Inhabits schema (.named name) .null
  | scalar {name : String} {t : ScalarType σ} {value : Value}
      (known : schema.type? name = some (.scalar t)) (outputs : t.Outputs value) :
      Inhabits schema (.named name) value
  | enum {name : String} {t : EnumType} {member : String}
      (known : schema.type? name = some (.enum t)) (declared : member ∈ t.values) :
      Inhabits schema (.named name) (.enum member)
  | inputObject {name : String} {t : InputObjectType σ} {entries : Fields Value}
      (known : schema.type? name = some (.inputObject t)) (fills : Fills schema t.fields entries) :
      Inhabits schema (.named name) (.object entries)

/-- Entries fill definitions: each has a definition, in their order, and inhabits its type; only
what may be null and has no default is left out. -/
inductive Fills (schema : Schema σ) : Fields (InputDefinition σ) → Fields Value → Prop
  | nil : Fills schema [] []
  | filled {name : String} {definition : InputDefinition σ} {value : Value}
      {others : Fields (InputDefinition σ)} {entries : Fields Value}
      (inhabits : Inhabits schema definition.type value) (behind : Fills schema others entries) :
      Fills schema ((name, definition) :: others) ((name, value) :: entries)
  | omitted {name : String} {definition : InputDefinition σ}
      {others : Fields (InputDefinition σ)} {entries : Fields Value}
      (nullable : definition.type.isNonNull = false) (without : definition.default? = none)
      (behind : Fills schema others entries) :
      Fills schema ((name, definition) :: others) entries

end

variable {schema : Schema σ}

/-! ### What fills definitions -/

/-- The names of entries are names of definitions, in the same order. -/
theorem Fills.keys_sublist {definitions : Fields (InputDefinition σ)} :
    ∀ {entries : Fields Value}, schema.Fills definitions entries →
      entries.keys.Sublist definitions.keys := by
  induction definitions with
  | nil =>
      intro entries fills
      cases fills
      exact .slnil
  | cons first others ih =>
      intro entries fills
      cases fills with
      | filled _ behind => exact (ih behind).cons_cons _
      | omitted _ _ behind => exact (ih behind).cons _

/-- What must be there, or has a default, is there. -/
theorem Fills.present {definitions : Fields (InputDefinition σ)} {name : String}
    {definition : InputDefinition σ} (mem : (name, definition) ∈ definitions)
    (needed : definition.type.isNonNull = true ∨ definition.default?.isSome = true) :
    ∀ {entries : Fields Value}, schema.Fills definitions entries → name ∈ entries.keys := by
  induction definitions with
  | nil => cases mem
  | cons first others ih =>
      intro entries fills
      cases fills with
      | filled _ behind =>
          rcases List.mem_cons.mp mem with same | later
          · injection same with same
            exact same ▸ List.mem_cons_self
          · exact List.mem_cons_of_mem _ (ih later behind)
      | omitted nullable without behind =>
          rcases List.mem_cons.mp mem with same | later
          · injection same with _ same
            rw [same, nullable, without] at needed
            simp at needed
          · exact ih later behind

/-! ### What coercions return -/

open Attempt

/-- No scalar of a schema turns a value into null. -/
def KeepsNonNull (schema : Schema σ) : Prop :=
  ∀ name t, schema.type? name = some (.scalar t) → t.KeepsNonNull

/-- A value is returned that inhabits the type, and is null only for null; or none, for none. -/
def Fits (schema : Schema σ) (type : TypeRef) (given? : Option Value) : Option Value → Prop
  | some value => schema.Inhabits type value ∧ (value = .null → given? = some .null)
  | none => given? = none ∧ type.isNonNull = false

theorem Inhabits.fits {type : TypeRef} {given? : Option Value} {value : Value}
    (inhabits : schema.Inhabits type value) (not_null : value ≠ .null) :
    schema.Fits type given? (some value) :=
  ⟨inhabits, fun null => absurd null not_null⟩

theorem Fits.of_some {type : TypeRef} {given : Value} {result? : Option Value}
    (fits : schema.Fits type (some given) result?) :
    ∃ value, result? = some value ∧ schema.Inhabits type value ∧
      (value = .null → given = .null) := by
  cases result? with
  | none => cases fits.1
  | some value => exact ⟨value, rfl, fits.1, fun null => Option.some.inj (fits.2 null)⟩

theorem declared_of_coerce {t : EnumType} {given value : Value}
    (coerced : t.coerce given = .ok value) : ∃ member ∈ t.values, value = .enum member := by
  have declared : ∀ candidate : String, (if t.values.contains candidate then .ok (.enum candidate)
      else .error ("\"" ++ candidate ++ "\" is not a valid " ++ t.name ++ " value")) =
        (Except.ok value : Except String Value) → ∃ member ∈ t.values, value = .enum member := by
    intro candidate coerced
    split at coerced
    · rename_i among
      injection coerced with coerced
      exact ⟨candidate, List.contains_iff_mem.mp among, coerced.symm⟩
    · cases coerced
  unfold EnumType.coerce at coerced
  cases given with
  | enum name => exact declared name coerced
  | string s => exact declared s coerced
  | _ => cases coerced

theorem inhabits_null {type : TypeRef} (nullable : type.isNonNull = false) :
    schema.Inhabits type .null := by
  cases type with
  | nonNull inner => cases nullable
  | list item => exact .nullList item
  | named name => exact .nullNamed name

/-- Whatever is left over, an object is returned that has been coerced. -/
theorem returns_noneLeft {typeName : String} {result : Fields Value × Fields Value}
    {world : World σ} {result? : Option Value}
    (returns : (noneLeft typeName result : Attempt σ InputError (Option Value)).Returns world
      result?) : result? = some (.object result.1) := by
  obtain ⟨coerced, rest⟩ := result
  cases rest with
  | nil => exact (returns_pure.mp returns).symm
  | cons entry rest => exact absurd returns returns_throw

/-- In every case a coercion returns what fits. -/
theorem fits_cases (keeps : schema.KeepsNonNull) : schema.CoercionCases
    (fun n type given? => ∀ world result?,
      (schema.coerceWithin n type given?).Returns world result? → schema.Fits type given? result?)
    (fun n typeName name definition given? => ∀ world result?,
      (schema.coerceField typeName name definition given? n).Returns world result? →
        schema.Fits definition.type (given?.or definition.default?) result?)
    (fun n typeName definitions given => ∀ world result,
      (schema.coerceFields n typeName definitions given).Returns world result →
        schema.Fills definitions result.1)
    (fun n type items => ∀ world results, (schema.coerceItems n type items).Returns world results →
      ∀ value ∈ results, schema.Inhabits type value) where
  required n inner given? null world result? returns := by
    rw [coerceWithin_required null] at returns
    exact absurd returns returns_throw
  nullable n type given? null nullable world result? returns := by
    rw [coerceWithin_nullable null nullable] at returns
    obtain rfl := returns_pure.mp returns
    cases given? with
    | none => exact ⟨rfl, nullable⟩
    | some value =>
        obtain rfl : value = .null := null
        exact ⟨inhabits_null nullable, fun _ => rfl⟩
  nonNull n inner given not_null ih world result? returns := by
    rw [coerceWithin_nonNull not_null] at returns
    obtain ⟨value, rfl, inhabits, null⟩ := (ih world result? returns).of_some
    have some_value : value ≠ .null := fun same => not_null (null same)
    exact (Inhabits.nonNull some_value inhabits).fits some_value
  list n item values ih world result? returns := by
    rw [coerceWithin_list] at returns
    obtain ⟨results, made, returns⟩ := returns_bind.mp returns
    rw [← returns_pure.mp returns]
    exact (Inhabits.list (ih world results made)).fits Value.noConfusion
  single n item given not_null not_list ih world result? returns := by
    -- The item is there, since something was given for it.
    rw [coerceWithin_single not_null not_list] at returns
    obtain ⟨item?, made, returns⟩ := returns_bind.mp returns
    obtain ⟨value, rfl, inhabits, -⟩ := (ih world item? made).of_some
    rw [← returns_pure.mp returns]
    refine (Inhabits.list fun other mem => ?_).fits Value.noConfusion
    rw [List.mem_singleton.mp mem]
    exact inhabits
  scalar n name t given known not_null world result? returns := by
    rw [coerceWithin_scalar known not_null] at returns
    obtain ⟨value, made, rfl⟩ := returns_map.mp returns
    have made := returns_callOr.mp made
    refine (Inhabits.scalar known ⟨given, world, made⟩).fits fun null => ?_
    exact keeps name t known given world not_null (null ▸ made)
  enum n name t given known not_null world result? returns := by
    rw [coerceWithin_enum known not_null] at returns
    obtain ⟨value, made, rfl⟩ := returns_map.mp returns
    obtain ⟨member, declared, rfl⟩ := declared_of_coerce (returns_callOr.mp made)
    exact (Inhabits.enum known declared).fits Value.noConfusion
  inputObject n name t given known ih world result? returns := by
    rw [coerceWithin_inputObject known] at returns
    obtain ⟨result, made, returns⟩ := returns_bind.mp returns
    rw [returns_noneLeft returns]
    exact (Inhabits.inputObject known (ih world result made)).fits Value.noConfusion
  no_object n name t given known not_null not_object world result? returns := by
    rw [coerceWithin_no_object known not_null not_object] at returns
    exact absurd returns returns_throw
  no_input n name given no_input not_null world result? returns := by
    rw [coerceWithin_no_input no_input not_null] at returns
    exact absurd returns returns_throw
  given n typeName name definition value ih world result? returns := by
    rw [coerceField_given] at returns
    exact ih world result? returns
  without n typeName name definition without ih world result? returns := by
    rw [coerceField_without without] at returns
    rw [without]
    exact ih world result? returns
  endless typeName name definition value stands world result? returns := by
    rw [coerceField_zero stands] at returns
    exact absurd returns returns_throw
  default n typeName name definition value stands ih world result? returns := by
    rw [coerceField_succ stands] at returns
    rw [stands]
    exact ih world result? returns
  no_fields n typeName given world result returns := by
    rw [coerceFields_nil] at returns
    rw [← returns_pure.mp returns]
    exact .nil
  fields n typeName name definition others given here behind world result returns := by
    rw [coerceFields_cons] at returns
    obtain ⟨value?, made, returns⟩ := returns_bind.mp returns
    obtain ⟨rest, filled, returns⟩ := returns_bind.mp returns
    have fits := here world value? (returns_adapt.mp made)
    have fills := behind _ rest filled
    rw [← returns_pure.mp returns]
    -- Nothing stands for the field only if nothing was given and it has no default.
    cases value? with
    | some value => exact .filled fits.1 fills
    | none => exact .omitted fits.2 (Option.or_eq_none_iff.mp fits.1).2 fills
  no_items n type world results returns := by
    rw [coerceItems_nil] at returns
    rw [← returns_pure.mp returns]
    exact fun value mem => absurd mem List.not_mem_nil
  items n type item rest first behind world results returns := by
    rw [coerceItems_cons] at returns
    obtain ⟨item?, made, returns⟩ := returns_bind.mp returns
    obtain ⟨values, others, returns⟩ := returns_bind.mp returns
    obtain ⟨value, rfl, inhabits, -⟩ := (first world item? made).of_some
    rw [← returns_pure.mp returns]
    intro other mem
    rcases List.mem_cons.mp mem with rfl | mem
    · exact inhabits
    · exact behind _ values others other mem

/-- A coercion returns a value of the type; nothing is returned only for nothing. -/
theorem fits_of_returns (keeps : schema.KeepsNonNull) (defaults : Nat) (type : TypeRef)
    (given? : Option Value) :
    ∀ world result?, (schema.coerceWithin defaults type given?).Returns world result? →
      schema.Fits type given? result? :=
  (fits_cases keeps).within defaults type given?

end Schema

end GraphExec
