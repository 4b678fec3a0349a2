import GraphExec.Proofs.Input.Inhabits

/-!
# Inhabitants are left as they are

A value that inhabits a type is coerced to itself: nothing in it is wrapped into a list, no default
is asked for, and no field is left over.
-/

namespace GraphExec

variable {σ : Type}

/-- What comes out of the scalar stays the same when it comes in again. -/
def ScalarType.Stable (t : ScalarType σ) : Prop :=
  ∀ value, t.Outputs value → ∀ world, ((t.coerceInput value).run world).1 = .ok value

/-! ### The built-in scalars -/

namespace Scalar

theorem orRefuse_eq_ok {refusal : String} {given value : Value} {coerced : Option Value} :
    orRefuse refusal given coerced = .ok value ↔ coerced = some value := by
  cases coerced <;> simp [orRefuse]

/-- A function on values never answers null and leaves its answers as they are. -/
def Settles (input : Value → Except String Value) : Prop :=
  ∀ given value, input given = .ok value → value ≠ .null ∧ input value = .ok value

theorem settles_int : Settles intInput := by
  intro given value coerced
  obtain ⟨n, found, rfl⟩ := Option.map_eq_some_iff.mp (orRefuse_eq_ok.mp coerced)
  have small : isInt32 n = true := by
    unfold int32? at found
    split at found
    · split at found
      · rename_i small
        exact Option.some.inj found ▸ small
      · cases found
    · exact (Option.filter_eq_some_iff.mp found).2
    · cases found
  refine ⟨nofun, orRefuse_eq_ok.mpr ?_⟩
  simp [Value.int, int32?, small]

theorem settles_float : Settles float := by
  intro given value coerced
  have found := orRefuse_eq_ok.mp coerced
  split at found
  · obtain rfl := Option.some.inj found
    exact ⟨nofun, rfl⟩
  · cases found

theorem settles_string : Settles stringInput := by
  intro given value coerced
  have found := orRefuse_eq_ok.mp coerced
  split at found
  · obtain rfl := Option.some.inj found
    exact ⟨nofun, rfl⟩
  · cases found

theorem settles_boolean : Settles boolean := by
  intro given value coerced
  have found := orRefuse_eq_ok.mp coerced
  split at found
  · obtain rfl := Option.some.inj found
    exact ⟨nofun, rfl⟩
  · cases found

theorem settles_id : Settles Scalar.id := by
  intro given value coerced
  have found := orRefuse_eq_ok.mp coerced
  split at found
  · obtain rfl := Option.some.inj found
    exact ⟨nofun, rfl⟩
  · obtain rfl := Option.some.inj found
    exact ⟨nofun, rfl⟩
  · cases found

theorem builtIn_settles {t : ScalarType σ} (mem : t ∈ builtIn) :
    ∃ input, Settles input ∧ t.coerceInput = fun given => pure (input given) := by
  simp only [builtIn, List.mem_cons, List.not_mem_nil, or_false] at mem
  rcases mem with rfl | rfl | rfl | rfl | rfl
  · exact ⟨_, settles_int, rfl⟩
  · exact ⟨_, settles_float, rfl⟩
  · exact ⟨_, settles_string, rfl⟩
  · exact ⟨_, settles_boolean, rfl⟩
  · exact ⟨_, settles_id, rfl⟩

theorem builtIn_keepsNonNull {t : ScalarType σ} (mem : t ∈ builtIn) : t.KeepsNonNull := by
  obtain ⟨input, settles, same⟩ := builtIn_settles mem
  intro given world _ answers
  rw [same] at answers
  exact (settles given .null answers).1 rfl

theorem builtIn_stable {t : ScalarType σ} (mem : t ∈ builtIn) : t.Stable := by
  obtain ⟨input, settles, same⟩ := builtIn_settles mem
  rintro value ⟨given, before, answers⟩ world
  rw [same] at answers ⊢
  exact (settles given value answers).2

end Scalar

namespace Schema

variable {schema : Schema σ}

/-- If the custom scalars turn nothing but null into null, no scalar does. -/
theorem Finished.keepsNonNull (finished : schema.Finished)
    (custom : ∀ name t, schema.type? name = some (.scalar t) → name ∉ Scalar.builtInNames →
      t.KeepsNonNull) : schema.KeepsNonNull := by
  intro name t known
  rcases finished.scalar known with builtIn | other
  · exact Scalar.builtIn_keepsNonNull builtIn
  · exact custom name t known other

/-- Scalars leave what they answer as it is, and fields of input objects have names of their own. -/
structure Steady (schema : Schema σ) : Prop where
  scalars : ∀ name t, schema.type? name = some (.scalar t) → t.Stable
  apart : ∀ name t, schema.type? name = some (.inputObject t) → t.fields.keys.Nodup

theorem Finished.steady (finished : schema.Finished)
    (custom : ∀ name t, schema.type? name = some (.scalar t) → name ∉ Scalar.builtInNames →
      t.Stable)
    (apart : ∀ name t, schema.type? name = some (.inputObject t) → t.fields.keys.Nodup) :
    schema.Steady := by
  refine ⟨fun name t known => ?_, apart⟩
  rcases finished.scalar known with builtIn | other
  · exact Scalar.builtIn_stable builtIn
  · exact custom name t known other

/-! ### Coercing what inhabits a type -/

open Attempt

/-- Coercing the value to the type returns the value. -/
def Keeps (schema : Schema σ) (type : TypeRef) (value : Value) : Prop :=
  ∀ defaults world,
    (schema.coerceWithin defaults type (some value)).Returns world (some value)

/-- Coercing the entries by the definitions returns the entries, and leaves none over. -/
def KeepsFields (schema : Schema σ) (definitions : Fields (InputDefinition σ))
    (entries : Fields Value) : Prop :=
  definitions.keys.Nodup → ∀ defaults typeName world,
    (schema.coerceFields defaults typeName definitions entries).Returns world (entries, [])

/-- What is returned for nothing at a type that allows null is nothing. -/
theorem returns_none {type : TypeRef} (nullable : type.isNonNull = false) (defaults : Nat)
    (world : World σ) : (schema.coerceWithin defaults type none).Returns world none := by
  rw [coerceWithin_nullable rfl nullable]
  exact returns_pure.mpr rfl

theorem keeps_null {type : TypeRef} (nullable : type.isNonNull = false) :
    schema.Keeps type .null := by
  intro defaults world
  rw [coerceWithin_nullable rfl nullable]
  exact returns_pure.mpr rfl

theorem returns_items {item : TypeRef} {values : List Value}
    (each : ∀ value ∈ values, schema.Keeps item value) (defaults : Nat) :
    ∀ world, (schema.coerceItems defaults item values).Returns world values := by
  induction values with
  | nil =>
      intro world
      rw [coerceItems_nil]
      exact returns_pure.mpr rfl
  | cons value rest ih =>
      intro world
      rw [coerceItems_cons]
      have first := each value List.mem_cons_self defaults world
      have behind := ih fun other mem => each other (List.mem_cons_of_mem _ mem)
      exact returns_bind.mpr ⟨some value, first, returns_bind.mpr
        ⟨rest, behind _, returns_pure.mpr rfl⟩⟩

theorem keeps_scalar {name : String} {t : ScalarType σ} {value : Value}
    (known : schema.type? name = some (.scalar t)) (stable : t.Stable) (outputs : t.Outputs value) :
    schema.Keeps (.named name) value := by
  by_cases null : value = .null
  · exact null ▸ keeps_null rfl
  · intro defaults world
    rw [coerceWithin_scalar known null]
    exact returns_map.mpr ⟨value, returns_callOr.mpr (stable value outputs world), rfl⟩

theorem keeps_enum {name : String} {t : EnumType} {member : String}
    (known : schema.type? name = some (.enum t)) (declared : member ∈ t.values) :
    schema.Keeps (.named name) (.enum member) := by
  intro defaults world
  have coerced : t.coerce (.enum member) = .ok (.enum member) := by
    unfold EnumType.coerce
    exact if_pos (List.contains_iff_mem.mpr declared)
  have not_null : Value.enum member ≠ .null := nofun
  rw [coerceWithin_enum known not_null]
  exact returns_map.mpr ⟨_, returns_callOr.mpr coerced, rfl⟩

theorem keeps_inputObject {name : String} {t : InputObjectType σ} {entries : Fields Value}
    (known : schema.type? name = some (.inputObject t)) (apart : t.fields.keys.Nodup)
    (fields : schema.KeepsFields t.fields entries) :
    schema.Keeps (.named name) (.object entries) := by
  intro defaults world
  rw [coerceWithin_inputObject known]
  exact returns_bind.mpr ⟨(entries, []), fields apart defaults t.name world, returns_pure.mpr rfl⟩

theorem keepsFields_filled {name : String} {definition : InputDefinition σ} {value : Value}
    {others : Fields (InputDefinition σ)} {entries : Fields Value}
    (here : schema.Keeps definition.type value) (behind : schema.KeepsFields others entries) :
    schema.KeepsFields ((name, definition) :: others) ((name, value) :: entries) := by
  intro distinct defaults typeName world
  have given : Fields.get? ((name, value) :: entries) name = some value := if_pos rfl
  have rest : Fields.erase ((name, value) :: entries) name = entries := if_pos rfl
  rw [coerceFields_cons, given, rest, coerceField_given]
  exact returns_bind.mpr ⟨some value, returns_adapt.mpr (here defaults world),
    returns_bind.mpr ⟨(entries, []), behind (List.nodup_cons.mp distinct).2 defaults typeName _,
      returns_pure.mpr rfl⟩⟩

theorem keepsFields_omitted {name : String} {definition : InputDefinition σ}
    {others : Fields (InputDefinition σ)} {entries : Fields Value}
    (nullable : definition.type.isNonNull = false) (without : definition.default? = none)
    (fills : schema.Fills others entries) (behind : schema.KeepsFields others entries) :
    schema.KeepsFields ((name, definition) :: others) entries := by
  intro distinct defaults typeName world
  obtain ⟨new, distinct⟩ := List.nodup_cons.mp distinct
  have absent : Fields.get? entries name = none := by
    by_contra present
    obtain ⟨value, found⟩ := Option.ne_none_iff_exists'.mp present
    exact new (fills.keys_sublist.subset (Fields.mem_keys_of_get? found))
  rw [coerceFields_cons, absent, Fields.erase_of_get?_eq_none absent, coerceField_without without]
  exact returns_bind.mpr ⟨none, returns_adapt.mpr (returns_none nullable defaults world),
    returns_bind.mpr ⟨(entries, []), behind distinct defaults typeName _, returns_pure.mpr rfl⟩⟩

/-- A value that inhabits a type is coerced to itself, whatever world it is coerced in. -/
theorem Inhabits.keeps (steady : schema.Steady) {type : TypeRef} {value : Value}
    (inhabits : schema.Inhabits type value) : schema.Keeps type value := by
  let keeps := fun (type : TypeRef) (value : Value) (_ : schema.Inhabits type value) =>
    schema.Keeps type value
  let keepsFields := fun (definitions : Fields (InputDefinition σ)) (entries : Fields Value)
      (_ : schema.Fills definitions entries) => schema.KeepsFields definitions entries
  refine @Inhabits.rec σ schema keeps keepsFields ?_ ?_ ?_ ?_ ?_ ?_ ?_ ?_ ?_ ?_ type value inhabits
  · intro inner value not_null _ ih defaults world
    rw [coerceWithin_nonNull not_null]
    exact ih defaults world
  · intro item
    exact keeps_null rfl
  · intro item values _ each defaults world
    rw [coerceWithin_list]
    exact returns_bind.mpr ⟨values, returns_items each defaults world, returns_pure.mpr rfl⟩
  · intro name
    exact keeps_null rfl
  · intro name t value known outputs
    exact keeps_scalar known (steady.scalars name t known) outputs
  · intro name t member known declared
    exact keeps_enum known declared
  · intro name t entries known _ fields
    exact keeps_inputObject known (steady.apart name t known) fields
  · intro _ defaults typeName world
    rw [coerceFields_nil]
    exact returns_pure.mpr rfl
  · intro name definition value others entries _ _ here behind
    exact keepsFields_filled here behind
  · intro name definition others entries nullable without fills behind
    exact keepsFields_omitted nullable without fills behind

end Schema

end GraphExec
