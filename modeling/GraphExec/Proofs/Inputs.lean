import Mathlib
import GraphExec.Proofs.Input.Fixed
import GraphExec.Request

/-!
# Input that has been coerced

What a coercion returns inhabits the type it was coerced to. So it is coerced to itself from then
on: a variable hands on to an argument of its type what the argument would have made of the value.
-/

namespace GraphExec

variable {σ : Type}

open Attempt

namespace Schema

/-- A value that a coercion returns inhabits the type; no value is returned only if none was given
where null is allowed. -/
theorem coerced_inhabits {schema : Schema σ} (finished : schema.Finished)
    (custom : ∀ name t, schema.type? name = some (.scalar t) → name ∉ Scalar.builtInNames →
      t.KeepsNonNull)
    {type : TypeRef} {given? result? : Option Value} {world : World σ}
    (returns : (schema.coerceInput type given?).Returns world result?) :
    (∀ value, result? = some value → schema.Inhabits type value) ∧
      (result? = none → given? = none ∧ type.isNonNull = false) := by
  have fits := fits_of_returns (finished.keepsNonNull custom) _ type given? world result? returns
  constructor
  · rintro value rfl
    exact fits.1
  · rintro rfl
    exact fits

/-- A percentage that comes in: an integer, at most a hundred. -/
def percent (value : Value) : Except String Value :=
  match value with
  | .number (.int n) => .ok (.int (min n 100))
  | other => .error (other.display ++ " is no percentage")

/-- A builder with a scalar of its own, and an input object with a default that has to be wrapped
and coerced. -/
def measures : SchemaBuilder Unit :=
  (((SchemaBuilder.new "Query").register (.object { name := "Query" })).register
    (.scalar (Scalar.ofFunctions "Percent" percent percent))).register
    (.inputObject
      { name := "Range"
        fields :=
          [("upTo",
            { name := "upTo"
              type := .nonNull (.list (.named "Percent"))
              default? := some (.int 250) }),
            ("unit", { name := "unit", type := .named "String" })] })

/-- The schema that it comes to. -/
def measured : Schema Unit :=
  { types := measures.types
    queryType := "Query"
    mutationType? := none
    subscriptionType? := none
    directives := measures.directives
    possible := [("Query", ["Query"])]
    hooks := {} }

theorem measured_finished : measured.Finished :=
  ⟨measures, .register (.register (.register (.new "Query") _) _) _, rfl⟩

theorem settles_percent : Scalar.Settles percent := by
  intro given value coerced
  unfold percent at coerced
  split at coerced
  · injection coerced with coerced
    subst coerced
    refine ⟨nofun, ?_⟩
    show Except.ok (Value.int (min (min _ 100) 100)) = _
    rw [min_assoc, min_self]
  · cases coerced

/-- A type of the schema is a built-in scalar, or one of those that were registered. -/
theorem measured_type {name : String} {type : TypeDefinition Unit}
    (known : measured.type? name = some type) :
    (∃ t ∈ Scalar.builtIn, name = t.name ∧ type = .scalar t) ∨
      (name, type) ∈ measures.types.drop 5 := by
  have types : measured.types =
      Scalar.builtIn.map (fun t => (t.name, .scalar t)) ++ measures.types.drop 5 := rfl
  have mem : (name, type) ∈ measured.types := Fields.mem_of_get? known
  rw [types] at mem
  rcases List.mem_append.mp mem with among | registered
  · obtain ⟨t, builtIn, same⟩ := List.mem_map.mp among
    injection same with same same'
    exact .inl ⟨t, builtIn, same.symm, same'.symm⟩
  · exact .inr registered

theorem measured_scalar {name : String} {t : ScalarType Unit}
    (known : measured.type? name = some (.scalar t)) (other : name ∉ Scalar.builtInNames) :
    t = Scalar.ofFunctions "Percent" percent percent := by
  rcases measured_type known with ⟨s, builtIn, rfl, -⟩ | registered
  · exact absurd (Scalar.mem_builtInNames.mpr ⟨s, builtIn, rfl⟩) other
  · rcases registered with _ | ⟨_, _ | ⟨_, _ | ⟨_, none⟩⟩⟩
    · rfl
    · cases none

theorem measured_apart {name : String} {t : InputObjectType Unit}
    (known : measured.type? name = some (.inputObject t)) : t.fields.keys.Nodup := by
  rcases measured_type known with ⟨s, -, -, wrong⟩ | registered
  · cases wrong
  · rcases registered with _ | ⟨_, _ | ⟨_, _ | ⟨_, none⟩⟩⟩
    · decide
    · cases none

theorem coerced_inhabits_measured :
    (measured.coerceInput (.list (.named "Range")) (some (.object []))).Returns
        ⟨(), fun _ state => state, []⟩ (some (.list [.object [("upTo", .list [.int 100])]])) ∧
      measured.Inhabits (.list (.named "Range"))
        (.list [.object [("upTo", .list [.int 100])]]) := by
  have returns : (measured.coerceInput (.list (.named "Range")) (some (.object []))).Returns
      ⟨(), fun _ state => state, []⟩ (some (.list [.object [("upTo", .list [.int 100])]])) := by
    unfold Returns
    cbv
  have custom : ∀ name t, measured.type? name = some (.scalar t) → name ∉ Scalar.builtInNames →
      t.KeepsNonNull := by
    intro name t known other given world _
    rw [measured_scalar known other]
    exact fun answers => (settles_percent given .null answers).1 rfl
  exact ⟨returns, (coerced_inhabits measured_finished custom returns).1 _ rfl⟩

/-- Coercing once more what a coercion has returned returns the same, whatever has become of the
world. So a value comes to the same argument if it is written there, and if it comes in through a
variable of the same type. -/
theorem coerceInput_idempotent {schema : Schema σ} (finished : schema.Finished)
    (apart : ∀ name t, schema.type? name = some (.inputObject t) → t.fields.keys.Nodup)
    (custom : ∀ name t, schema.type? name = some (.scalar t) → name ∉ Scalar.builtInNames →
      t.KeepsNonNull ∧ t.Stable) :
    (∀ type given? result? world again,
      (schema.coerceInput type given?).Returns world result? →
        (schema.coerceInput type result?).Returns again result?) ∧
    ∀ (declared : VariableDefinition) (definition : InputDefinition σ) (provided : Fields Json)
        (owner : ArgumentOwner) (given value : Value) (world again : World σ),
      declared.type = definition.type →
      ((Fields.get? provided declared.name).map Value.ofJson).or declared.default? = some given →
      ((schema.coerceArgument owner definition (some given)).Returns world (some value) ↔
        (schema.coerceVariable provided declared).Returns world (some value)) ∧
      ((schema.coerceVariable provided declared).Returns world (some value) →
        (schema.coerceArgument owner definition (some value)).Returns again (some value)) := by
  have keeps := finished.keepsNonNull fun name t known other => (custom name t known other).1
  have steady := finished.steady (fun name t known other => (custom name t known other).2) apart
  have idempotent : ∀ type given? result? world again,
      (schema.coerceInput type given?).Returns world result? →
        (schema.coerceInput type result?).Returns again result? := by
    intro type given? result? world again returns
    have fits := fits_of_returns keeps _ type given? world result? returns
    cases result? with
    | some value => exact fits.1.keeps steady _ again
    | none => exact returns_none fits.2 _ again
  refine ⟨idempotent, ?_⟩
  intro declared definition provided owner given value world again same found
  unfold coerceVariable coerceArgument
  rw [returns_adapt, returns_adapt, returns_adapt, found, same]
  exact ⟨Iff.rfl, idempotent definition.type (some given) (some value) world again⟩

/-- The value is written as an argument, and comes in through a variable. -/
theorem coerceInput_idempotent_measured :
    let wrapped : Value := .list [.object [("upTo", .list [.int 100])]]
    let declared : VariableDefinition :=
      { name := "ranges", type := .list (.named "Range"), default? := none }
    let definition : InputDefinition Unit := { name := "within", type := .list (.named "Range") }
    let owner : ArgumentOwner := .field "Query" "total"
    let world : World Unit := ⟨(), fun _ state => state, []⟩
    (measured.coerceVariable [("ranges", .object [])] declared).Returns world (some wrapped) ∧
      (measured.coerceArgument owner definition (some (.object []))).Returns world (some wrapped) ∧
      (measured.coerceArgument owner definition (some wrapped)).Returns world (some wrapped) := by
  intro wrapped declared definition owner world
  have returns : (measured.coerceVariable [("ranges", .object [])] declared).Returns world
      (some wrapped) := by
    unfold Returns
    cbv
  have custom : ∀ name t, measured.type? name = some (.scalar t) → name ∉ Scalar.builtInNames →
      t.KeepsNonNull ∧ t.Stable := by
    intro name t known other
    rw [measured_scalar known other]
    constructor
    · intro given world _ answers
      exact (settles_percent given .null answers).1 rfl
    · rintro value ⟨given, before, answers⟩ world
      exact (settles_percent given value answers).2
  have same := (coerceInput_idempotent measured_finished (fun _ _ => measured_apart) custom).2
    declared definition [("ranges", .object [])] owner (.object []) wrapped world world rfl rfl
  exact ⟨returns, same.1.mpr returns, same.2 returns⟩

end Schema

end GraphExec
