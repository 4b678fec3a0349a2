import GraphExec.Proofs.Fields
import GraphExec.Proofs.Success
import GraphExec.Schema.Builder

/-!
# What a finished schema stands for

A builder keeps every type under the type's own name. When it is finished, the table of possible
types says exactly what the types themselves say: an object type stands for itself and for its
interfaces, a union for its members.

A name that is registered twice keeps a builder from being finished. So a finished schema knows the
built-in scalars under their names, and every other scalar has a name of its own.
-/

namespace GraphExec

variable {σ : Type}

/-- A type says that a type condition is satisfied by an object type. -/
def TypeDefinition.Tells (condition object : String) : TypeDefinition σ → Prop
  | .object t => object = t.name ∧ (condition = t.name ∨ condition ∈ t.interfaces)
  | .union t => condition = t.name ∧ object ∈ t.members
  | _ => False

namespace SchemaBuilder

/-- How builders come about. -/
inductive Built : SchemaBuilder σ → Prop
  | new (queryType : String) : Built (.new queryType)
  | register {builder : SchemaBuilder σ} (built : Built builder) (type : TypeDefinition σ) :
      Built (builder.register type)
  | directive {builder : SchemaBuilder σ} (built : Built builder)
      (definition : DirectiveDefinition σ) : Built (builder.directive definition)
  | configure {builder : SchemaBuilder σ} (built : Built builder) (queryType : String)
      (mutationType? subscriptionType? : Option String) (hooks : SchemaHooks σ) :
      Built { builder with queryType, mutationType?, subscriptionType?, hooks }

/-- Every type is kept once, under its own name. -/
structure Named (types : Fields (TypeDefinition σ)) : Prop where
  own : ∀ name type, Fields.get? types name = some type → type.name = name
  once : types.keys.Nodup

theorem named_insert {types : Fields (TypeDefinition σ)} (named : Named types)
    (type : TypeDefinition σ) : Named (Fields.insert types type.name type) := by
  constructor
  · intro name other found
    rw [Fields.get?_insert] at found
    split at found
    · rename_i same
      injection found with found
      exact found ▸ same
    · exact named.own name other found
  · exact Fields.nodup_keys_insert named.once

theorem named_new (queryType : String) : Named (new queryType : SchemaBuilder σ).types := by
  have registers : ∀ (scalars : List (ScalarType σ)) (builder : SchemaBuilder σ),
      Named builder.types →
      Named (scalars.foldl (fun builder t => builder.register (.scalar t)) builder).types := by
    intro scalars
    induction scalars with
    | nil => exact fun _ named => named
    | cons t rest ih => exact fun builder named => ih _ (named_insert named _)
  have keeps : ∀ (definitions : List (DirectiveDefinition σ)) (builder : SchemaBuilder σ),
      (definitions.foldl directive builder).types = builder.types := by
    intro definitions
    induction definitions with
    | nil => exact fun _ => rfl
    | cons definition rest ih => exact fun builder => ih _
  unfold new
  rw [keeps]
  exact registers _ _ ⟨fun _ _ found => (by cases found), List.nodup_nil⟩

theorem Built.named {builder : SchemaBuilder σ} (built : builder.Built) : Named builder.types := by
  induction built with
  | new queryType => exact named_new queryType
  | register _ type ih => exact named_insert ih type
  | directive _ _ ih => exact ih
  | configure _ _ _ _ _ ih => exact ih

/-! ### The table of possible types -/

/-- The table has an object type in the entry of a type. -/
def Possible.Has (possible : Possible) (condition object : String) : Prop :=
  object ∈ (Fields.get? possible condition).getD []

theorem has_open {possible : Possible} {type condition object : String} :
    (possible.open type).Has condition object ↔ possible.Has condition object := by
  unfold Possible.Has Possible.open
  rw [Fields.get?_insert]
  by_cases same : type = condition
  · subst same
    simp
  · rw [if_neg same]

theorem has_add {possible : Possible} {type added condition object : String} :
    (possible.add type added).Has condition object ↔
      possible.Has condition object ∨ (condition = type ∧ object = added) := by
  unfold Possible.Has Possible.add
  rw [Fields.get?_insert]
  by_cases same : type = condition
  · subst same
    simp [mem_addName]
  · simp [same, Ne.symm same]

variable {builder : SchemaBuilder σ}

theorem has_addInterfaces {added condition object : String} {interfaces : List String} :
    ∀ {before after : Possible}, builder.addInterfaces added before interfaces = .ok after →
      (after.Has condition object ↔
        before.Has condition object ∨ (condition ∈ interfaces ∧ object = added)) := by
  induction interfaces with
  | nil =>
      intro before after h
      injection h with h
      simp [h]
  | cons name rest ih =>
      intro before after h
      unfold addInterfaces at h
      split at h
      · rw [ih h, has_add, List.mem_cons, or_and_right, or_assoc]
      · cases h

theorem has_addMembers {added condition object : String} {members : List String} :
    ∀ {before after : Possible}, builder.addMembers added before members = .ok after →
      (after.Has condition object ↔
        before.Has condition object ∨ (condition = added ∧ object ∈ members)) := by
  induction members with
  | nil =>
      intro before after h
      injection h with h
      simp [h]
  | cons name rest ih =>
      intro before after h
      unfold addMembers at h
      split at h
      · rw [ih h, has_add, List.mem_cons, and_or_left, or_assoc]
      · cases h

theorem has_addType {type : TypeDefinition σ} {condition object : String}
    {before after : Possible} (h : builder.addType before type = .ok after) :
    after.Has condition object ↔
      before.Has condition object ∨ type.Tells condition object := by
  cases type with
  | object t =>
      obtain ⟨_, -, h⟩ := Except.bind_eq_ok.mp h
      rw [has_addInterfaces h, has_add, or_assoc]
      simp only [TypeDefinition.Tells, and_or_left, and_comm]
  | union t =>
      unfold addType at h
      rw [has_addMembers h, has_open]
      exact Iff.rfl
  | interface t =>
      injection h with h
      rw [← h, has_open]
      simp [TypeDefinition.Tells]
  | inputObject t =>
      obtain ⟨_, -, h⟩ := Except.bind_eq_ok.mp h
      injection h with h
      simp [h, TypeDefinition.Tells]
  | scalar t =>
      injection h with h
      simp [h, TypeDefinition.Tells]
  | enum t =>
      injection h with h
      simp [h, TypeDefinition.Tells]

theorem has_addTypes {types : List (TypeDefinition σ)} {condition object : String} :
    ∀ {before after : Possible}, builder.addTypes before types = .ok after →
      (after.Has condition object ↔
        before.Has condition object ∨ ∃ type ∈ types, type.Tells condition object) := by
  induction types with
  | nil =>
      intro before after h
      injection h with h
      simp [h]
  | cons type rest ih =>
      intro before after h
      obtain ⟨middle, added, h⟩ := Except.bind_eq_ok.mp h
      rw [ih h, has_addType added]
      simp only [List.mem_cons, exists_eq_or_imp, or_assoc]

/-- A builder that can be finished was told of no name twice. -/
theorem once_of_finish {builder : SchemaBuilder σ} {schema : Schema σ}
    (finish : builder.finish = .ok schema) : builder.duplicates = [] := by
  unfold SchemaBuilder.finish at finish
  cases duplicates : builder.duplicates with
  | nil => rfl
  | cons name rest =>
      simp [duplicates, bind, Except.bind, throw, throwThe, MonadExceptOf.throw] at finish

end SchemaBuilder

/-! ### Finished schemas -/

namespace Schema

/-- A schema that a builder has come to. -/
def Finished (schema : Schema σ) : Prop :=
  ∃ builder : SchemaBuilder σ, builder.Built ∧ builder.finish = .ok schema

theorem finish_eq {builder : SchemaBuilder σ} {schema : Schema σ}
    (finish : builder.finish = .ok schema) :
    schema.types = builder.types ∧ schema.directives = builder.directives ∧
      schema.hooks = builder.hooks ∧
      builder.addTypes [] builder.types.values = .ok schema.possible := by
  have once := SchemaBuilder.once_of_finish finish
  unfold SchemaBuilder.finish at finish
  rw [once] at finish
  obtain ⟨_, -, finish⟩ := Except.bind_eq_ok.mp finish
  obtain ⟨possible, added, finish⟩ := Except.bind_eq_ok.mp finish
  obtain ⟨_, -, finish⟩ := Except.bind_eq_ok.mp finish
  injection finish with finish
  subst finish
  exact ⟨rfl, rfl, rfl, added⟩

theorem Finished.named {schema : Schema σ} (finished : schema.Finished) :
    SchemaBuilder.Named schema.types := by
  obtain ⟨builder, built, finish⟩ := finished
  rw [(finish_eq finish).1]
  exact built.named

/-- The possible types of a finished schema are those that its types tell of. -/
theorem Finished.isPossibleType_iff {schema : Schema σ} (finished : schema.Finished)
    {condition object : String} :
    schema.isPossibleType condition object = true ↔
      ∃ name type, schema.type? name = some type ∧ type.Tells condition object := by
  have named := finished.named
  obtain ⟨builder, built, finish⟩ := finished
  obtain ⟨same, -, -, added⟩ := finish_eq finish
  have table : SchemaBuilder.Possible.Has schema.possible condition object ↔ _ :=
    SchemaBuilder.has_addTypes added
  have empty : ¬ SchemaBuilder.Possible.Has [] condition object := by
    simp [SchemaBuilder.Possible.Has, Fields.get?]
  have has : schema.isPossibleType condition object = true ↔
      SchemaBuilder.Possible.Has schema.possible condition object := by
    unfold isPossibleType possibleTypes? SchemaBuilder.Possible.Has
    rw [List.contains_iff_mem]
  rw [has, table, ← same]
  constructor
  · rintro (none | ⟨type, mem, tells⟩)
    · exact absurd none empty
    · obtain ⟨⟨name, _⟩, member, rfl⟩ := List.mem_map.mp mem
      exact ⟨name, _, Fields.get?_of_mem named.once member, tells⟩
  · rintro ⟨name, type, known, tells⟩
    exact .inr ⟨type, Fields.mem_values_of_get? known, tells⟩

/-- An object type is a possible type of itself. -/
theorem Finished.isPossibleType_self {schema : Schema σ} (finished : schema.Finished)
    {name : String} {type : ObjectType σ} (known : schema.type? name = some (.object type)) :
    schema.isPossibleType name type.name = true := by
  have own : type.name = name := finished.named.own name _ known
  exact finished.isPossibleType_iff.mpr ⟨name, _, known, rfl, .inl own.symm⟩

end Schema

/-! ### Built-in scalars -/

/-- The names of the built-in scalars. -/
def Scalar.builtInNames : List String :=
  ["Int", "Float", "String", "Boolean", "ID"]

theorem Scalar.mem_builtInNames {name : String} :
    name ∈ builtInNames ↔ ∃ t ∈ (builtIn : List (ScalarType σ)), t.name = name := by
  have names : builtInNames = (builtIn : List (ScalarType σ)).map (·.name) := rfl
  rw [names, List.mem_map]

namespace SchemaBuilder

theorem get?_new (queryType : String) {t : ScalarType σ} (mem : t ∈ Scalar.builtIn) :
    Fields.get? (new queryType : SchemaBuilder σ).types t.name = some (.scalar t) := by
  simp only [Scalar.builtIn, List.mem_cons, List.not_mem_nil, or_false] at mem
  rcases mem with rfl | rfl | rfl | rfl | rfl <;> rfl

/-- Unless a name was registered twice, the built-in scalars are where they were. -/
theorem Built.builtIn {builder : SchemaBuilder σ} (built : builder.Built)
    (once : builder.duplicates = []) {t : ScalarType σ} (mem : t ∈ Scalar.builtIn) :
    Fields.get? builder.types t.name = some (.scalar t) := by
  induction built with
  | new queryType => exact get?_new queryType mem
  | @register builder _ type ih =>
      unfold SchemaBuilder.register at once ⊢
      simp only at once ⊢
      split at once
      · simp at once
      · rename_i absent
        have found := ih once
        rw [Fields.get?_insert, if_neg, found]
        rintro same
        rw [same] at absent
        simp [Fields.has, found] at absent
  | directive _ _ ih => exact ih once
  | configure _ _ _ _ _ ih => exact ih once

end SchemaBuilder

namespace Schema

/-- A scalar of a finished schema is a built-in one, or has a name that no built-in one has. -/
theorem Finished.scalar {schema : Schema σ} (finished : schema.Finished) {name : String}
    {t : ScalarType σ} (known : schema.type? name = some (.scalar t)) :
    t ∈ Scalar.builtIn ∨ name ∉ Scalar.builtInNames := by
  obtain ⟨builder, built, finish⟩ := finished
  by_cases among : name ∈ Scalar.builtInNames
  · obtain ⟨other, mem, rfl⟩ : ∃ t ∈ (Scalar.builtIn : List (ScalarType σ)), t.name = name :=
      Scalar.mem_builtInNames.mp among
    have found := built.builtIn (SchemaBuilder.once_of_finish finish) mem
    unfold type? at known
    rw [(finish_eq finish).1, found] at known
    injection known with known
    injection known with known
    exact .inl (known ▸ mem)
  · exact .inr among

end Schema

end GraphExec
