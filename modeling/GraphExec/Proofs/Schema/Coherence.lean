import GraphExec.Proofs.Schema.Possible
import Mathlib.Tactic.MkIffOfInductiveProp

/-!
# When a schema can be finished

A builder is told of types, directives, root types and hooks, one call after another. It can be
finished exactly if the types that it was told of are coherent: no two have one name, and whatever
they, the roots and the directives refer to is among them and of the right kind.
-/

namespace GraphExec

variable {σ : Type}

/-- Something that a builder is told. -/
inductive BuilderCall (σ : Type) where
  /-- A type is registered. -/
  | register (type : TypeDefinition σ)
  /-- A directive is registered; it replaces one of the same name. -/
  | directive (definition : DirectiveDefinition σ)
  /-- The root type of mutations is named. -/
  | mutation (name : String)
  /-- The root type of subscriptions is named. -/
  | subscription (name : String)
  /-- A hook of the schema is set. -/
  | hook (set : SchemaHooks σ → SchemaHooks σ)

namespace BuilderCall

/-- The type that is registered. -/
def type? : BuilderCall σ → Option (TypeDefinition σ)
  | register type => some type
  | _ => none

/-- The directive that is registered. -/
def directive? : BuilderCall σ → Option (DirectiveDefinition σ)
  | directive definition => some definition
  | _ => none

/-- The root type of mutations that is named. -/
def mutation? : BuilderCall σ → Option String
  | mutation name => some name
  | _ => none

/-- The root type of subscriptions that is named. -/
def subscription? : BuilderCall σ → Option String
  | subscription name => some name
  | _ => none

/-- What every builder is told first. -/
def builtIn : List (BuilderCall σ) :=
  Scalar.builtIn.map (fun type => register (.scalar type)) ++
    DirectiveDefinition.builtIn.map directive

/-- The types that a builder knows after some calls, the built-in scalars first. -/
def types (calls : List (BuilderCall σ)) : List (TypeDefinition σ) :=
  (builtIn ++ calls).filterMap type?

/-- The directives that a builder has been told of, the built-in ones first. -/
def directives (calls : List (BuilderCall σ)) : List (DirectiveDefinition σ) :=
  (builtIn ++ calls).filterMap directive?

/-- The root types: of queries, and those that were named last. -/
def roots (queryType : String) (calls : List (BuilderCall σ)) : List String :=
  queryType :: ((calls.filterMap mutation?).getLast?.toList ++
    (calls.filterMap subscription?).getLast?.toList)

end BuilderCall

/-- A directive that is not replaced by a later one. -/
def DirectiveDefinition.InEffect (definitions : List (DirectiveDefinition σ))
    (definition : DirectiveDefinition σ) : Prop :=
  ∃ before after, definitions = before ++ definition :: after ∧
    ∀ other ∈ after, other.name ≠ definition.name

/-- The name under all wrappers of a type reference is that of a type. -/
def TypeRef.Refers (types : List (TypeDefinition σ)) (reference : TypeRef) : Prop :=
  reference.namedType ∈ types.map (·.name)

/-- No two types have one name, and whatever is referred to is there and of the right kind. -/
@[mk_iff]
structure Coherent (types : List (TypeDefinition σ)) (directives : List (DirectiveDefinition σ))
    (roots : List String) : Prop where
  once : (types.map (·.name)).Nodup
  roots : ∀ root ∈ roots, ∃ type, .object type ∈ types ∧ type.name = root
  fields : ∀ type, .object type ∈ types → ∀ field ∈ type.fields.values,
    field.type.Refers types ∧ ∀ argument ∈ field.arguments.values, argument.type.Refers types
  interfaces : ∀ type, .object type ∈ types → ∀ name ∈ type.interfaces,
    ∃ other, .interface other ∈ types ∧ other.name = name
  members : ∀ type, .union type ∈ types → ∀ name ∈ type.members,
    ∃ other, .object other ∈ types ∧ other.name = name
  inputs : ∀ type, .inputObject type ∈ types → ∀ field ∈ type.fields.values,
    field.type.Refers types
  directives : ∀ definition, DirectiveDefinition.InEffect directives definition →
    ∀ argument ∈ definition.arguments.values, argument.type.Refers types

/-- It does not matter in which order the types stand. -/
theorem Coherent.perm {types types' : List (TypeDefinition σ)}
    {directives : List (DirectiveDefinition σ)} {roots : List String}
    (coherent : Coherent types directives roots) (same : types'.Perm types) :
    Coherent types' directives roots := by
  have names : (types'.map (·.name)).Perm (types.map (·.name)) := same.map _
  have refers (reference : TypeRef) : reference.Refers types' ↔ reference.Refers types :=
    names.mem_iff
  constructor
  case once => exact names.nodup_iff.mpr coherent.once
  case roots => simpa only [same.mem_iff] using coherent.roots
  case fields => simpa only [same.mem_iff, refers] using coherent.fields
  case interfaces => simpa only [same.mem_iff] using coherent.interfaces
  case members => simpa only [same.mem_iff] using coherent.members
  case inputs => simpa only [same.mem_iff, refers] using coherent.inputs
  case directives => simpa only [refers] using coherent.directives

/-- Calls that register the same types, in whatever order and at whatever time, and that are
otherwise the same. -/
structure BuilderCall.Reordered (calls other : List (BuilderCall σ)) : Prop where
  registered : (other.filterMap type?).Perm (calls.filterMap type?)
  rest : other.filter (·.type?.isNone) = calls.filter (·.type?.isNone)

namespace BuilderCall.Reordered

variable {calls other : List (BuilderCall σ)}

/-- What is read off the calls that register no type stays what it was. -/
theorem unregistered (reordered : Reordered calls other) {α : Type} {f : BuilderCall σ → Option α}
    (apart : ∀ type, f (.register type) = none) : other.filterMap f = calls.filterMap f := by
  have without (calls : List (BuilderCall σ)) :
      (calls.filter (·.type?.isNone)).filterMap f = calls.filterMap f := by
    rw [List.filterMap_filter]
    congr 1
    funext call
    cases call with
    | register type => exact (apart type).symm
    | directive _ => rfl
    | mutation _ => rfl
    | subscription _ => rfl
    | hook _ => rfl
  rw [← without other, reordered.rest, without calls]

theorem types (reordered : Reordered calls other) :
    (BuilderCall.types other).Perm (BuilderCall.types calls) := by
  rw [BuilderCall.types, BuilderCall.types, List.filterMap_append, List.filterMap_append]
  exact reordered.registered.append_left _

theorem directives (reordered : Reordered calls other) :
    BuilderCall.directives other = BuilderCall.directives calls := by
  rw [BuilderCall.directives, BuilderCall.directives, List.filterMap_append,
    List.filterMap_append, reordered.unregistered fun _ => rfl]

theorem roots (reordered : Reordered calls other) (queryType : String) :
    BuilderCall.roots queryType other = BuilderCall.roots queryType calls := by
  rw [BuilderCall.roots, BuilderCall.roots, reordered.unregistered fun _ => rfl,
    reordered.unregistered fun _ => rfl]

end BuilderCall.Reordered

namespace SchemaBuilder

/-- Takes up a call. -/
def tell (builder : SchemaBuilder σ) : BuilderCall σ → SchemaBuilder σ
  | .register type => builder.register type
  | .directive definition => builder.directive definition
  | .mutation name => { builder with mutationType? := some name }
  | .subscription name => { builder with subscriptionType? := some name }
  | .hook set => { builder with hooks := set builder.hooks }

/-- The builder that calls lead to. -/
def ofCalls (queryType : String) (calls : List (BuilderCall σ)) : SchemaBuilder σ :=
  calls.foldl tell (new queryType)

/-- A builder that knows nothing. -/
def blank (queryType : String) : SchemaBuilder σ :=
  { types := [], duplicates := [], queryType, mutationType? := none, subscriptionType? := none
    directives := [], hooks := {} }

theorem new_eq (queryType : String) :
    (new queryType : SchemaBuilder σ) = BuilderCall.builtIn.foldl tell (blank queryType) := rfl

theorem ofCalls_eq (queryType : String) (calls : List (BuilderCall σ)) :
    ofCalls queryType calls = (BuilderCall.builtIn ++ calls).foldl tell (blank queryType) := by
  rw [List.foldl_append, ← new_eq]
  rfl

theorem built_ofCalls (queryType : String) (calls : List (BuilderCall σ)) :
    (ofCalls queryType calls).Built := by
  have tells : ∀ (calls : List (BuilderCall σ)) (builder : SchemaBuilder σ),
      builder.Built → (calls.foldl tell builder).Built := by
    intro calls
    induction calls with
    | nil => exact fun _ built => built
    | cons call rest ih =>
        intro builder built
        refine ih _ ?_
        cases call with
        | register type => exact built.register type
        | directive definition => exact built.directive definition
        | mutation name => exact built.configure _ _ _ _
        | subscription name => exact built.configure _ _ _ _
        | hook set => exact built.configure _ _ _ _
  exact tells calls _ (.new queryType)

/-! ### What calls leave in a builder -/

section Calls

variable {builder : SchemaBuilder σ}

theorem types_foldl_tell (calls : List (BuilderCall σ)) : ∀ builder : SchemaBuilder σ,
    (calls.foldl tell builder).types = (calls.filterMap BuilderCall.type?).foldl
      (fun types type => Fields.insert types type.name type) builder.types := by
  induction calls with
  | nil => exact fun _ => rfl
  | cons call rest ih =>
      intro builder
      rw [List.foldl_cons, ih]
      cases call <;> rfl

theorem directives_foldl_tell (calls : List (BuilderCall σ)) : ∀ builder : SchemaBuilder σ,
    (calls.foldl tell builder).directives = (calls.filterMap BuilderCall.directive?).foldl
      (fun directives definition => Fields.insert directives definition.name definition)
      builder.directives := by
  induction calls with
  | nil => exact fun _ => rfl
  | cons call rest ih =>
      intro builder
      rw [List.foldl_cons, ih]
      cases call <;> rfl

/-- The roots are those that were named last. -/
theorem roots_foldl_tell (calls : List (BuilderCall σ)) : ∀ builder : SchemaBuilder σ,
    (calls.foldl tell builder).queryType = builder.queryType ∧
      (calls.foldl tell builder).mutationType? =
        (calls.filterMap BuilderCall.mutation?).getLast?.or builder.mutationType? ∧
      (calls.foldl tell builder).subscriptionType? =
        (calls.filterMap BuilderCall.subscription?).getLast?.or builder.subscriptionType? := by
  have last {α : Type} (first : α) (rest : List α) (before : Option α) :
      rest.getLast?.or (some first) = (first :: rest).getLast?.or before := by
    cases rest with
    | nil => rfl
    | cons second rest => rw [List.getLast?_cons_cons, List.getLast?_cons]; rfl
  induction calls with
  | nil => exact fun _ => ⟨rfl, rfl, rfl⟩
  | cons call rest ih =>
      intro builder
      obtain ⟨query, mutation, subscription⟩ := ih (builder.tell call)
      rw [List.foldl_cons, query, mutation, subscription]
      cases call with
      | mutation name => exact ⟨rfl, last _ _ _, rfl⟩
      | subscription name => exact ⟨rfl, rfl, last _ _ _⟩
      | register type => exact ⟨rfl, rfl, rfl⟩
      | directive definition => exact ⟨rfl, rfl, rfl⟩
      | hook set => exact ⟨rfl, rfl, rfl⟩

/-- A builder notices every name that is registered again, and no other. -/
theorem duplicates_foldl_tell (calls : List (BuilderCall σ)) : ∀ builder : SchemaBuilder σ,
    builder.types.keys.Nodup →
    ((calls.foldl tell builder).duplicates = [] ↔ builder.duplicates = [] ∧
      (builder.types.keys ++ (calls.filterMap BuilderCall.type?).map (·.name)).Nodup) := by
  induction calls with
  | nil => exact fun builder once => by simpa using fun _ => once
  | cons call rest ih =>
      intro builder once
      rw [List.foldl_cons]
      cases call with
      | register type =>
          have once' : (builder.register type).types.keys.Nodup := Fields.nodup_keys_insert once
          rw [show builder.tell (.register type) = builder.register type from rfl, ih _ once']
          have known : Fields.has builder.types type.name = true ↔
              type.name ∈ builder.types.keys := Fields.has_iff_mem_keys
          show (if Fields.has builder.types type.name then builder.duplicates ++ [type.name]
            else builder.duplicates) = [] ∧
              ((Fields.insert builder.types type.name type).keys ++ _).Nodup ↔
            builder.duplicates = [] ∧ (builder.types.keys ++ type.name :: _).Nodup
          by_cases present : type.name ∈ builder.types.keys
          · rw [if_pos (known.mpr present)]
            constructor
            · exact fun ⟨nothing, _⟩ => absurd nothing (by simp)
            · intro ⟨_, distinct⟩
              exact absurd rfl
                ((List.nodup_append.mp distinct).2.2 _ present _ List.mem_cons_self)
          · rw [if_neg (mt known.mp present), Fields.insert_of_not_mem present]
            simp [Fields.keys]
      | directive definition => exact ih _ once
      | mutation name => exact ih _ once
      | subscription name => exact ih _ once
      | hook set => exact ih _ once

end Calls

/-! ### Entries that are put in one after the other -/

/-- A definition is in effect behind another one, or is that one and not registered again. -/
theorem inEffect_cons {first definition : DirectiveDefinition σ}
    {rest : List (DirectiveDefinition σ)} :
    DirectiveDefinition.InEffect (first :: rest) definition ↔
      DirectiveDefinition.InEffect rest definition ∨
        definition = first ∧ ∀ other ∈ rest, other.name ≠ first.name := by
  constructor
  · rintro ⟨front, back, same, apart⟩
    cases front with
    | nil =>
        obtain ⟨rfl, rfl⟩ := List.cons.inj same
        exact .inr ⟨rfl, apart⟩
    | cons _ front =>
        obtain ⟨rfl, rfl⟩ := List.cons.inj same
        exact .inl ⟨front, back, rfl, apart⟩
  · rintro (⟨front, back, rfl, apart⟩ | ⟨rfl, apart⟩)
    · exact ⟨first :: front, back, rfl, apart⟩
    · exact ⟨[], rest, rfl, apart⟩

/-- A directive is in effect exactly if it is an entry in the end. -/
theorem mem_values_foldl_insert (definitions : List (DirectiveDefinition σ))
    (definition : DirectiveDefinition σ) : ∀ before : Fields (DirectiveDefinition σ),
    before.keys.Nodup →
    (definition ∈ (definitions.foldl (fun directives definition =>
        Fields.insert directives definition.name definition) before).values ↔
      DirectiveDefinition.InEffect definitions definition ∨
        ∃ name, (name, definition) ∈ before ∧ ∀ other ∈ definitions, other.name ≠ name) := by
  induction definitions with
  | nil =>
      intro before _
      have none_in_effect : ¬ DirectiveDefinition.InEffect [] definition := by
        rintro ⟨front, back, same, -⟩
        simp at same
      simp [none_in_effect, Fields.values]
  | cons first rest ih =>
      intro before once
      rw [List.foldl_cons, ih _ (Fields.nodup_keys_insert once)]
      simp only [inEffect_cons, Fields.mem_insert once, List.forall_mem_cons]
      constructor
      · rintro (stands | ⟨name, ⟨rfl, rfl⟩ | ⟨mem, differs⟩, apart⟩)
        · exact .inl (.inl stands)
        · exact .inl (.inr ⟨rfl, apart⟩)
        · exact .inr ⟨name, mem, differs, apart⟩
      · rintro ((stands | ⟨rfl, apart⟩) | ⟨name, mem, differs, apart⟩)
        · exact .inl stands
        · exact .inr ⟨_, .inl ⟨rfl, rfl⟩, apart⟩
        · exact .inr ⟨name, .inr ⟨mem, differs⟩, apart⟩

end SchemaBuilder

end GraphExec
