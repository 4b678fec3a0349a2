import GraphExec.Proofs.Schema.Coherence

/-!
# The verdict on a schema

What a builder checks when it is finished, one lemma for each check. Together they say that the
types it was told of are coherent. Neither the verdict nor the possible types depend on the order in
which the types were registered.
-/

namespace GraphExec

variable {σ : Type}

namespace SchemaBuilder

variable (builder : SchemaBuilder σ)

/-- The name under all wrappers of a type reference is registered. -/
def Knows (reference : TypeRef) : Prop := reference.namedType ∈ builder.types.keys

/-- Whatever a type refers to is registered and of the right kind. -/
def Accepts : TypeDefinition σ → Prop
  | .object t =>
    (∀ field ∈ t.fields.values, builder.Knows field.type ∧
      ∀ argument ∈ field.arguments.values, builder.Knows argument.type) ∧
    ∀ name ∈ t.interfaces, ∃ other, Fields.get? builder.types name = some (.interface other)
  | .union t => ∀ name ∈ t.members, ∃ other, Fields.get? builder.types name = some (.object other)
  | .inputObject t => ∀ field ∈ t.fields.values, builder.Knows field.type
  | .interface _ => True
  | .scalar _ => True
  | .enum _ => True

/-! ### Checks -/

variable {builder}

theorem checkReference_eq_ok {owner : String} {reference : TypeRef} :
    builder.checkReference owner reference = .ok () ↔ builder.Knows reference := by
  have known : Fields.has builder.types reference.namedType = true ↔ builder.Knows reference :=
    Fields.has_iff_mem_keys
  rw [← known, checkReference]
  split
  · rename_i has
    simp [has]
  · rename_i missing
    simp [missing]

theorem checkInputs_eq_ok {owner : String} {definitions : List (InputDefinition σ)} :
    builder.checkInputs owner definitions = .ok () ↔
      ∀ definition ∈ definitions, builder.Knows definition.type := by
  induction definitions with
  | nil => exact ⟨fun _ _ mem => absurd mem List.not_mem_nil, fun _ => rfl⟩
  | cons definition rest ih =>
      rw [checkInputs, ← Except.succeeds_unit, Except.bind_succeeds, List.forall_mem_cons, ← ih,
        ← checkReference_eq_ok]
      exact ⟨fun ⟨_, first, _, others⟩ => ⟨first, others⟩,
        fun ⟨first, others⟩ => ⟨(), first, (), others⟩⟩

theorem checkFields_eq_ok {owner : String} {fields : List (FieldDefinition σ)} :
    builder.checkFields owner fields = .ok () ↔ ∀ field ∈ fields, builder.Knows field.type ∧
      ∀ argument ∈ field.arguments.values, builder.Knows argument.type := by
  induction fields with
  | nil => exact ⟨fun _ _ mem => absurd mem List.not_mem_nil, fun _ => rfl⟩
  | cons field rest ih =>
      rw [checkFields, ← Except.succeeds_unit, Except.bind_succeeds, List.forall_mem_cons, ← ih,
        ← checkReference_eq_ok, ← checkInputs_eq_ok]
      simp only [Except.bind_succeeds]
      exact ⟨fun ⟨_, own, _, inputs, _, others⟩ => ⟨⟨own, inputs⟩, others⟩,
        fun ⟨⟨own, inputs⟩, others⟩ => ⟨(), own, (), inputs, (), others⟩⟩

theorem addInterfaces_succeeds {object : String} {names : List String} :
    ∀ {possible : Possible}, (∃ after, builder.addInterfaces object possible names = .ok after) ↔
      ∀ name ∈ names, ∃ other, Fields.get? builder.types name = some (.interface other) := by
  induction names with
  | nil => exact ⟨fun _ _ mem => absurd mem List.not_mem_nil, fun _ => ⟨_, rfl⟩⟩
  | cons name rest ih =>
      intro possible
      rw [addInterfaces, List.forall_mem_cons]
      split
      · rename_i other found
        rw [ih]
        simp [found]
      · rename_i missing
        constructor
        · rintro ⟨after, fails⟩
          cases fails
        · rintro ⟨⟨other, found⟩, -⟩
          exact absurd found (missing other)

theorem addMembers_succeeds {union : String} {names : List String} :
    ∀ {possible : Possible}, (∃ after, builder.addMembers union possible names = .ok after) ↔
      ∀ name ∈ names, ∃ other, Fields.get? builder.types name = some (.object other) := by
  induction names with
  | nil => exact ⟨fun _ _ mem => absurd mem List.not_mem_nil, fun _ => ⟨_, rfl⟩⟩
  | cons name rest ih =>
      intro possible
      rw [addMembers, List.forall_mem_cons]
      split
      · rename_i other found
        rw [ih]
        simp [found]
      · rename_i missing
        constructor
        · rintro ⟨after, fails⟩
          cases fails
        · rintro ⟨⟨other, found⟩, -⟩
          exact absurd found (missing other)

theorem addType_succeeds {possible : Possible} {type : TypeDefinition σ} :
    (∃ after, builder.addType possible type = .ok after) ↔ builder.Accepts type := by
  cases type with
  | object t =>
      simp only [addType, Except.bind_succeeds, addInterfaces_succeeds, exists_and_right,
        Except.succeeds_unit, checkFields_eq_ok, Accepts]
  | union t => exact addMembers_succeeds
  | inputObject t =>
      rw [addType, Except.bind_succeeds, Accepts, ← checkInputs_eq_ok]
      refine ⟨?_, fun checked => ⟨(), checked, _, rfl⟩⟩
      rintro ⟨_, checked, _⟩
      exact checked
  | interface t => exact ⟨fun _ => trivial, fun _ => ⟨_, rfl⟩⟩
  | scalar t => exact ⟨fun _ => trivial, fun _ => ⟨_, rfl⟩⟩
  | enum t => exact ⟨fun _ => trivial, fun _ => ⟨_, rfl⟩⟩

theorem addTypes_succeeds {types : List (TypeDefinition σ)} :
    ∀ {possible : Possible}, (∃ after, builder.addTypes possible types = .ok after) ↔
      ∀ type ∈ types, builder.Accepts type := by
  induction types with
  | nil => exact ⟨fun _ _ mem => absurd mem List.not_mem_nil, fun _ => ⟨_, rfl⟩⟩
  | cons type rest ih =>
      intro possible
      rw [addTypes, Except.bind_succeeds, List.forall_mem_cons]
      constructor
      · rintro ⟨middle, added, others⟩
        exact ⟨addType_succeeds.mp ⟨middle, added⟩, ih.mp others⟩
      · rintro ⟨accepts, others⟩
        obtain ⟨middle, added⟩ := addType_succeeds.mpr accepts
        exact ⟨middle, added, ih.mpr others⟩

theorem checkDirectives_eq_ok {definitions : List (DirectiveDefinition σ)} :
    builder.checkDirectives definitions = .ok () ↔ ∀ definition ∈ definitions,
      ∀ argument ∈ definition.arguments.values, builder.Knows argument.type := by
  induction definitions with
  | nil => exact ⟨fun _ _ mem => absurd mem List.not_mem_nil, fun _ => rfl⟩
  | cons definition rest ih =>
      rw [checkDirectives, ← Except.succeeds_unit, Except.bind_succeeds, List.forall_mem_cons, ← ih,
        ← checkInputs_eq_ok]
      exact ⟨fun ⟨_, first, _, others⟩ => ⟨first, others⟩,
        fun ⟨first, others⟩ => ⟨(), first, (), others⟩⟩

theorem checkRoot_eq_ok {name : String} : builder.checkRoot name = .ok () ↔
    ∃ type, Fields.get? builder.types name = some (.object type) := by
  unfold checkRoot
  split
  · rename_i type found
    simp [found]
  · rename_i other no_object found
    constructor
    · intro fails
      cases fails
    · rintro ⟨type, here⟩
      exact absurd (Option.some.inj (found.symm.trans here)) (no_object type)
  · rename_i missing
    simp [missing]

theorem forM_checkRoot_eq_ok {names : List String} :
    names.forM builder.checkRoot = .ok () ↔
      ∀ name ∈ names, ∃ type, Fields.get? builder.types name = some (.object type) := by
  induction names with
  | nil => exact ⟨fun _ _ mem => absurd mem List.not_mem_nil, fun _ => rfl⟩
  | cons name rest ih =>
      rw [List.forM_eq_forM, List.forM_cons, ← Except.succeeds_unit, Except.bind_succeeds,
        List.forall_mem_cons, ← ih, ← checkRoot_eq_ok]
      exact ⟨fun ⟨_, first, _, others⟩ => ⟨first, others⟩,
        fun ⟨first, others⟩ => ⟨(), first, (), others⟩⟩

/-- A builder can be finished if it passes every check. -/
theorem finish_succeeds : (∃ schema, builder.finish = .ok schema) ↔
    builder.duplicates = [] ∧
      (∀ root ∈ builder.roots, ∃ type, Fields.get? builder.types root = some (.object type)) ∧
      (∀ type ∈ builder.types.values, builder.Accepts type) ∧
      ∀ definition ∈ builder.directives.values,
        ∀ argument ∈ definition.arguments.values, builder.Knows argument.type := by
  unfold finish
  cases builder.duplicates with
  | cons name rest =>
      refine ⟨fun ⟨_, fails⟩ => ?_, fun ⟨once, _⟩ => by cases once⟩
      cases fails
  | nil =>
      simp only [Except.bind_succeeds, true_and]
      rw [← forM_checkRoot_eq_ok, ← checkDirectives_eq_ok]
      constructor
      · rintro ⟨_, roots, possible, added, _, directives, _⟩
        exact ⟨roots, addTypes_succeeds.mp ⟨possible, added⟩, directives⟩
      · rintro ⟨roots, accepts, directives⟩
        obtain ⟨possible, added⟩ := addTypes_succeeds.mpr accepts
        exact ⟨(), roots, possible, added, (), directives, _, rfl⟩

/-! ### The types that a builder was told of -/

section Told

variable {queryType : String} {calls : List (BuilderCall σ)}

/-- Types of different names stay in the order in which they were registered. -/
theorem types_ofCalls (once : ((BuilderCall.types calls).map (·.name)).Nodup) :
    (ofCalls queryType calls).types =
      (BuilderCall.types calls).map fun type => (type.name, type) := by
  have distinct : (((BuilderCall.types calls).map fun type => (type.name, type)).map
      (·.1)).Nodup := by
    rwa [List.map_map]
  rw [ofCalls_eq, types_foldl_tell, ← Fields.ofList_of_nodup distinct, Fields.ofList,
    List.foldl_map]
  rfl

theorem values_ofCalls (once : ((BuilderCall.types calls).map (·.name)).Nodup) :
    (ofCalls queryType calls).types.values = BuilderCall.types calls := by
  rw [types_ofCalls once, Fields.values, List.map_map]
  exact List.map_id _

theorem knows_ofCalls (once : ((BuilderCall.types calls).map (·.name)).Nodup)
    (reference : TypeRef) :
    (ofCalls queryType calls).Knows reference ↔ reference.Refers (BuilderCall.types calls) := by
  rw [Knows, TypeRef.Refers, types_ofCalls once, Fields.keys, List.map_map]
  rfl

/-- A type is found under its name, and nothing else is. -/
theorem get?_ofCalls (once : ((BuilderCall.types calls).map (·.name)).Nodup) {name : String}
    {type : TypeDefinition σ} :
    Fields.get? (ofCalls queryType calls).types name = some type ↔
      type ∈ BuilderCall.types calls ∧ type.name = name := by
  have named := (built_ofCalls queryType calls).named
  constructor
  · intro found
    have mem := Fields.mem_values_of_get? found
    rw [values_ofCalls once] at mem
    exact ⟨mem, named.own name type found⟩
  · rintro ⟨mem, rfl⟩
    refine Fields.get?_of_mem named.once ?_
    rw [types_ofCalls once]
    exact List.mem_map_of_mem mem

theorem duplicates_ofCalls : (ofCalls queryType calls).duplicates = [] ↔
    ((BuilderCall.types calls).map (·.name)).Nodup := by
  have noticed := duplicates_foldl_tell (BuilderCall.builtIn ++ calls)
    (blank queryType : SchemaBuilder σ) List.nodup_nil
  rw [ofCalls_eq, noticed]
  exact ⟨And.right, fun once => ⟨rfl, once⟩⟩

theorem roots_ofCalls :
    (ofCalls queryType calls).roots = BuilderCall.roots queryType calls := by
  obtain ⟨query, mutation, subscription⟩ := roots_foldl_tell calls (new queryType)
  have unnamed : (new queryType : SchemaBuilder σ).mutationType? = none ∧
      (new queryType : SchemaBuilder σ).subscriptionType? = none := ⟨rfl, rfl⟩
  rw [unnamed.1, Option.or_none] at mutation
  rw [unnamed.2, Option.or_none] at subscription
  rw [roots, ofCalls, query, mutation, subscription]
  rfl

theorem mem_directives_ofCalls {definition : DirectiveDefinition σ} :
    definition ∈ (ofCalls queryType calls).directives.values ↔
      DirectiveDefinition.InEffect (BuilderCall.directives calls) definition := by
  rw [ofCalls_eq, directives_foldl_tell, blank, mem_values_foldl_insert _ _ [] List.nodup_nil]
  exact ⟨fun stands => stands.elim id fun ⟨_, mem, _⟩ => absurd mem List.not_mem_nil, .inl⟩

end Told

/-! ### The verdict -/

/-- A builder can be finished exactly if the types that it was told of are coherent. -/
theorem succeeds_iff_coherent {queryType : String} {calls : List (BuilderCall σ)} :
    (∃ schema, (ofCalls queryType calls).finish = .ok schema) ↔
      Coherent (BuilderCall.types calls) (BuilderCall.directives calls)
        (BuilderCall.roots queryType calls) := by
  rw [finish_succeeds, duplicates_ofCalls, roots_ofCalls]
  simp only [mem_directives_ofCalls]
  constructor
  · rintro ⟨once, roots, accepts, directives⟩
    simp only [values_ofCalls once] at accepts
    simp only [get?_ofCalls once] at roots
    simp only [knows_ofCalls once] at directives
    refine ⟨once, roots, fun type mem => ?_, fun type mem => ?_, fun type mem => ?_,
      fun type mem => ?_, directives⟩
    · have fields := (accepts _ mem).1
      simpa only [knows_ofCalls once] using fields
    · have interfaces := (accepts _ mem).2
      simp only [get?_ofCalls once] at interfaces
      exact interfaces
    · have members := accepts _ mem
      simp only [Accepts, get?_ofCalls once] at members
      exact members
    · have inputs := accepts _ mem
      simpa only [Accepts, knows_ofCalls once] using inputs
  · intro coherent
    have once := coherent.once
    simp only [values_ofCalls once, get?_ofCalls once, knows_ofCalls once]
    refine ⟨once, coherent.roots, fun type mem => ?_, coherent.directives⟩
    cases type with
    | object t =>
        simp only [Accepts, get?_ofCalls once, knows_ofCalls once]
        exact ⟨coherent.fields t mem, coherent.interfaces t mem⟩
    | union t =>
        simp only [Accepts, get?_ofCalls once]
        exact coherent.members t mem
    | inputObject t =>
        simp only [Accepts, knows_ofCalls once]
        exact coherent.inputs t mem
    | interface t => trivial
    | scalar t => trivial
    | enum t => trivial

/-- The possible types are those that the types tell of. -/
theorem isPossibleType_ofCalls {queryType : String} {calls : List (BuilderCall σ)}
    {schema : Schema σ} (finish : (ofCalls queryType calls).finish = .ok schema)
    {condition object : String} :
    schema.isPossibleType condition object = true ↔
      ∃ type ∈ BuilderCall.types calls, type.Tells condition object := by
  have once := (succeeds_iff_coherent.mp ⟨schema, finish⟩).once
  have finished : schema.Finished := ⟨_, built_ofCalls queryType calls, finish⟩
  have same : schema.types = (ofCalls queryType calls).types := (Schema.finish_eq finish).1
  rw [finished.isPossibleType_iff]
  simp only [Schema.type?, same, get?_ofCalls once]
  constructor
  · rintro ⟨_, type, ⟨mem, _⟩, tells⟩
    exact ⟨type, mem, tells⟩
  · rintro ⟨type, mem, tells⟩
    exact ⟨_, type, ⟨mem, rfl⟩, tells⟩

/-- A builder can be finished exactly if what it was told of is coherent. The possible types of the
schema are then the object types themselves, those that implement an interface and the members of a
union. The order in which types were registered matters for neither. -/
theorem finish_judges (queryType : String) (calls : List (BuilderCall σ)) :
    ((∃ schema, (ofCalls queryType calls).finish = .ok schema) ↔
      Coherent (BuilderCall.types calls) (BuilderCall.directives calls)
        (BuilderCall.roots queryType calls)) ∧
    (∀ schema, (ofCalls queryType calls).finish = .ok schema → ∀ condition object,
      schema.isPossibleType condition object = true ↔
        ∃ type, .object type ∈ BuilderCall.types calls ∧ type.name = object ∧
          (condition = object ∨ condition ∈ type.interfaces ∨
            ∃ union, .union union ∈ BuilderCall.types calls ∧ union.name = condition ∧
              object ∈ union.members)) ∧
    ∀ other, BuilderCall.Reordered calls other →
      ((∃ schema, (ofCalls queryType other).finish = .ok schema) ↔
        ∃ schema, (ofCalls queryType calls).finish = .ok schema) ∧
      ∀ schema schema', (ofCalls queryType calls).finish = .ok schema →
        (ofCalls queryType other).finish = .ok schema' → ∀ condition object,
          schema'.isPossibleType condition object = schema.isPossibleType condition object := by
  refine ⟨succeeds_iff_coherent, fun schema finish condition object => ?_,
    fun other reordered => ⟨?_, fun schema schema' finish finish' condition object => ?_⟩⟩
  · have coherent := succeeds_iff_coherent.mp ⟨schema, finish⟩
    rw [isPossibleType_ofCalls finish]
    constructor
    · rintro ⟨type, mem, tells⟩
      cases type with
      | object t =>
          obtain ⟨rfl, stands⟩ := tells
          exact ⟨t, mem, rfl, stands.imp_right .inl⟩
      | union t =>
          obtain ⟨rfl, among⟩ := tells
          obtain ⟨type, known, rfl⟩ := coherent.members t mem object among
          exact ⟨type, known, rfl, .inr (.inr ⟨t, mem, rfl, among⟩)⟩
      | interface t => cases tells
      | scalar t => cases tells
      | enum t => cases tells
      | inputObject t => cases tells
    · rintro ⟨type, mem, rfl, stands⟩
      obtain rfl | implements | ⟨union, known, rfl, among⟩ := stands
      · exact ⟨_, mem, rfl, .inl rfl⟩
      · exact ⟨_, mem, rfl, .inr implements⟩
      · exact ⟨_, known, rfl, among⟩
  · rw [succeeds_iff_coherent, succeeds_iff_coherent, reordered.directives, reordered.roots]
    exact ⟨fun coherent => coherent.perm reordered.types.symm,
      fun coherent => coherent.perm reordered.types⟩
  · rw [Bool.eq_iff_iff, isPossibleType_ofCalls finish, isPossibleType_ofCalls finish']
    simp only [reordered.types.mem_iff]

/-- Pets of two kinds, one of which implements an interface. -/
def zoo : List (BuilderCall Unit) :=
  [.register (.object
      { name := "Query", fields := [("pet", { name := "pet", type := .named "Pet" })] }),
    .register (.interface { name := "Pet" }), .mutation "Query",
    .register (.union { name := "Animal", members := ["Dog", "Cat"] }),
    .register (.object { name := "Dog", interfaces := ["Pet"] }),
    .register (.object { name := "Cat" })]

/-- Whether the union or the interface comes before its objects, they stand for the same. -/
theorem finish_judges_zoo :
    BuilderCall.Reordered zoo zoo.reverse ∧
      ∃ schema schema', (ofCalls "Query" zoo).finish = .ok schema ∧
        (ofCalls "Query" zoo.reverse).finish = .ok schema' ∧
        schema'.isPossibleType "Animal" "Cat" = true ∧
        schema'.isPossibleType "Pet" "Cat" = false := by
  have reordered : BuilderCall.Reordered zoo zoo.reverse :=
    ⟨(List.reverse_perm zoo).filterMap _, rfl⟩
  have finishes : (ofCalls "Query" zoo).finish.toBool = true := rfl
  obtain ⟨schema, finish⟩ : ∃ schema, (ofCalls "Query" zoo).finish = .ok schema := by
    cases finish : (ofCalls "Query" zoo).finish with
    | ok schema => exact ⟨schema, rfl⟩
    | error error => rw [finish] at finishes; cases finishes
  obtain ⟨-, stands, same⟩ := finish_judges "Query" zoo
  obtain ⟨also, equal⟩ := same _ reordered
  obtain ⟨schema', finish'⟩ := also.mpr ⟨schema, finish⟩
  refine ⟨reordered, schema, schema', finish, finish', ?_, ?_⟩
  · rw [equal schema schema' finish finish', stands schema finish]
    refine ⟨{ name := "Cat" }, ?_, rfl,
      .inr (.inr ⟨{ name := "Animal", members := ["Dog", "Cat"] }, ?_, rfl, ?_⟩)⟩
    · simp [zoo, BuilderCall.types, BuilderCall.type?]
    · simp [zoo, BuilderCall.types, BuilderCall.type?]
    · decide
  · rw [equal schema schema' finish finish', Bool.eq_false_iff, ne_eq, stands schema finish]
    simp [zoo, BuilderCall.types, BuilderCall.type?, BuilderCall.builtIn]

end SchemaBuilder

end GraphExec
