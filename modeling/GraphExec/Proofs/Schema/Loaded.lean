import GraphExec.Arguments.Coercion
import GraphExec.Proofs.Execution
import GraphExec.Proofs.Schema.Verdict

/-!
# The types that arguments are loaded as

A builder that is finished checks the types of arguments, and overlooks the types that they are
loaded as. If no object type has such a name there is no hook to ask, and whatever is loaded is let
through.
-/

namespace GraphExec

variable {σ : Type}

/-- The same entries with other values. -/
def Fields.mapValues {α β : Type} (f : α → β) (fields : Fields α) : Fields β :=
  fields.map fun entry => (entry.1, f entry.2)

@[simp] theorem Fields.mem_values_mapValues {α β : Type} {f : α → β} {fields : Fields α} {b : β} :
    b ∈ (mapValues f fields).values ↔ ∃ a ∈ fields.values, f a = b := by
  simp only [mapValues, values, List.map_map, List.mem_map]
  constructor
  · rintro ⟨entry, mem, rfl⟩
    exact ⟨entry.2, ⟨entry, mem, rfl⟩, rfl⟩
  · rintro ⟨_, ⟨entry, mem, rfl⟩, rfl⟩
    exact ⟨entry, mem, rfl⟩

/-! ### Loading as another type -/

/-- The value is loaded as another type. -/
def InputDefinition.loadingAs (rename : String → String) (definition : InputDefinition σ) :
    InputDefinition σ :=
  { definition with loads? := definition.loads?.map fun loads => (rename loads.1, loads.2) }

/-- The arguments of a field are loaded as other types. -/
def FieldDefinition.loadingAs (rename : String → String) (field : FieldDefinition σ) :
    FieldDefinition σ :=
  { field with arguments := field.arguments.mapValues (·.loadingAs rename) }

/-- Whatever the definitions of a type load is loaded as other types. -/
def TypeDefinition.loadingAs (rename : String → String) : TypeDefinition σ → TypeDefinition σ
  | .object t => .object { t with fields := t.fields.mapValues (·.loadingAs rename) }
  | .inputObject t => .inputObject { t with fields := t.fields.mapValues (·.loadingAs rename) }
  | .scalar t => .scalar t
  | .enum t => .enum t
  | .interface t => .interface t
  | .union t => .union t

/-- The arguments of a directive are loaded as other types. -/
def DirectiveDefinition.loadingAs (rename : String → String)
    (definition : DirectiveDefinition σ) : DirectiveDefinition σ :=
  { definition with arguments := definition.arguments.mapValues (·.loadingAs rename) }

namespace BuilderCall

/-- Whatever is loaded is loaded as other types. -/
def loadingAs (rename : String → String) : BuilderCall σ → BuilderCall σ
  | register type => register (type.loadingAs rename)
  | directive definition => directive (definition.loadingAs rename)
  | mutation name => mutation name
  | subscription name => subscription name
  | hook set => hook set

/-- A definition is that of an argument of a field, or of a directive in effect. -/
def Argument (calls : List (BuilderCall σ)) (argument : InputDefinition σ) : Prop :=
  (∃ type, .object type ∈ types calls ∧ ∃ field ∈ type.fields.values,
    argument ∈ field.arguments.values) ∨
  ∃ definition, DirectiveDefinition.InEffect (directives calls) definition ∧
    argument ∈ definition.arguments.values

variable (rename : String → String) (calls : List (BuilderCall σ))

theorem types_loadingAs :
    types (calls.map (·.loadingAs rename)) = (types calls).map (·.loadingAs rename) := by
  have own : (builtIn : List (BuilderCall σ)).filterMap type? =
      (builtIn.filterMap type?).map (·.loadingAs rename) := rfl
  rw [types, types, List.filterMap_append, List.filterMap_append, List.map_append, ← own,
    List.filterMap_map, List.map_filterMap]
  congr 2
  funext call
  cases call <;> rfl

theorem directives_loadingAs :
    directives (calls.map (·.loadingAs rename)) = (directives calls).map (·.loadingAs rename) := by
  have own : (builtIn : List (BuilderCall σ)).filterMap directive? =
      (builtIn.filterMap directive?).map (·.loadingAs rename) := rfl
  rw [directives, directives, List.filterMap_append, List.filterMap_append, List.map_append, ← own,
    List.filterMap_map, List.map_filterMap]
  congr 2
  funext call
  cases call <;> rfl

theorem roots_loadingAs (queryType : String) :
    roots queryType (calls.map (·.loadingAs rename)) = roots queryType calls := by
  have mutations : (calls.map (·.loadingAs rename)).filterMap mutation? =
      calls.filterMap mutation? := by
    rw [List.filterMap_map]
    congr 1
    funext call
    cases call <;> rfl
  have subscriptions : (calls.map (·.loadingAs rename)).filterMap subscription? =
      calls.filterMap subscription? := by
    rw [List.filterMap_map]
    congr 1
    funext call
    cases call <;> rfl
  rw [roots, roots, mutations, subscriptions]

end BuilderCall

section Coherent

variable {rename : String → String} {types : List (TypeDefinition σ)}
  {definitions : List (DirectiveDefinition σ)} {roots : List String}

@[simp] theorem TypeDefinition.name_loadingAs (type : TypeDefinition σ) :
    (type.loadingAs rename).name = type.name := by
  cases type <;> rfl

theorem names_loadingAs :
    (types.map (·.loadingAs rename)).map (·.name) = types.map (·.name) := by
  rw [List.map_map]
  exact List.map_congr_left fun type _ => type.name_loadingAs

theorem refers_loadingAs {reference : TypeRef} :
    reference.Refers (types.map (·.loadingAs rename)) ↔ reference.Refers types := by
  rw [TypeRef.Refers, TypeRef.Refers, names_loadingAs]

theorem object_mem_loadingAs {type : ObjectType σ} :
    .object type ∈ types.map (·.loadingAs rename) ↔
      ∃ t, .object t ∈ types ∧
        { t with fields := t.fields.mapValues (·.loadingAs rename) } = type := by
  rw [List.mem_map]
  constructor
  · rintro ⟨t, mem, same⟩
    cases t <;> cases same
    exact ⟨_, mem, rfl⟩
  · rintro ⟨t, mem, rfl⟩
    exact ⟨_, mem, rfl⟩

theorem inputObject_mem_loadingAs {type : InputObjectType σ} :
    .inputObject type ∈ types.map (·.loadingAs rename) ↔
      ∃ t, .inputObject t ∈ types ∧
        { t with fields := t.fields.mapValues (·.loadingAs rename) } = type := by
  rw [List.mem_map]
  constructor
  · rintro ⟨t, mem, same⟩
    cases t <;> cases same
    exact ⟨_, mem, rfl⟩
  · rintro ⟨t, mem, rfl⟩
    exact ⟨_, mem, rfl⟩

theorem interface_mem_loadingAs {type : InterfaceType σ} :
    .interface type ∈ types.map (·.loadingAs rename) ↔ .interface type ∈ types := by
  rw [List.mem_map]
  constructor
  · rintro ⟨t, mem, same⟩
    cases t <;> cases same
    exact mem
  · exact fun mem => ⟨_, mem, rfl⟩

theorem union_mem_loadingAs {type : UnionType σ} :
    .union type ∈ types.map (·.loadingAs rename) ↔ .union type ∈ types := by
  rw [List.mem_map]
  constructor
  · rintro ⟨t, mem, same⟩
    cases t <;> cases same
    exact mem
  · exact fun mem => ⟨_, mem, rfl⟩

/-- A directive is in effect exactly if it was before. -/
theorem inEffect_loadingAs {definition : DirectiveDefinition σ} :
    DirectiveDefinition.InEffect (definitions.map (·.loadingAs rename)) definition ↔
      ∃ d, DirectiveDefinition.InEffect definitions d ∧ d.loadingAs rename = definition := by
  constructor
  · rintro ⟨before, after, same, apart⟩
    obtain ⟨front, back, rfl, rfl, split⟩ := List.map_eq_append_iff.mp same
    obtain ⟨d, rest, rfl, rfl, rfl⟩ := List.map_eq_cons_iff.mp split
    exact ⟨d, ⟨front, rest, rfl, fun other mem => apart (other.loadingAs rename)
      (List.mem_map.mpr ⟨other, mem, rfl⟩)⟩, rfl⟩
  · rintro ⟨d, ⟨before, after, rfl, apart⟩, rfl⟩
    refine ⟨before.map (·.loadingAs rename), after.map (·.loadingAs rename), by simp, ?_⟩
    rintro other mem
    obtain ⟨o, among, rfl⟩ := List.mem_map.mp mem
    exact apart o among

/-- What types load their arguments as has no part in whether they are coherent. -/
theorem coherent_loadingAs :
    Coherent (types.map (·.loadingAs rename)) (definitions.map (·.loadingAs rename)) roots ↔
      Coherent types definitions roots := by
  simp only [coherent_iff, names_loadingAs, refers_loadingAs, object_mem_loadingAs,
    inputObject_mem_loadingAs, interface_mem_loadingAs, union_mem_loadingAs, inEffect_loadingAs]
  simp [FieldDefinition.loadingAs, InputDefinition.loadingAs, DirectiveDefinition.loadingAs]

end Coherent

/-- An argument that is loaded as another type is an argument still. -/
theorem BuilderCall.Argument.loadingAs {calls : List (BuilderCall σ)}
    {argument : InputDefinition σ} (stands : Argument calls argument)
    (rename : String → String) :
    Argument (calls.map (·.loadingAs rename)) (argument.loadingAs rename) := by
  unfold Argument
  rw [types_loadingAs, directives_loadingAs]
  obtain ⟨type, mem, field, own, among⟩ | ⟨definition, effect, among⟩ := stands
  · exact .inl ⟨_, object_mem_loadingAs.mpr ⟨type, mem, rfl⟩, field.loadingAs rename,
      Fields.mem_values_mapValues.mpr ⟨field, own, rfl⟩,
      Fields.mem_values_mapValues.mpr ⟨argument, among, rfl⟩⟩
  · exact .inr ⟨_, inEffect_loadingAs.mpr ⟨definition, effect, rfl⟩,
      Fields.mem_values_mapValues.mpr ⟨argument, among, rfl⟩⟩

/-! ### What is loaded is authorized -/

namespace Schema

variable {schema : Schema σ}

/-- Nobody is asked about an object if the type that it is loaded as has no hook. -/
theorem authorizeLoaded_of_unhooked {typeName : String}
    (unhooked : ∀ type, schema.objectType? typeName = some type → type.authorize? = none)
    (object : AppValue) (query : QueryContext) :
    schema.authorizeLoaded typeName object query = pure (.ready true) := by
  unfold authorizeLoaded
  cases known : schema.objectType? typeName with
  | none => rfl
  | some type => rw [Option.bind_some, unhooked type known]

/-- An argument is refused only if the type that it is loaded as has a hook. -/
theorem loadArgument_always {argument : InputDefinition σ}
    (unhooked : ∀ loads, argument.loads? = some loads → ∀ type,
      schema.objectType? loads.1 = some type → type.authorize? = none)
    (query : QueryContext) (waiting : Bool) (value : Value) :
    (schema.loadArgument argument query waiting value).run.Always fun result =>
      ∀ refused, result ≠ .error (.unauthorized refused) := by
  unfold loadArgument
  split
  · exact fun refused wrong => by cases wrong
  · rename_i typeName load loads
    split
    · exact fun refused wrong => by cases wrong
    · have own : (Attempt.callOr ArgumentError.ofResolverError (load value query)).run.Always
          fun result => ∀ refused, result ≠ .error (.unauthorized refused) := by
        refine Action.Always.bind (Action.always (fun _ => trivial) _) fun answer _ => ?_
        cases answer with
        | ok object => exact fun refused wrong => by cases wrong
        | error error => cases error <;> exact fun refused wrong => by cases wrong
      refine Action.Always.bind (f := ExceptT.bindCont _) own fun result fine => ?_
      cases result with
      | error error =>
          intro refused wrong
          injection wrong with same
          exact fine refused (congrArg _ same)
      | ok object =>
          cases waiting with
          | true => cases object <;> exact fun refused wrong => by cases wrong
          | false =>
              cases object with
              | later lazy => exact fun refused wrong => by cases wrong
              | ready object =>
                  show ((Attempt.call _ >>= _ : Attempt σ ArgumentError _).run).Always _
                  rw [authorizeLoaded_of_unhooked (unhooked _ loads)]
                  exact fun refused wrong => by cases wrong

end Schema

namespace SchemaBuilder

/-- The object type of a name in a finished schema is the one that was registered. -/
theorem objectType?_ofCalls {queryType : String} {calls : List (BuilderCall σ)}
    {schema : Schema σ} (finish : (ofCalls queryType calls).finish = .ok schema) {name : String}
    {type : ObjectType σ} : schema.objectType? name = some type ↔
      .object type ∈ BuilderCall.types calls ∧ type.name = name := by
  have once := (succeeds_iff_coherent.mp ⟨schema, finish⟩).once
  have found : Fields.get? (ofCalls queryType calls).types name = some (.object type) ↔ _ :=
    get?_ofCalls once
  rw [← (Schema.finish_eq finish).1] at found
  unfold Schema.objectType? Schema.type?
  refine Iff.trans ?_ found
  split
  · rename_i t known
    rw [known, Option.some_inj, Option.some_inj, TypeDefinition.object.injEq]
  · rename_i unknown
    constructor
    · intro wrong
      cases wrong
    · exact fun known => absurd known (unknown type)

/-- The types that arguments are loaded as play no part in whether a builder can be finished. In the
schema, what an argument loads is put to the hook of the object type of that name, if there is one.
If that type has no hook, and likewise if no such type was registered, whatever is loaded is let
through. -/
theorem finish_overlooks_loads (queryType : String) (calls : List (BuilderCall σ)) :
    (∀ rename,
      (∃ schema, (ofCalls queryType (calls.map (·.loadingAs rename))).finish = .ok schema) ↔
        ∃ schema, (ofCalls queryType calls).finish = .ok schema) ∧
    ∀ schema, (ofCalls queryType calls).finish = .ok schema →
      ∀ argument, BuilderCall.Argument calls argument →
        argument.type.Refers (BuilderCall.types calls) ∧
        ∀ typeName load, argument.loads? = some (typeName, load) →
          (∀ type hook, .object type ∈ BuilderCall.types calls → type.name = typeName →
            type.authorize? = some hook →
            ∀ object query, schema.authorizeLoaded typeName object query = hook object query) ∧
          ((∀ type, .object type ∈ BuilderCall.types calls → type.name = typeName →
            type.authorize? = none) →
            (∀ object query,
              schema.authorizeLoaded typeName object query = pure (.ready true)) ∧
            ∀ query waiting value,
              (schema.loadArgument argument query waiting value).run.Always fun result =>
                ∀ refused, result ≠ .error (.unauthorized refused)) := by
  refine ⟨fun rename => ?_, fun schema finish argument stands => ⟨?_, ?_⟩⟩
  · rw [succeeds_iff_coherent, succeeds_iff_coherent, BuilderCall.types_loadingAs,
      BuilderCall.directives_loadingAs, BuilderCall.roots_loadingAs, coherent_loadingAs]
  · have coherent := succeeds_iff_coherent.mp ⟨schema, finish⟩
    obtain ⟨type, mem, field, own, among⟩ | ⟨definition, effect, among⟩ := stands
    · exact (coherent.fields type mem field own).2 argument among
    · exact coherent.directives definition effect argument among
  · intro typeName load loads
    constructor
    · intro type hook mem named hooked object query
      unfold Schema.authorizeLoaded
      rw [(objectType?_ofCalls finish).mpr ⟨mem, named⟩, Option.bind_some, hooked]
    · intro unhooked
      have unhooked' type (known : schema.objectType? typeName = some type) :
          type.authorize? = none := by
        obtain ⟨mem, named⟩ := (objectType?_ofCalls finish).mp known
        exact unhooked type mem named
      refine ⟨Schema.authorizeLoaded_of_unhooked unhooked', ?_⟩
      refine Schema.loadArgument_always fun other loads' => ?_
      obtain rfl := Option.some.inj (loads.symm.trans loads')
      exact unhooked'

/-- An argument that loads a secret. -/
def secretArgument : InputDefinition Unit :=
  { name := "id", type := .named "ID"
    loads? := some ("Secret", fun value _ => pure (.ok (.ready (.data value)))) }

/-- A type with a field that reads a secret. -/
def archiveType : ObjectType Unit :=
  { name := "Query"
    fields := [("read", { name := "read", type := .named "String"
                          arguments := [("id", secretArgument)] })] }

/-- Secrets may be seen by nobody. -/
def secretType : ObjectType Unit :=
  { name := "Secret", authorize? := some fun _ _ => pure (.ready false) }

/-- Secrets, and the field that reads them. -/
def archive : List (BuilderCall Unit) :=
  [.register (.object archiveType), .register (.object secretType)]

/-- The name of the type is misspelt. -/
def misspelt (name : String) : String := name ++ "s"

/-- If the type of the secret is misspelt, the builder is none the wiser and the secret is out. -/
theorem finish_overlooks_loads_archive : ∃ schema schema',
    (ofCalls "Query" archive).finish = .ok schema ∧
      (ofCalls "Query" (archive.map (·.loadingAs misspelt))).finish = .ok schema' ∧
      schema.authorizeLoaded "Secret" (.data .null) ⟨[], none, none⟩ = pure (.ready false) ∧
      schema'.authorizeLoaded "Secrets" (.data .null) ⟨[], none, none⟩ = pure (.ready true) := by
  have finishes : (ofCalls "Query" archive).finish.toBool = true := rfl
  obtain ⟨schema, finish⟩ : ∃ schema, (ofCalls "Query" archive).finish = .ok schema := by
    cases finish : (ofCalls "Query" archive).finish with
    | ok schema => exact ⟨schema, rfl⟩
    | error error => rw [finish] at finishes; cases finishes
  obtain ⟨blind, guarded⟩ := finish_overlooks_loads "Query" archive
  obtain ⟨schema', finish'⟩ := (blind misspelt).mpr ⟨schema, finish⟩
  obtain ⟨-, open_⟩ := finish_overlooks_loads "Query" (archive.map (·.loadingAs misspelt))
  have known : .object secretType ∈ BuilderCall.types archive := by
    simp [archive, BuilderCall.types, BuilderCall.type?]
  have here : BuilderCall.Argument archive secretArgument :=
    .inl ⟨archiveType, by simp [archive, BuilderCall.types, BuilderCall.type?], _,
      List.mem_cons_self, List.mem_cons_self⟩
  have there := here.loadingAs misspelt
  refine ⟨schema, schema', finish, finish', ?_, ?_⟩
  · exact ((guarded schema finish _ here).2 "Secret" _ rfl).1 secretType _ known rfl rfl _ _
  · refine (((open_ schema' finish' _ there).2 "Secrets" _ rfl).2 ?_).1 _ _
    intro type mem named
    simp [archive, BuilderCall.types, BuilderCall.type?, BuilderCall.builtIn, BuilderCall.loadingAs,
      TypeDefinition.loadingAs] at mem
    obtain rfl | rfl := mem <;> simp [archiveType, secretType] at named

end SchemaBuilder

end GraphExec
