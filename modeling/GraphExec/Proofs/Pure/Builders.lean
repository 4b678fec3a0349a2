import GraphExec.Proofs.Pure.Schema
import GraphExec.Proofs.Schema.Possible

/-!
# Building pure schemas

What every schema knows from the start is pure, so that a schema is if what is added to it is.
-/

namespace GraphExec

variable {σ : Type} {loads : Loads}

/-! ### What every schema knows -/

theorem Scalar.pure_ofFunctions (name : String) (input result : Value → Except String Value) :
    (Scalar.ofFunctions name input result : ScalarType σ).Pure loads :=
  ⟨fun _ => Action.settled_done trivial, fun _ => Action.settled_done trivial⟩

theorem Scalar.pure_builtIn : ∀ scalar ∈ (Scalar.builtIn : List (ScalarType σ)),
    scalar.Pure loads := by
  simp only [Scalar.builtIn, List.forall_mem_cons, List.not_mem_nil, false_implies, implies_true,
    and_true]
  exact ⟨pure_ofFunctions _ _ _, pure_ofFunctions _ _ _, pure_ofFunctions _ _ _,
    pure_ofFunctions _ _ _, pure_ofFunctions _ _ _⟩

theorem DirectiveDefinition.pure_conditional (name : String) (select : Bool → Bool) :
    (DirectiveDefinition.conditional name select : DirectiveDefinition σ).Pure loads where
  arguments := by
    intro input mem
    obtain rfl := List.mem_singleton.mp mem
    exact ⟨nofun, nofun⟩
  includes := by
    rintro keeps rfl_keeps arguments query
    obtain rfl := Option.some.inj rfl_keeps
    exact Action.settled_done trivial
  resolves := nofun
  resolvesEach := nofun

theorem DirectiveDefinition.pure_builtIn :
    ∀ definition ∈ (DirectiveDefinition.builtIn : List (DirectiveDefinition σ)),
      definition.Pure loads := by
  simp only [DirectiveDefinition.builtIn, List.forall_mem_cons, List.not_mem_nil, false_implies,
    implies_true, and_true]
  exact ⟨pure_conditional _ _, pure_conditional _ _⟩

theorem SchemaHooks.pure_none : ({} : SchemaHooks σ).Pure loads :=
  ⟨nofun, nofun, nofun, nofun⟩

/-! ### Fields -/

/-- A field without a resolver reads plain data. -/
theorem FieldDefinition.pure_default (name : String) (type : TypeRef) :
    ({ name, type } : FieldDefinition σ).Pure loads :=
  ⟨nofun, nofun, nofun, nofun⟩

/-- A field whose resolver answers one pure value. -/
theorem FieldDefinition.pure_constant (name : String) (type : TypeRef) {value : ResolvedValue σ}
    (fine : value.Pure loads) :
    ({ name, type, resolve? := some fun _ => pure { result := .ok value } } :
      FieldDefinition σ).Pure loads where
  arguments := nofun
  resolves := by
    intro resolve same context _
    obtain rfl := Option.some.inj same
    refine Action.settled_done fun v same => ?_
    injection same with same
    exact same ▸ fine
  authorizes := nofun
  provides := nofun

/-! ### Builders -/

namespace SchemaBuilder

/-- All application code that a builder has been given is pure. -/
structure Pure (loads : Loads) (builder : SchemaBuilder σ) : Prop where
  types : ∀ name type, Fields.get? builder.types name = some type → type.Pure loads
  directives : ∀ name definition, Fields.get? builder.directives name = some definition →
    definition.Pure loads
  hooks : builder.hooks.Pure loads

variable {builder : SchemaBuilder σ}

theorem Pure.register (pure : builder.Pure loads) {type : TypeDefinition σ}
    (fine : type.Pure loads) : (builder.register type).Pure loads where
  types name other found := by
    have found : Fields.get? (Fields.insert builder.types type.name type) name = some other := found
    rw [Fields.get?_insert] at found
    split at found
    · exact Option.some.inj found ▸ fine
    · exact pure.types name other found
  directives := pure.directives
  hooks := pure.hooks

theorem Pure.directive (pure : builder.Pure loads) {definition : DirectiveDefinition σ}
    (fine : definition.Pure loads) : (builder.directive definition).Pure loads where
  types := pure.types
  directives name other found := by
    have found : Fields.get? (Fields.insert builder.directives definition.name definition) name =
      some other := found
    rw [Fields.get?_insert] at found
    split at found
    · exact Option.some.inj found ▸ fine
    · exact pure.directives name other found
  hooks := pure.hooks

theorem pure_new (queryType : String) : (new queryType : SchemaBuilder σ).Pure loads := by
  have registers : ∀ (scalars : List (ScalarType σ)), (∀ scalar ∈ scalars, scalar.Pure loads) →
      ∀ builder : SchemaBuilder σ, builder.Pure loads →
        (scalars.foldl (fun builder t => builder.register (.scalar t)) builder).Pure loads := by
    intro scalars
    induction scalars with
    | nil => exact fun _ _ pure => pure
    | cons t rest ih =>
        intro each builder pure
        have fine : (TypeDefinition.scalar t).Pure loads := each t List.mem_cons_self
        exact ih (fun s mem => each s (List.mem_cons_of_mem _ mem)) _ (pure.register fine)
  have adds : ∀ (definitions : List (DirectiveDefinition σ)),
      (∀ definition ∈ definitions, definition.Pure loads) → ∀ builder : SchemaBuilder σ,
        builder.Pure loads → (definitions.foldl directive builder).Pure loads := by
    intro definitions
    induction definitions with
    | nil => exact fun _ _ pure => pure
    | cons definition rest ih =>
        intro each builder pure
        exact ih (fun d mem => each d (List.mem_cons_of_mem _ mem)) _
          (pure.directive (each definition List.mem_cons_self))
  exact adds _ DirectiveDefinition.pure_builtIn _ (registers _ Scalar.pure_builtIn _
    ⟨nofun, nofun, SchemaHooks.pure_none⟩)

/-- A builder of pure types finishes a pure schema. -/
theorem Pure.finish (pure : builder.Pure loads) {schema : Schema σ}
    (finish : builder.finish = .ok schema) : schema.Pure loads := by
  obtain ⟨types, directives, hooks, -⟩ := Schema.finish_eq finish
  exact ⟨fun name type known => pure.types name type (types ▸ known),
    fun name definition known => pure.directives name definition (directives ▸ known),
    hooks.symm ▸ pure.hooks⟩

end SchemaBuilder

end GraphExec
