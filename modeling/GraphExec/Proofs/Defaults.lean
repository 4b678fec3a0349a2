import Mathlib
import GraphExec.Proofs.Inputs

/-!
# Defaults inside defaults

Where a field of an input object is left out, its default is coerced in its place, and may itself
leave out fields that have defaults. Types may refer to themselves, so a default may need itself.
If none does, then a coercion never uses more defaults inside one another than the schema has, and
it comes to an end whatever is given. A default that is needed to complete itself is never done,
however many defaults may be used inside one another.
-/

namespace GraphExec

variable {σ ε α β : Type}

open Attempt

/-- Whether a coercion has used too many defaults inside one another. -/
def InputError.isEndless : InputError → Bool
  | .endlessDefault _ _ => true
  | .inField _ error => error.isEndless
  | _ => false

namespace Attempt

/-- The code never fails for want of more defaults. -/
def Ends (attempt : Attempt σ InputError α) : Prop :=
  ∀ world error, attempt.Fails world error → error.isEndless = false

theorem ends_pure {a : α} : (pure a : Attempt σ InputError α).Ends :=
  fun _ _ fails => absurd fails fails_pure

theorem ends_throw (error : InputError) (other : error.isEndless = false) :
    (throw error : Attempt σ InputError α).Ends :=
  fun _ _ fails => fails_throw.mp fails ▸ other

theorem Ends.bind {attempt : Attempt σ InputError α} {f : α → Attempt σ InputError β}
    (first : attempt.Ends) (behind : ∀ a, (f a).Ends) : (attempt >>= f).Ends := by
  intro world error fails
  rcases fails_bind.mp fails with fails | ⟨a, -, fails⟩
  · exact first world error fails
  · exact behind a _ error fails

theorem Ends.inField {attempt : Attempt σ InputError α} (ends : attempt.Ends) (name : String) :
    Attempt.Ends (ExceptT.adapt (.inField name) attempt : Attempt σ InputError α) := by
  intro world error fails
  obtain ⟨inner, inside, rfl⟩ := fails_adapt.mp fails
  exact ends world inner inside

theorem ends_refused (action : Action σ (Except String Value)) :
    (some <$> callOr InputError.refused action : Attempt σ InputError (Option Value)).Ends := by
  refine Ends.bind (f := fun value => pure (some value)) ?_ fun _ => ends_pure
  intro world error fails
  obtain ⟨message, -, rfl⟩ := fails_callOr.mp fails
  rfl

end Attempt

/-! ### Which defaults are needed -/

/-- A default, with the type that it is coerced to. -/
structure InputDefault where
  /-- The type. -/
  type : TypeRef
  /-- The value. -/
  value : Value

/-- What is coerced: a value to a type, or the fields of an object to their definitions. -/
inductive Coerced (σ : Type) where
  /-- A value. -/
  | value (type : TypeRef) (value : Value)
  /-- The fields of an object. -/
  | fields (definitions : Fields (InputDefinition σ)) (fields : Fields Value)

/-- What a default is coerced as. -/
def InputDefault.coerced (default : InputDefault) : Coerced σ :=
  .value default.type default.value

namespace Schema

/-- The defaults that are used where something is coerced, those inside them apart. -/
inductive Needs (schema : Schema σ) : Coerced σ → InputDefault → Prop
  | nonNull {inner : TypeRef} {value : Value} {default : InputDefault}
      (inside : Needs schema (.value inner value) default) :
      Needs schema (.value (.nonNull inner) value) default
  | item {inner : TypeRef} {items : List Value} {value : Value} {default : InputDefault}
      (mem : value ∈ items) (inside : Needs schema (.value inner value) default) :
      Needs schema (.value (.list inner) (.list items)) default
  | single {inner : TypeRef} {value : Value} {default : InputDefault}
      (not_null : value ≠ .null) (not_list : ∀ items, value ≠ .list items)
      (inside : Needs schema (.value inner value) default) :
      Needs schema (.value (.list inner) value) default
  | object {name : String} {t : InputObjectType σ} {fields : Fields Value}
      {default : InputDefault} (known : schema.type? name = some (.inputObject t))
      (inside : Needs schema (.fields t.fields fields) default) :
      Needs schema (.value (.named name) (.object fields)) default
  | given {name : String} {definition : InputDefinition σ}
      {others : Fields (InputDefinition σ)} {fields : Fields Value} {value : Value}
      {default : InputDefault} (given : Fields.get? fields name = some value)
      (inside : Needs schema (.value definition.type value) default) :
      Needs schema (.fields ((name, definition) :: others) fields) default
  | default {name : String} {definition : InputDefinition σ}
      {others : Fields (InputDefinition σ)} {fields : Fields Value} {value : Value}
      (absent : Fields.get? fields name = none) (stands : definition.default? = some value) :
      Needs schema (.fields ((name, definition) :: others) fields) ⟨definition.type, value⟩
  | later {name : String} {definition : InputDefinition σ}
      {others : Fields (InputDefinition σ)} {fields : Fields Value} {default : InputDefault}
      (inside : Needs schema (.fields others (Fields.erase fields name)) default) :
      Needs schema (.fields ((name, definition) :: others) fields) default

/-- A default is needed to complete another one. -/
def DefaultNeeds (schema : Schema σ) (default other : InputDefault) : Prop :=
  schema.Needs default.coerced other

/-- No more than `n` defaults are needed inside one another. -/
def Grounded (schema : Schema σ) : Nat → Coerced σ → Prop
  | 0, coerced => ∀ default, ¬ schema.Needs coerced default
  | n + 1, coerced => ∀ default, schema.Needs coerced default → schema.Grounded n default.coerced

variable {schema : Schema σ} {n : Nat}

/-- What is needed inside needs no more. -/
theorem Grounded.of_needs {coerced inner : Coerced σ} (grounded : schema.Grounded n coerced)
    (needs : ∀ default, schema.Needs inner default → schema.Needs coerced default) :
    schema.Grounded n inner := by
  cases n with
  | zero => exact fun default inside => grounded default (needs default inside)
  | succ n => exact fun default inside => grounded default (needs default inside)

/-- What is needed may need one less. -/
theorem Grounded.fewer {coerced : Coerced σ} (grounded : schema.Grounded n coerced)
    {default : InputDefault} (needs : schema.Needs coerced default) :
    ∃ fewer, n = fewer + 1 ∧ schema.Grounded fewer default.coerced := by
  cases n with
  | zero => exact absurd needs (grounded default)
  | succ fewer => exact ⟨fewer, rfl, grounded default needs⟩

/-- A coercion ends, and comes to the same if more defaults may be used inside one another. -/
def Stable (coerce : Nat → Attempt σ InputError α) (n : Nat) : Prop :=
  (coerce n).Ends ∧ ∀ more ≥ n, coerce more = coerce n

/-- A coercion that uses no defaults. -/
theorem stable_const {coerce : Nat → Attempt σ InputError α} {attempt : Attempt σ InputError α}
    (same : ∀ m, coerce m = attempt) (ends : attempt.Ends) : Stable coerce n := by
  constructor
  · rw [same]
    exact ends
  · intro more _
    rw [same, same]

theorem Stable.congr {coerce other : Nat → Attempt σ InputError α} (same : ∀ m, coerce m = other m)
    (stable : Stable other n) : Stable coerce n := by
  obtain rfl : coerce = other := funext same
  exact stable

theorem Stable.bind {coerce : Nat → Attempt σ InputError α}
    {f : Nat → α → Attempt σ InputError β} (first : Stable coerce n)
    (behind : ∀ a, Stable (f · a) n) : Stable (fun m => coerce m >>= f m) n := by
  refine ⟨first.1.bind fun a => (behind a).1, fun more enough => ?_⟩
  have same : f more = f n := funext fun a => (behind a).2 more enough
  simp only [first.2 more enough, same]

theorem Stable.inField {coerce : Nat → Attempt σ InputError α} (stable : Stable coerce n)
    (name : String) : Stable
      (fun m => (ExceptT.adapt (.inField name) (coerce m) : Attempt σ InputError α)) n :=
  ⟨stable.1.inField name, fun more enough => by simp only [stable.2 more enough]⟩

/-- In every case as many defaults as are needed inside one another are enough. -/
theorem stable_cases : schema.CoercionCases
    (fun n type given? => (∀ value, given? = some value → schema.Grounded n (.value type value)) →
      Stable (schema.coerceWithin · type given?) n)
    (fun n typeName name definition given? =>
      (∀ value, given? = some value → schema.Grounded n (.value definition.type value)) →
        (given? = none → ∀ value, definition.default? = some value →
          ∃ fewer, n = fewer + 1 ∧ schema.Grounded fewer (.value definition.type value)) →
          Stable (schema.coerceField typeName name definition given?) n)
    (fun n typeName definitions given => schema.Grounded n (.fields definitions given) →
      Stable (schema.coerceFields · typeName definitions given) n)
    (fun n type items => (∀ value ∈ items, schema.Grounded n (.value type value)) →
      Stable (schema.coerceItems · type items) n) where
  required n inner given? null _ :=
    stable_const (fun _ => coerceWithin_required null inner) (ends_throw _ rfl)
  nullable n type given? null nullable _ :=
    stable_const (fun _ => coerceWithin_nullable null nullable) ends_pure
  nonNull n inner value not_null ih grounded := by
    refine .congr (fun _ => coerceWithin_nonNull not_null inner) (ih fun other same => ?_)
    exact (grounded other same).of_needs fun default inside => .nonNull inside
  list n item values ih grounded := by
    have listed : Stable (schema.coerceItems · item values) n := ih fun value mem =>
      (grounded _ rfl).of_needs fun default inside => .item mem inside
    refine .congr (fun _ => coerceWithin_list item values) (listed.bind fun _ => ?_)
    exact stable_const (fun _ => rfl) ends_pure
  single n item value not_null not_list ih grounded := by
    have alone : Stable (schema.coerceWithin · item (some value)) n := by
      refine ih fun other same => (grounded other same).of_needs fun default inside => ?_
      obtain rfl := Option.some.inj same
      exact .single not_null not_list inside
    refine .congr (fun _ => coerceWithin_single not_null not_list item) (alone.bind fun _ => ?_)
    exact stable_const (fun _ => rfl) ends_pure
  scalar n name t value known not_null _ :=
    stable_const (fun _ => coerceWithin_scalar known not_null) (ends_refused (t.coerceInput value))
  enum n name t value known not_null _ :=
    stable_const (fun _ => coerceWithin_enum known not_null) (ends_refused (pure (t.coerce value)))
  inputObject n name t given known ih grounded := by
    have filled : Stable (schema.coerceFields · t.name t.fields given) n := ih <|
      (grounded _ rfl).of_needs fun default inside => .object known inside
    refine .congr (fun _ => coerceWithin_inputObject known given) (filled.bind ?_)
    rintro ⟨coerced, rest⟩
    cases rest with
    | nil => exact stable_const (fun _ => rfl) ends_pure
    | cons entry rest => exact stable_const (fun _ => rfl) (ends_throw _ rfl)
  no_object n name t value known not_null not_object _ :=
    stable_const (fun _ => coerceWithin_no_object known not_null not_object) (ends_throw _ rfl)
  no_input n name value no_input not_null _ :=
    stable_const (fun _ => coerceWithin_no_input no_input not_null) (ends_throw _ rfl)
  given n typeName name definition value ih grounded _ :=
    (ih grounded).congr fun m => coerceField_given typeName name definition value m
  without n typeName name definition without ih grounded _ :=
    (ih grounded).congr fun m => coerceField_without without typeName name m
  endless typeName name definition value stands _ fewer := by
    obtain ⟨_, wrong, -⟩ := fewer rfl value stands
    cases wrong
  default n typeName name definition value stands ih _ fewer := by
    -- The default is one of those that may be used inside one another.
    obtain ⟨_, same, grounded⟩ := fewer rfl value stands
    obtain rfl := Nat.succ.inj same
    have stable : Stable (schema.coerceWithin · definition.type (some value)) n :=
      ih fun other same => Option.some.inj same ▸ grounded
    constructor
    · rw [coerceField_succ stands]
      exact stable.1
    · intro more enough
      cases more with
      | zero => cases enough
      | succ m =>
          rw [coerceField_succ stands, coerceField_succ stands]
          exact stable.2 m (Nat.le_of_succ_le_succ enough)
  no_fields n typeName given _ :=
    stable_const (fun _ => coerceFields_nil typeName given) ends_pure
  fields n typeName name definition others given here behind grounded := by
    have one : Stable (schema.coerceField typeName name definition (Fields.get? given name)) n := by
      refine here (fun value found => ?_) fun absent value stands => ?_
      · exact grounded.of_needs fun default inside => .given found inside
      · exact grounded.fewer (.default absent stands)
    have rest : Stable (schema.coerceFields · typeName others (Fields.erase given name)) n :=
      behind (grounded.of_needs fun default inside => .later inside)
    refine .congr (fun m => coerceFields_cons m typeName name definition others given) ?_
    refine (one.inField name).bind fun value? => rest.bind fun coerced => ?_
    exact stable_const (fun _ => rfl) ends_pure
  no_items n type _ := stable_const (fun _ => coerceItems_nil type) ends_pure
  items n type item rest first behind grounded := by
    have one : Stable (schema.coerceWithin · type (some item)) n :=
      first fun other same => grounded other (Option.some.inj same ▸ List.mem_cons_self)
    have others : Stable (schema.coerceItems · type rest) n :=
      behind fun value mem => grounded value (List.mem_cons_of_mem _ mem)
    refine .congr (fun _ => coerceItems_cons type item rest) ?_
    refine one.bind fun _ => others.bind fun _ => ?_
    exact stable_const (fun _ => rfl) ends_pure

/-- As many defaults as are needed inside one another are enough. -/
theorem stable_of_grounded (n : Nat) (type : TypeRef) (given? : Option Value) :
    (∀ value, given? = some value → schema.Grounded n (.value type value)) →
      Stable (schema.coerceWithin · type given?) n :=
  stable_cases.within n type given?

/-! ### Defaults that do not need themselves -/

/-- The defaults of the schema. -/
def defaults (schema : Schema σ) : List InputDefault :=
  schema.types.values.flatMap fun type =>
    match type with
    | .inputObject t => t.fields.values.filterMap fun definition =>
      definition.default?.map (⟨definition.type, ·⟩)
    | _ => []

theorem length_defaults (schema : Schema σ) : schema.defaults.length = schema.inputDefaults := by
  unfold defaults inputDefaults
  rw [List.length_flatMap, List.length_flatMap]
  refine congrArg _ (List.map_congr_left fun type _ => ?_)
  cases type with
  | inputObject t =>
      simp only [List.length_filterMap_eq_countP, ← List.countP_eq_length_filter,
        Option.isSome_map]
  | _ => rfl

theorem mem_defaults {name : String} {t : InputObjectType σ} {definition : InputDefinition σ}
    {value : Value} (known : schema.type? name = some (.inputObject t))
    (mem : definition ∈ t.fields.values) (stands : definition.default? = some value) :
    ⟨definition.type, value⟩ ∈ schema.defaults := by
  refine List.mem_flatMap.mpr ⟨.inputObject t, Fields.mem_values_of_get? known, ?_⟩
  exact List.mem_filterMap.mpr ⟨definition, mem, by rw [stands]; rfl⟩

/-- The defaults of the fields to coerce are among those of the schema. -/
def Covers (schema : Schema σ) : Coerced σ → Prop
  | .value _ _ => True
  | .fields definitions _ => ∀ definition ∈ definitions.values, ∀ value,
    definition.default? = some value → ⟨definition.type, value⟩ ∈ schema.defaults

/-- What is needed is a default of the schema. -/
theorem Needs.mem {coerced : Coerced σ} {default : InputDefault}
    (needs : schema.Needs coerced default) (covers : schema.Covers coerced) :
    default ∈ schema.defaults := by
  induction needs with
  | nonNull _ ih => exact ih trivial
  | item _ _ ih => exact ih trivial
  | single _ _ _ ih => exact ih trivial
  | object known _ ih => exact ih fun definition mem value => mem_defaults known mem
  | given _ _ ih => exact ih trivial
  | default _ stands => exact covers _ List.mem_cons_self _ stands
  | later _ ih =>
      exact ih fun definition mem => covers definition (List.mem_cons_of_mem _ mem)

/-- Where defaults are needed that are not grounded, they form a chain of any length. -/
theorem chain_of_not_grounded : ∀ {n : Nat} {type : TypeRef} {value : Value},
    ¬ schema.Grounded n (.value type value) →
      ∃ chain : List InputDefault, chain.length = n + 1 ∧ chain ⊆ schema.defaults ∧
        chain.IsChain schema.DefaultNeeds ∧
        ∀ first ∈ chain.head?, schema.Needs (.value type value) first := by
  intro n
  induction n with
  | zero =>
      intro type value endless
      obtain ⟨first, needs⟩ := not_forall_not.mp endless
      refine ⟨[first], rfl, ?_, .singleton first, fun _ head => Option.some.inj head ▸ needs⟩
      exact List.cons_subset.mpr ⟨needs.mem trivial, List.nil_subset _⟩
  | succ n ih =>
      intro type value endless
      obtain ⟨first, endless⟩ := not_forall.mp endless
      obtain ⟨needs, endless⟩ := Classical.not_imp.mp endless
      obtain ⟨chain, long, among, linked, starts⟩ := ih endless
      refine ⟨first :: chain, congrArg (· + 1) long, ?_, ?_, ?_⟩
      · exact List.cons_subset.mpr ⟨needs.mem trivial, among⟩
      · exact List.isChain_cons.mpr ⟨starts, linked⟩
      · exact fun _ head => Option.some.inj head ▸ needs

/-- If no default needs itself, then no more are needed inside one another than the schema has. -/
theorem grounded_of_acyclic
    (acyclic : ∀ default, ¬ Relation.TransGen schema.DefaultNeeds default default)
    (type : TypeRef) (value : Value) :
    schema.Grounded schema.inputDefaults (.value type value) := by
  by_contra endless
  obtain ⟨chain, long, among, linked, -⟩ := chain_of_not_grounded endless
  have distinct : chain.Nodup := by
    have apart : chain.Pairwise (Relation.TransGen schema.DefaultNeeds) :=
      (linked.imp fun _ _ => .single).pairwise
    refine apart.imp ?_
    rintro default _ leads rfl
    exact acyclic default leads
  have bound := (List.subperm_of_subset distinct among).length_le
  rw [long, length_defaults] at bound
  omega

/-- If no default needs itself, then every coercion comes to an end, whatever the type and the
value, and more defaults inside one another than the schema has would make no difference. -/
theorem coerceInput_ends
    (acyclic : ∀ default, ¬ Relation.TransGen schema.DefaultNeeds default default)
    (type : TypeRef) (given? : Option Value) :
    (schema.coerceInput type given?).Ends ∧
      ∀ more ≥ schema.inputDefaults,
        schema.coerceWithin more type given? = schema.coerceInput type given? :=
  stable_of_grounded _ type given? fun value _ => grounded_of_acyclic acyclic type value

/-- A schema with an input object that refers to itself. The default of its field is larger than
what it replaces, but lacks no field that has a default. -/
def nested : Schema Unit :=
  { types :=
      [("Query", .object { name := "Query" }),
        ("Filter", .inputObject
          { name := "Filter"
            fields :=
              [("not",
                { name := "not"
                  type := .named "Filter"
                  default? := some (.object [("not", .null)]) })] })]
    queryType := "Query"
    mutationType? := none
    subscriptionType? := none
    directives := []
    possible := [("Query", ["Query"])]
    hooks := {} }

theorem nested_acyclic (default : InputDefault) :
    ¬ Relation.TransGen nested.DefaultNeeds default default := by
  intro cycle
  obtain ⟨before, -, needs⟩ := Relation.TransGen.tail'_iff.mp cycle
  obtain ⟨next, needs', -⟩ := Relation.TransGen.head'_iff.mp cycle
  have only : default = ⟨.named "Filter", .object [("not", .null)]⟩ :=
    List.mem_singleton.mp (needs.mem trivial)
  subst only
  cases needs' with
  | @object _ t _ _ known inside =>
      obtain rfl : t = _ := TypeDefinition.inputObject.inj (Option.some.inj known).symm
      cases inside with
      | given given null =>
          obtain rfl := Option.some.inj given
          cases null
      | default absent stands => cases absent
      | later none => cases none

theorem coerceInput_ends_nested :
    (∀ default, ¬ Relation.TransGen nested.DefaultNeeds default default) ∧
      (nested.coerceInput (.named "Filter") (some (.object []))).Ends :=
  ⟨nested_acyclic,
    (coerceInput_ends nested_acyclic (.named "Filter") (some (.object []))).1⟩

/-! ### Defaults that need themselves -/

/-- The coercion is done in some world, with at most `n` defaults inside one another. -/
def Completes (schema : Schema σ) (n : Nat) : Coerced σ → Prop
  | .value type value => ∃ world result,
    (schema.coerceWithin n type (some value)).Returns world result
  | .fields definitions fields => ∃ typeName world result,
    (schema.coerceFields n typeName definitions fields).Returns world result

/-- A list is coerced item by item. -/
theorem completes_item {type : TypeRef} {value : Value} :
    ∀ {items : List Value} {world : World σ} {results : List Value}, value ∈ items →
      (schema.coerceItems n type items).Returns world results →
        schema.Completes n (.value type value) := by
  intro items
  induction items with
  | nil => exact fun mem => absurd mem List.not_mem_nil
  | cons item rest ih =>
      intro world results mem returns
      rw [coerceItems_cons] at returns
      obtain ⟨result, first, returns⟩ := returns_bind.mp returns
      rcases List.mem_cons.mp mem with rfl | mem
      · exact ⟨world, result, first⟩
      · obtain ⟨_, behind, -⟩ := returns_bind.mp returns
        exact ih mem behind

/-- Where a coercion is done, each default that it needs is, with fewer inside one another. -/
theorem Needs.completes {coerced : Coerced σ} {default : InputDefault}
    (needs : schema.Needs coerced default) (done : schema.Completes n coerced) :
    ∃ m < n, schema.Completes m default.coerced := by
  induction needs with
  | @nonNull inner value default _ ih =>
      obtain ⟨world, result, returns⟩ := done
      refine ih ⟨world, result, ?_⟩
      by_cases null : value = .null
      · have nothing : (some value).getD .null = .null := null
        rw [coerceWithin_required nothing] at returns
        exact absurd returns returns_throw
      · rwa [coerceWithin_nonNull null] at returns
  | item mem _ ih =>
      obtain ⟨world, result, returns⟩ := done
      rw [coerceWithin_list] at returns
      obtain ⟨results, listed, -⟩ := returns_bind.mp returns
      exact ih (completes_item mem listed)
  | single not_null not_list _ ih =>
      obtain ⟨world, result, returns⟩ := done
      rw [coerceWithin_single not_null not_list] at returns
      obtain ⟨alone, inside, -⟩ := returns_bind.mp returns
      exact ih ⟨world, alone, inside⟩
  | object known _ ih =>
      obtain ⟨world, result, returns⟩ := done
      rw [coerceWithin_inputObject known] at returns
      obtain ⟨filled, inside, -⟩ := returns_bind.mp returns
      exact ih ⟨_, world, filled, inside⟩
  | @given _ definition _ _ value _ given _ ih =>
      obtain ⟨typeName, world, result, returns⟩ := done
      rw [coerceFields_cons, given] at returns
      obtain ⟨value?, one, -⟩ := returns_bind.mp returns
      have one := returns_adapt.mp one
      rw [coerceField_given] at one
      exact ih ⟨world, value?, one⟩
  | default absent stands =>
      obtain ⟨typeName, world, result, returns⟩ := done
      rw [coerceFields_cons, absent] at returns
      obtain ⟨value?, one, -⟩ := returns_bind.mp returns
      have one := returns_adapt.mp one
      cases n with
      | zero =>
          rw [coerceField_zero stands] at one
          exact absurd one returns_throw
      | succ n =>
          rw [coerceField_succ stands] at one
          exact ⟨n, n.lt_succ_self, world, value?, one⟩
  | later _ ih =>
      obtain ⟨typeName, world, result, returns⟩ := done
      rw [coerceFields_cons] at returns
      obtain ⟨_, -, returns⟩ := returns_bind.mp returns
      obtain ⟨rest, behind, -⟩ := returns_bind.mp returns
      exact ih ⟨typeName, _, rest, behind⟩

/-- A default that needs itself is never done, however many defaults may be used inside one
another. -/
theorem not_completes_of_cycle {default : InputDefault}
    (cycle : Relation.TransGen schema.DefaultNeeds default default) :
    ¬ schema.Completes n default.coerced := by
  have fewer : ∀ {other : InputDefault}, Relation.TransGen schema.DefaultNeeds default other →
      ∀ {n}, schema.Completes n default.coerced → ∃ m < n, schema.Completes m other.coerced := by
    intro other leads
    induction leads with
    | single needs => exact fun done => needs.completes done
    | tail _ needs ih =>
        intro n done
        obtain ⟨m, less, done⟩ := ih done
        obtain ⟨l, less', done⟩ := Needs.completes needs done
        exact ⟨l, less'.trans less, done⟩
  induction n using Nat.strong_induction_on with
  | _ n ih =>
      intro done
      obtain ⟨m, less, done⟩ := fewer cycle done
      exact ih m less done

/-- An object fails where its first field does. -/
theorem fails_of_first {name field : String} {t : InputObjectType σ}
    {definition : InputDefinition σ} {others : Fields (InputDefinition σ)} {given : Fields Value}
    {world : World σ} {error : InputError}
    (known : schema.type? name = some (.inputObject t))
    (first : t.fields = (field, definition) :: others)
    (fails : (schema.coerceField t.name field definition (Fields.get? given field) n).Fails world
      error) :
    (schema.coerceWithin n (.named name) (some (.object given))).Fails world
      (.inField field error) := by
  have inside : (schema.coerceFields n t.name t.fields given).Fails world
      (.inField field error) := by
    rw [first, coerceFields_cons]
    exact fails_bind.mpr (.inl (fails_adapt.mpr ⟨error, fails, rfl⟩))
  rw [coerceWithin_inputObject known]
  exact fails_bind.mpr (.inl inside)

/-- If the default of a type's first field is of the type itself and leaves that field out, then a
coercion of what leaves it out uses all defaults that it may. -/
theorem endless_of_own_default {name field : String} {t : InputObjectType σ}
    {definition : InputDefinition σ} {others : Fields (InputDefinition σ)} {inner : Fields Value}
    (known : schema.type? name = some (.inputObject t))
    (first : t.fields = (field, definition) :: others)
    (own : definition.type = .named name) (stands : definition.default? = some (.object inner))
    (left_out : Fields.get? inner field = none) (world : World σ) :
    ∀ (n : Nat) (given : Fields Value), Fields.get? given field = none →
      ∃ error, (schema.coerceWithin n (.named name) (some (.object given))).Fails world error ∧
        error.isEndless = true := by
  intro n
  induction n with
  | zero =>
      intro given absent
      refine ⟨.inField field (.endlessDefault field t.name), fails_of_first known first ?_, rfl⟩
      rw [absent, coerceField_zero stands]
      exact fails_throw.mpr rfl
  | succ n ih =>
      intro given absent
      obtain ⟨error, fails, endless⟩ := ih inner left_out
      refine ⟨.inField field error, fails_of_first known first ?_, endless⟩
      rw [absent, coerceField_succ stands, own]
      exact fails

/-- A builder with an input object whose field has a default that needs itself. -/
def looping : SchemaBuilder Unit :=
  ((SchemaBuilder.new "Query").register (.object { name := "Query" })).register
    (.inputObject
      { name := "Filter"
        fields :=
          [("not", { name := "not", type := .named "Filter", default? := some (.object []) })] })

/-- The schema that it comes to. -/
def looped : Schema Unit :=
  { types := looping.types
    queryType := "Query"
    mutationType? := none
    subscriptionType? := none
    directives := looping.directives
    possible := [("Query", ["Query"])]
    hooks := {} }

theorem looped_finished : looped.Finished :=
  ⟨looping, .register (.register (.new "Query") _) _, rfl⟩

/-- The schema is accepted, and nothing comes of an empty value. -/
theorem looped_endless (n : Nat) (world : World Unit) :
    ∃ error, (looped.coerceWithin n (.named "Filter") (some (.object []))).Fails world error ∧
      error.isEndless = true :=
  endless_of_own_default rfl rfl rfl rfl rfl world n [] rfl

end Schema

end GraphExec
