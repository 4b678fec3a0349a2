import Mathlib
import GraphExec.Arguments.Coercion
import GraphExec.Proofs.Fields

/-!
# Variables behave by substitution

A literal has the value that it has when each of its variables with a value is written out as that
value. What a variable without a value stands for depends on where it stands: nothing for a whole
literal or a field of an object, null for an item of a list. So arguments come to what they come to
when their variables are written out, and those that are left out for want of a value are not written.
-/

namespace GraphExec

variable {σ : Type}

namespace Literal

/-! ### Constants -/

mutual

/-- A value written as a literal without variables. -/
def constant : Value → Literal
  | .null => .null
  | .bool b => .bool b
  | .number n => .number n
  | .string s => .string s
  | .enum name => .enum name
  | .binary bytes => .binary bytes
  | .list items => .list (constantItems items)
  | .object fields => .object (constantFields fields)

/-- The items of a list written as literals without variables. -/
def constantItems : List Value → List Literal
  | [] => []
  | item :: rest => constant item :: constantItems rest

/-- The fields of an object written as literals without variables. -/
def constantFields : List (String × Value) → List (String × Literal)
  | [] => []
  | (name, field) :: rest => (name, constant field) :: constantFields rest

end

/-! ### Substitution -/

mutual

/-- A literal with the values of its variables written out; those without a value stay. -/
def substitute (bindings : Fields Value) : Literal → Literal
  | .variable name =>
    match Fields.get? bindings name with
    | some value => constant value
    | none => .variable name
  | .null => .null
  | .number n => .number n
  | .string s => .string s
  | .bool b => .bool b
  | .enum name => .enum name
  | .binary bytes => .binary bytes
  | .list items => .list (substituteItems bindings items)
  | .object fields => .object (substituteFields bindings fields)

/-- The items of a list with the values of their variables written out. -/
def substituteItems (bindings : Fields Value) : List Literal → List Literal
  | [] => []
  | item :: rest => substitute bindings item :: substituteItems bindings rest

/-- The fields of an object with the values of their variables written out. -/
def substituteFields (bindings : Fields Value) :
    List (String × Literal) → List (String × Literal)
  | [] => []
  | (name, field) :: rest => (name, substitute bindings field) :: substituteFields bindings rest

end

/-- A variable occurs in a literal, at any depth. -/
inductive Mentions (name : String) : Literal → Prop
  | variable : Mentions name (.variable name)
  | item {items : List Literal} {item : Literal} (inside : item ∈ items)
      (mentions : Mentions name item) : Mentions name (.list items)
  | field {fields : List (String × Literal)} {field : String × Literal} (inside : field ∈ fields)
      (mentions : Mentions name field.2) : Mentions name (.object fields)

/-- Whether a literal is just a variable without a value. -/
def isUnbound (bindings : Fields Value) : Literal → Bool
  | .variable name => (Fields.get? bindings name).isNone
  | _ => false

/-- Arguments with the values of their variables written out, and without those that are just a
variable without a value. -/
def writtenOut (bindings : Fields Value) (arguments : List (String × Literal)) :
    List (String × Literal) :=
  substituteFields bindings (arguments.filter fun argument => !isUnbound bindings argument.2)

/-! ### Values of literals -/

theorem itemValues_eq (bindings : Fields Value) (items : List Literal) :
    itemValues bindings items = items.map fun item => (value? bindings item).getD .null := by
  induction items with
  | nil => rfl
  | cons item rest ih => rw [itemValues, ih, List.map_cons]

theorem fieldValues_eq (bindings : Fields Value) (fields : List (String × Literal)) :
    fieldValues bindings fields =
      fields.filterMap fun field => (value? bindings field.2).map fun value => (field.1, value) := by
  induction fields with
  | nil => rfl
  | cons field rest ih =>
      obtain ⟨name, literal⟩ := field
      rw [fieldValues, List.filterMap_cons, ← ih]
      cases value? bindings literal <;> rfl

mutual

/-- A value that is written as a literal is the value of the literal, whatever is bound. -/
theorem value?_constant (bindings : Fields Value) :
    ∀ value : Value, value? bindings (constant value) = some value
  | .null => rfl
  | .bool _ => rfl
  | .number _ => rfl
  | .string _ => rfl
  | .enum _ => rfl
  | .binary _ => rfl
  | .list items => by rw [constant, value?, itemValues_constant bindings items]
  | .object fields => by rw [constant, value?, fieldValues_constant bindings fields]

theorem itemValues_constant (bindings : Fields Value) :
    ∀ items : List Value, itemValues bindings (constantItems items) = items
  | [] => rfl
  | item :: rest => by
      rw [constantItems, itemValues, value?_constant bindings item,
        itemValues_constant bindings rest]
      rfl

theorem fieldValues_constant (bindings : Fields Value) :
    ∀ fields : List (String × Value), fieldValues bindings (constantFields fields) = fields
  | [] => rfl
  | (name, field) :: rest => by
      rw [constantFields, fieldValues, value?_constant bindings field,
        fieldValues_constant bindings rest]

end

mutual

/-- A literal has the value that it has with its variables written out. -/
theorem value?_substitute (bindings : Fields Value) :
    ∀ literal : Literal, value? [] (substitute bindings literal) = value? bindings literal
  | .variable name => by
      rw [substitute, value?]
      cases Fields.get? bindings name with
      | none => rfl
      | some value => exact value?_constant [] value
  | .null => rfl
  | .number _ => rfl
  | .string _ => rfl
  | .bool _ => rfl
  | .enum _ => rfl
  | .binary _ => rfl
  | .list items => by rw [substitute, value?, value?, itemValues_substitute bindings items]
  | .object fields => by rw [substitute, value?, value?, fieldValues_substitute bindings fields]

theorem itemValues_substitute (bindings : Fields Value) :
    ∀ items : List Literal,
      itemValues [] (substituteItems bindings items) = itemValues bindings items
  | [] => rfl
  | item :: rest => by
      rw [substituteItems, itemValues, itemValues, value?_substitute bindings item,
        itemValues_substitute bindings rest]

theorem fieldValues_substitute (bindings : Fields Value) :
    ∀ fields : List (String × Literal),
      fieldValues [] (substituteFields bindings fields) = fieldValues bindings fields
  | [] => rfl
  | (name, field) :: rest => by
      rw [substituteFields, fieldValues, fieldValues, value?_substitute bindings field,
        fieldValues_substitute bindings rest]

end

/-! ### Which variables are left -/

mutual

theorem not_mentions_constant {name : String} :
    ∀ value : Value, ¬ Mentions name (constant value)
  | .null => nofun
  | .bool _ => nofun
  | .number _ => nofun
  | .string _ => nofun
  | .enum _ => nofun
  | .binary _ => nofun
  | .list items => by
      rw [constant]
      rintro (_ | ⟨inside, mentions⟩)
      exact not_mentions_constantItems items _ inside mentions
  | .object fields => by
      rw [constant]
      rintro (_ | _ | ⟨inside, mentions⟩)
      exact not_mentions_constantFields fields _ inside mentions

theorem not_mentions_constantItems {name : String} :
    ∀ items : List Value, ∀ item ∈ constantItems items, ¬ Mentions name item
  | [] => nofun
  | first :: rest => by
      intro item inside
      rw [constantItems] at inside
      rcases List.mem_cons.mp inside with rfl | inside
      · exact not_mentions_constant first
      · exact not_mentions_constantItems rest item inside

theorem not_mentions_constantFields {name : String} :
    ∀ fields : List (String × Value), ∀ field ∈ constantFields fields, ¬ Mentions name field.2
  | [] => nofun
  | (_, first) :: rest => by
      intro field inside
      rw [constantFields] at inside
      rcases List.mem_cons.mp inside with rfl | inside
      · exact not_mentions_constant first
      · exact not_mentions_constantFields rest field inside

end

mutual

/-- The variables that are left are those of the literal that have no value. -/
theorem mentions_substitute {bindings : Fields Value} {name : String} :
    ∀ literal : Literal, Mentions name (substitute bindings literal) ↔
      Mentions name literal ∧ Fields.get? bindings name = none
  | .variable other => by
      rw [substitute]
      cases bound : Fields.get? bindings other with
      | none =>
          constructor
          · rintro ⟨⟩
            exact ⟨.variable, bound⟩
          · exact fun both => both.1
      | some value =>
          constructor
          · exact fun mentions => absurd mentions (not_mentions_constant value)
          · rintro ⟨⟨⟩, unbound⟩
            cases bound.symm.trans unbound
  | .null => ⟨nofun, nofun⟩
  | .number _ => ⟨nofun, nofun⟩
  | .string _ => ⟨nofun, nofun⟩
  | .bool _ => ⟨nofun, nofun⟩
  | .enum _ => ⟨nofun, nofun⟩
  | .binary _ => ⟨nofun, nofun⟩
  | .list items => by
      rw [substitute]
      constructor
      · rintro (_ | ⟨inside, mentions⟩)
        obtain ⟨⟨item, inside, mentions⟩, unbound⟩ :=
          (mentions_substituteItems items).mp ⟨_, inside, mentions⟩
        exact ⟨.item inside mentions, unbound⟩
      · rintro ⟨_ | ⟨inside, mentions⟩, unbound⟩
        obtain ⟨item, inside, mentions⟩ :=
          (mentions_substituteItems items).mpr ⟨⟨_, inside, mentions⟩, unbound⟩
        exact .item inside mentions
  | .object fields => by
      rw [substitute]
      constructor
      · rintro (_ | _ | ⟨inside, mentions⟩)
        obtain ⟨⟨field, inside, mentions⟩, unbound⟩ :=
          (mentions_substituteFields fields).mp ⟨_, inside, mentions⟩
        exact ⟨.field inside mentions, unbound⟩
      · rintro ⟨_ | _ | ⟨inside, mentions⟩, unbound⟩
        obtain ⟨field, inside, mentions⟩ :=
          (mentions_substituteFields fields).mpr ⟨⟨_, inside, mentions⟩, unbound⟩
        exact .field inside mentions

theorem mentions_substituteItems {bindings : Fields Value} {name : String} :
    ∀ items : List Literal, (∃ item ∈ substituteItems bindings items, Mentions name item) ↔
      (∃ item ∈ items, Mentions name item) ∧ Fields.get? bindings name = none
  | [] => by simp [substituteItems]
  | first :: rest => by
      rw [substituteItems]
      simp only [List.exists_mem_cons_iff, mentions_substitute first,
        mentions_substituteItems rest]
      exact or_and_right.symm

theorem mentions_substituteFields {bindings : Fields Value} {name : String} :
    ∀ fields : List (String × Literal),
      (∃ field ∈ substituteFields bindings fields, Mentions name field.2) ↔
        (∃ field ∈ fields, Mentions name field.2) ∧ Fields.get? bindings name = none
  | [] => by simp [substituteFields]
  | (_, first) :: rest => by
      rw [substituteFields]
      simp only [List.exists_mem_cons_iff, mentions_substitute first,
        mentions_substituteFields rest]
      exact or_and_right.symm

end

/-! ### Arguments -/

/-- An argument has no value exactly if it is a variable without one. -/
theorem value?_eq_none_iff {bindings : Fields Value} {literal : Literal} :
    value? bindings literal = none ↔ isUnbound bindings literal = true := by
  cases literal <;> simp [value?, isUnbound]

/-- Arguments that have no value may as well not be written. -/
theorem fieldValues_filter (bindings : Fields Value) (arguments : List (String × Literal)) :
    fieldValues bindings (arguments.filter fun argument => !isUnbound bindings argument.2) =
      fieldValues bindings arguments := by
  induction arguments with
  | nil => rfl
  | cons argument rest ih =>
      obtain ⟨name, literal⟩ := argument
      rw [List.filter_cons, fieldValues]
      cases unbound : isUnbound bindings literal with
      | true =>
          rw [value?_eq_none_iff.mpr unbound]
          exact ih
      | false =>
          show fieldValues bindings ((name, literal) :: _) = _
          rw [fieldValues, ih]

theorem argumentValues_writtenOut (bindings : Fields Value)
    (arguments : List (String × Literal)) :
    argumentValues [] (writtenOut bindings arguments) = argumentValues bindings arguments := by
  rw [argumentValues, argumentValues, writtenOut, fieldValues_substitute, fieldValues_filter]

/-- An argument is given exactly if it is among those that are written out. -/
theorem has_argumentValues (bindings : Fields Value) (arguments : List (String × Literal))
    (name : String) :
    Fields.has (argumentValues bindings arguments) name = true ↔
      name ∈ (writtenOut bindings arguments).map (·.1) := by
  rw [argumentValues, Fields.has_ofList, ← fieldValues_filter, fieldValues_eq, writtenOut]
  induction arguments with
  | nil => rfl
  | cons argument rest ih =>
      obtain ⟨other, literal⟩ := argument
      rw [List.filter_cons]
      cases unbound : isUnbound bindings literal with
      | true => exact ih
      | false =>
          obtain ⟨value, here⟩ : ∃ value, value? bindings literal = some value := by
            cases here : value? bindings literal with
            | none => cases unbound.symm.trans (value?_eq_none_iff.mp here)
            | some value => exact ⟨value, rfl⟩
          rw [if_pos (by rfl), List.filterMap_cons, here, substituteFields]
          show name ∈ other :: _ ↔ name ∈ other :: _
          rw [List.mem_cons, List.mem_cons, ih]

/-- Whatever the variables are bound to: a literal has the value that it has with its variables
written out, which leaves only those without a value; these leave out a field, stand for null in a
list, and make a whole literal absent. Arguments come to what they come to when their variables are
written out and those that are just a variable without a value are not written: only the others are
given, so that the defaults of these stand in. -/
theorem variables_substituted (bindings : Fields Value) :
    (∀ literal, value? bindings literal = value? [] (substitute bindings literal) ∧
      ∀ name, Mentions name (substitute bindings literal) ↔
        Mentions name literal ∧ Fields.get? bindings name = none) ∧
    (∀ name, value? [] (.variable name) = none) ∧
    (∀ items, value? [] (.list items) =
      some (.list (items.map fun item => (value? [] item).getD .null))) ∧
    (∀ fields, value? [] (.object fields) =
      some (.object (fields.filterMap fun field =>
        (value? [] field.2).map fun value => (field.1, value)))) ∧
    (∀ (schema : Schema σ) (owner : ArgumentOwner) (definitions : Fields (InputDefinition σ))
      (arguments : List (String × Literal)) (query : QueryContext),
      schema.coerceArguments owner definitions (argumentValues bindings arguments) query =
        schema.coerceArguments owner definitions
          (argumentValues [] (writtenOut bindings arguments)) query ∧
      ∀ name, Fields.has (argumentValues bindings arguments) name = true ↔
        name ∈ (writtenOut bindings arguments).map (·.1)) := by
  refine ⟨?_, fun _ => rfl, ?_, ?_, ?_⟩
  · intro literal
    exact ⟨(value?_substitute bindings literal).symm, fun name => mentions_substitute literal⟩
  · intro items
    rw [value?, itemValues_eq]
  · intro fields
    rw [value?, fieldValues_eq]
  · intro schema owner definitions arguments query
    refine ⟨?_, has_argumentValues bindings arguments⟩
    rw [argumentValues_writtenOut]

end Literal

end GraphExec
