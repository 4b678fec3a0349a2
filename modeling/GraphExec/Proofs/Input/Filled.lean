import GraphExec.Proofs.Fields
import GraphExec.Proofs.Input.Arguments
import GraphExec.Proofs.Input.Returns
import Mathlib.Data.List.ReduceOption
import Mathlib.Data.List.Nodup

/-!
# Bags that have been filled

A bag that is filled with what arguments come to, one by one, is read by columns: the values, the
details and the loaded objects of the arguments that have a value, each under its name.
-/

namespace GraphExec

variable {σ α : Type}

/-- A column of a bag: what is read off its arguments, under their names. -/
def column (read : Argument → Option α) (made : List Argument) : Fields α :=
  made.filterMap fun argument => (read argument).map (argument.detail.name, ·)

theorem column_keys_sublist (read : Argument → Option α) (made : List Argument) :
    (column read made).keys.Sublist (made.map (·.detail.name)) := by
  induction made with
  | nil => exact .slnil
  | cons argument rest ih =>
      unfold column
      rw [List.filterMap_cons]
      cases read argument with
      | none => exact ih.cons _
      | some a => exact ih.cons_cons _

theorem column_keys {read : Argument → α} (made : List Argument) :
    (column (fun argument => some (read argument)) made).keys = made.map (·.detail.name) := by
  induction made with
  | nil => rfl
  | cons argument rest ih => exact congrArg (argument.detail.name :: ·) ih

/-- A bag is filled column by column. -/
theorem Arguments.fill_eq (arguments : List (Option Argument)) (bag : Arguments) :
    bag.fill arguments =
      { values := (column (fun argument => some argument.detail.value)
          arguments.reduceOption).foldl (fun fields pair => Fields.insert fields pair.1 pair.2)
            bag.values
        loaded := (column (·.loaded?) arguments.reduceOption).foldl
          (fun fields pair => Fields.insert fields pair.1 pair.2) bag.loaded
        details := (column (fun argument => some argument.detail)
          arguments.reduceOption).foldl (fun fields pair => Fields.insert fields pair.1 pair.2)
            bag.details } := by
  induction arguments generalizing bag with
  | nil => rfl
  | cons argument? rest ih =>
      cases argument? with
      | none =>
          rw [List.reduceOption_cons_of_none]
          exact ih bag
      | some argument =>
          rw [List.reduceOption_cons_of_some]
          refine (ih _).trans ?_
          obtain ⟨detail, loaded?⟩ := argument
          cases loaded? <;> rfl

/-- A bag that is filled with arguments under names of their own has their columns. -/
theorem Arguments.fill_empty {arguments : List (Option Argument)}
    (distinct : (arguments.reduceOption.map (·.detail.name)).Nodup) :
    Arguments.empty.fill arguments =
      { values := column (fun argument => some argument.detail.value) arguments.reduceOption
        loaded := column (·.loaded?) arguments.reduceOption
        details := column (fun argument => some argument.detail) arguments.reduceOption } := by
  have columns : ∀ {α : Type} (read : Argument → Option α),
      Fields.ofList (column read arguments.reduceOption) = column read arguments.reduceOption :=
    fun read => Fields.ofList_of_nodup (distinct.sublist (column_keys_sublist read _))
  rw [Arguments.fill_eq]
  exact congr (congr (congrArg Arguments.mk (columns _)) (columns _)) (columns _)

/-! ### What has a value -/

/-- What every answer of a piece of code is, its answer at a state is. -/
theorem Action.Always.answer {α : Type} {holds : α → Prop} {action : Action σ α}
    (always : action.Always holds) (state : σ) : holds (action.answer state) := by
  induction action with
  | done answer => exact always
  | read next ih => exact ih state (always state)
  | write other next ih => exact ih always
  | useSource id source next ih => exact ih always
  | request key next ih => exact ih always

/-- Whether a value is given for an argument, or a default stands in. -/
def InputDefinition.stands (raw : Fields Value) (definition : InputDefinition σ) : Bool :=
  (Fields.get? raw definition.name).isSome || definition.default?.isSome

namespace Schema

variable {schema : Schema σ} {loads : Loads} {state : σ} {query : QueryContext}
  {owner : ArgumentOwner} {raw : Fields Value}

/-- A coercion answers a value for a value, and none for none. -/
theorem isSome_of_coerceWithin (defaults : Nat) (type : TypeRef) {given? result? : Option Value}
    (answers : (schema.coerceWithin defaults type given?).answer? state = some result?) :
    result?.isSome = given?.isSome := by
  have always : (schema.coerceWithin defaults type given?).Always _ :=
    coerceWithin_always defaults type given?
  refine Action.Always.answer always state result? ?_
  unfold Attempt.answer? at answers
  cases coerced : (schema.coerceWithin defaults type given?).run.answer state with
  | ok answer =>
      rw [coerced] at answers
      exact congrArg _ (Option.some.inj answers)
  | error error =>
      rw [coerced] at answers
      cases answers

theorem stands_of_coercedFor? {definition : InputDefinition σ} {coerced? : Option Value}
    (coerced : schema.coercedFor? state owner raw definition = some coerced?) :
    coerced?.isSome = definition.stands raw := by
  unfold coercedFor? coerceArgument at coerced
  rw [Attempt.answer?_adapt] at coerced
  rw [isSome_of_coerceWithin _ _ coerced, Option.isSome_or]
  rfl

/-- What is known of an argument that has come to a value. -/
theorem of_argument? {definition : InputDefinition σ} {argument : Argument}
    (comes : schema.argument? loads state query owner raw definition = some (some argument)) :
    definition.stands raw = true ∧ ∃ coerced value,
      schema.coercedFor? state owner raw definition = some (some coerced) ∧
      (prepareArgument definition query coerced).answer? state = some value ∧
      schema.loadedFor? loads state query definition value = some argument.loaded? ∧
      argument.detail = argumentDetail definition (Fields.get? raw definition.name) value := by
  obtain ⟨coerced?, coerced, comes⟩ := Option.bind_eq_some_iff.mp comes
  cases coerced? with
  | none => cases comes
  | some given =>
      obtain ⟨argument', made, same⟩ := Option.map_eq_some_iff.mp comes
      obtain rfl := Option.some.inj same
      obtain ⟨value, prepared, made⟩ := Option.bind_eq_some_iff.mp made
      obtain ⟨loaded?, loaded, rfl⟩ := Option.map_eq_some_iff.mp made
      exact ⟨(stands_of_coercedFor? coerced).symm, given, value, coerced, prepared, loaded, rfl⟩

theorem stands_iff_of_argument? {definition : InputDefinition σ} {argument? : Option Argument}
    (comes : schema.argument? loads state query owner raw definition = some argument?) :
    argument?.isSome = definition.stands raw := by
  cases argument? with
  | some argument => exact (of_argument? comes).1.symm
  | none =>
      obtain ⟨coerced?, coerced, comes⟩ := Option.bind_eq_some_iff.mp comes
      rw [← stands_of_coercedFor? coerced]
      cases coerced? with
      | none => rfl
      | some given =>
          obtain ⟨argument, -, wrong⟩ := Option.map_eq_some_iff.mp comes
          cases wrong

/-- The arguments that have values are those of the definitions that stand, in their order. -/
theorem forall₂_of_arguments {definitions : List (InputDefinition σ)} :
    ∀ {arguments : List (Option Argument)},
      definitions.mapM (schema.argument? loads state query owner raw) = some arguments →
      List.Forall₂ (fun definition argument =>
        schema.argument? loads state query owner raw definition = some (some argument))
        (definitions.filter (·.stands raw)) arguments.reduceOption := by
  induction definitions with
  | nil =>
      intro arguments all
      exact Option.some.inj all ▸ .nil
  | cons definition rest ih =>
      intro arguments all
      rw [List.mapM_cons] at all
      obtain ⟨argument?, comes, all⟩ := Option.bind_eq_some_iff.mp all
      obtain ⟨others, behind, same⟩ := Option.bind_eq_some_iff.mp all
      obtain rfl := Option.some.inj same
      have stands := stands_iff_of_argument? comes
      cases argument? with
      | none =>
          rw [List.filter_cons_of_neg (by rw [← stands]; exact Bool.false_ne_true),
            List.reduceOption_cons_of_none]
          exact ih behind
      | some argument =>
          rw [List.filter_cons_of_pos stands.symm, List.reduceOption_cons_of_some]
          exact .cons comes (ih behind)

theorem name_of_argument? {definition : InputDefinition σ} {argument : Argument}
    (comes : schema.argument? loads state query owner raw definition = some (some argument)) :
    argument.detail.name = definition.name := by
  obtain ⟨_, _, value, _, _, _, same⟩ := of_argument? comes
  rw [same]
  rfl

/-- The names of arguments that have values. -/
theorem names_of_forall₂ {definitions : List (InputDefinition σ)} {made : List Argument}
    (each : List.Forall₂ (fun definition argument =>
      schema.argument? loads state query owner raw definition = some (some argument))
      definitions made) :
    made.map (·.detail.name) = definitions.map (·.name) := by
  induction each with
  | nil => rfl
  | cons comes _ ih => exact congr (congrArg List.cons (name_of_argument? comes)) ih

theorem mem_of_mapM {β : Type} {f : α → Option β} {list : List α} {b : β} :
    ∀ {results : List β}, list.mapM f = some results →
      (b ∈ results ↔ ∃ a ∈ list, f a = some b) := by
  induction list with
  | nil =>
      intro results all
      obtain rfl := Option.some.inj all
      simp
  | cons first rest ih =>
      intro results all
      rw [List.mapM_cons] at all
      obtain ⟨one, here, all⟩ := Option.bind_eq_some_iff.mp all
      obtain ⟨others, behind, same⟩ := Option.bind_eq_some_iff.mp all
      obtain rfl := Option.some.inj same
      rw [List.mem_cons, ih behind, List.exists_mem_cons_iff, here, Option.some.injEq, eq_comm]

/-- A column is read at the name of a definition. -/
theorem get?_column {definitions : List (InputDefinition σ)} {arguments : List (Option Argument)}
    (distinct : (definitions.map (·.name)).Nodup)
    (all : definitions.mapM (schema.argument? loads state query owner raw) = some arguments)
    {definition : InputDefinition σ} (mem : definition ∈ definitions)
    {read : Argument → Option α} {a : α} :
    Fields.get? (column read arguments.reduceOption) definition.name = some a ↔
      ∃ argument, schema.argument? loads state query owner raw definition = some (some argument) ∧
        read argument = some a := by
  constructor
  · intro found
    obtain ⟨argument, among, same⟩ := List.mem_filterMap.mp (Fields.mem_of_get? found)
    obtain ⟨b, value, same⟩ := Option.map_eq_some_iff.mp same
    injection same with named same
    subst same
    obtain ⟨other, mem', comes⟩ := (mem_of_mapM all).mp (List.reduceOption_mem_iff.mp among)
    have same_name : other.name = definition.name := (name_of_argument? comes).symm.trans named
    obtain rfl := List.inj_on_of_nodup_map distinct mem' mem same_name
    exact ⟨argument, comes, value⟩
  · rintro ⟨argument, comes, value⟩
    have among := List.reduceOption_mem_iff.mpr ((mem_of_mapM all).mpr ⟨definition, mem, comes⟩)
    have names := names_of_forall₂ (forall₂_of_arguments all)
    have apart : (column read arguments.reduceOption).keys.Nodup := by
      refine List.Nodup.sublist (column_keys_sublist read _) ?_
      rw [names]
      exact distinct.sublist (List.filter_sublist.map _)
    refine Fields.get?_of_mem apart (List.mem_filterMap.mpr ⟨argument, among, ?_⟩)
    rw [value, ← name_of_argument? comes]
    rfl

/-- A bag of what definitions ask for out of the values that are given, told at a state. -/
structure Provides (schema : Schema σ) (loads : Loads) (state : σ) (query : QueryContext)
    (owner : ArgumentOwner) (raw : Fields Value) (definitions : List (InputDefinition σ))
    (bag : Arguments) : Prop where
  /-- Exactly what is given or has a default has a value, in the order of the definitions. -/
  present : bag.values.keys = (definitions.filter (·.stands raw)).map (·.name)
  /-- The value is coerced and prepared. -/
  value : ∀ definition ∈ definitions, ∀ value, bag.get? definition.name = some value →
    ∃ coerced, schema.coercedFor? state owner raw definition = some (some coerced) ∧
      (prepareArgument definition query coerced).answer? state = some value
  /-- There is a detail for each value. -/
  described : bag.details.keys = bag.values.keys
  /-- The detail tells how the value came to be. -/
  detail : ∀ definition ∈ definitions, ∀ value, bag.get? definition.name = some value →
    Fields.get? bag.details definition.name = some
      { name := definition.name
        type := definition.type
        value
        given? := Fields.get? raw definition.name
        defaultUsed := (Fields.get? raw definition.name).isNone && definition.default?.isSome
        state := .finished }
  /-- The objects are in the order of the values. -/
  order : bag.loaded.keys.Sublist bag.values.keys
  /-- Exactly the loading arguments whose value is not null have an object. -/
  loaded : ∀ definition ∈ definitions, (bag.loaded? definition.name).isSome = true ↔
    definition.isLoading = true ∧ ∃ value, bag.get? definition.name = some value ∧ value ≠ .null
  /-- The object is what the value loads, and the type that it is loaded as grants it. -/
  object : ∀ definition ∈ definitions, ∀ typeName load, definition.loads? = some (typeName, load) →
    ∀ object, bag.loaded? definition.name = some object →
      (∃ value, bag.get? definition.name = some value ∧
        ((load value query).answer state).toOption.bind (·.result? loads state) = some object) ∧
      ∀ type authorize, schema.objectType? typeName = some type →
        type.authorize? = some authorize →
          ((authorize object query).answer state).result? loads state = some true

theorem isNull_iff {value : Value} : value.isNull = true ↔ value = .null := by
  cases value <;> simp [Value.isNull]

theorem loaded_iff_of_loadedFor? {definition : InputDefinition σ} {value : Value}
    {loaded? : Option AppValue}
    (comes : schema.loadedFor? loads state query definition value = some loaded?) :
    loaded?.isSome = true ↔ definition.isLoading = true ∧ value ≠ .null := by
  unfold loadedFor? at comes
  unfold InputDefinition.isLoading
  split at comes
  · rename_i none_loads
    obtain rfl := Option.some.inj comes
    simp [none_loads]
  · rename_i typeName load found
    rw [found]
    split at comes
    · rename_i null
      obtain rfl := Option.some.inj comes
      simp [isNull_iff.mp null]
    · rename_i some_value
      obtain ⟨object, -, rfl⟩ := Option.map_eq_some_iff.mp comes
      simpa using fun null => some_value (isNull_iff.mpr null)

/-- An object that is loaded is what the value loads, and is granted. -/
theorem granted_of_loadedFor? {definition : InputDefinition σ} {value : Value}
    {object : AppValue} {typeName : String}
    {load : Value → QueryContext →
      Action σ (Except ResolverError (Answer σ ResolverError AppValue))}
    (found : definition.loads? = some (typeName, load))
    (comes : schema.loadedFor? loads state query definition value = some (some object)) :
    ((load value query).answer state).toOption.bind (·.result? loads state) = some object ∧
      ∀ type authorize, schema.objectType? typeName = some type →
        type.authorize? = some authorize →
          ((authorize object query).answer state).result? loads state = some true := by
  unfold loadedFor? at comes
  rw [found] at comes
  simp only at comes
  split at comes
  · cases comes
  · obtain ⟨object', brings, same⟩ := Option.map_eq_some_iff.mp comes
    obtain rfl := Option.some.inj same
    rw [← Option.bind_assoc] at brings
    obtain ⟨object, loaded, admitted⟩ := Option.bind_eq_some_iff.mp brings
    obtain ⟨may, answers, granted⟩ := Option.bind_eq_some_iff.mp admitted
    cases may with
    | false => cases granted
    | true =>
        obtain rfl := Option.some.inj granted
        refine ⟨loaded, fun type authorize known hook => ?_⟩
        unfold authorizeLoaded at answers
        rw [known, Option.bind_some, hook] at answers
        exact answers

/-- A bag that is filled with what arguments come to provides what their definitions ask for. -/
theorem provides_of_arguments {definitions : List (InputDefinition σ)}
    {arguments : List (Option Argument)} (distinct : (definitions.map (·.name)).Nodup)
    (all : definitions.mapM (schema.argument? loads state query owner raw) = some arguments) :
    schema.Provides loads state query owner raw definitions (Arguments.empty.fill arguments) := by
  have names := names_of_forall₂ (forall₂_of_arguments all)
  have apart : (arguments.reduceOption.map (·.detail.name)).Nodup := by
    rw [names]
    exact distinct.sublist (List.filter_sublist.map _)
  let bag := Arguments.empty.fill arguments
  have columns : bag = _ := Arguments.fill_empty apart
  -- Distinct names tell the arguments apart, so each column of the bag is read definition by definition.
  have values : ∀ definition ∈ definitions, ∀ value, bag.get? definition.name = some value ↔
      ∃ argument, schema.argument? loads state query owner raw definition = some (some argument) ∧
        some argument.detail.value = some value := by
    intro definition mem value
    rw [columns]
    exact get?_column distinct all mem
  have objects : ∀ definition ∈ definitions, ∀ object, bag.loaded? definition.name = some object ↔
      ∃ argument, schema.argument? loads state query owner raw definition = some (some argument) ∧
        argument.loaded? = some object := by
    intro definition mem object
    rw [columns]
    exact get?_column distinct all mem
  constructor
  case present =>
    show bag.values.keys = _
    rw [columns]
    exact (column_keys _).trans names
  case value =>
    intro definition mem value found
    obtain ⟨argument, comes, same⟩ := (values definition mem value).mp found
    obtain ⟨-, coerced, other, of_coerced, prepared, -, detail⟩ := of_argument? comes
    rw [detail] at same
    exact ⟨coerced, of_coerced, prepared.trans same⟩
  case described =>
    show bag.details.keys = bag.values.keys
    rw [columns]
    exact (column_keys _).trans (column_keys _).symm
  case detail =>
    intro definition mem value found
    obtain ⟨argument, comes, same⟩ := (values definition mem value).mp found
    obtain ⟨stands, coerced, other, -, -, -, detail⟩ := of_argument? comes
    rw [detail] at same
    obtain rfl := Option.some.inj same
    show Fields.get? bag.details definition.name = _
    rw [columns]
    refine (get?_column distinct all mem).mpr ⟨argument, comes, ?_⟩
    rw [detail]
    unfold InputDefinition.stands at stands
    cases given : Fields.get? raw definition.name with
    | some value => rfl
    | none =>
        rw [given, Option.isSome_none, Bool.false_or] at stands
        simp [argumentDetail, stands]
  case order =>
    show bag.loaded.keys.Sublist bag.values.keys
    rw [columns]
    show (column _ arguments.reduceOption).keys.Sublist (column _ arguments.reduceOption).keys
    rw [column_keys]
    exact column_keys_sublist _ _
  case loaded =>
    intro definition mem
    constructor
    · intro some_object
      obtain ⟨object, found⟩ := Option.isSome_iff_exists.mp some_object
      obtain ⟨argument, comes, loaded⟩ := (objects definition mem object).mp found
      obtain ⟨-, coerced, value, -, -, loading, detail⟩ := of_argument? comes
      obtain ⟨loads, some_value⟩ := (loaded_iff_of_loadedFor? loading).mp (by rw [loaded]; rfl)
      refine ⟨loads, value, (values definition mem value).mpr ⟨argument, comes, ?_⟩, some_value⟩
      rw [detail]
      rfl
    · rintro ⟨loads, value, found, some_value⟩
      obtain ⟨argument, comes, same⟩ := (values definition mem value).mp found
      obtain ⟨-, coerced, other, -, -, loading, detail⟩ := of_argument? comes
      rw [detail] at same
      obtain rfl := Option.some.inj same
      obtain ⟨object, loaded⟩ := Option.isSome_iff_exists.mp
        ((loaded_iff_of_loadedFor? loading).mpr ⟨loads, some_value⟩)
      exact Option.isSome_iff_exists.mpr
        ⟨object, (objects definition mem object).mpr ⟨argument, comes, loaded⟩⟩
  case object =>
    intro definition mem typeName load hook object found
    obtain ⟨argument, comes, loaded⟩ := (objects definition mem object).mp found
    obtain ⟨-, coerced, value, -, -, loading, detail⟩ := of_argument? comes
    rw [loaded] at loading
    obtain ⟨brings, granted⟩ := granted_of_loadedFor? hook loading
    refine ⟨⟨value, (values definition mem value).mpr ⟨argument, comes, ?_⟩, brings⟩, granted⟩
    rw [detail]
    rfl

end Schema

end GraphExec
