import GraphExec.Document.Literal
import GraphExec.Schema.Basic

/-!
# Coercion of input

Values that come in are coerced to the declared types of variables and arguments. Arguments are
then prepared and loaded by the application; what they load is authorized.

The default of an input field is coerced in turn, and may lack fields that have defaults of their
own. A chain of defaults longer than the schema has defaults uses one of them inside itself and
would never end; such a value is refused.
-/

namespace GraphExec

/-- Why a value does not fit a type. -/
inductive InputError where
  /-- Null, or nothing, at a type without null. -/
  | nullFound (type : TypeRef)
  /-- The type is not for input. -/
  | notInputType (typeName : String)
  /-- Something else stands where an object is expected. -/
  | objectExpected (typeName : String) (found : Value)
  /-- A scalar or an enum refused the value, in its own words. -/
  | refused (message : String)
  /-- A field of an object does not fit. -/
  | inField (fieldName : String) (error : InputError)
  /-- An object has a field that its type does not define. -/
  | unknownField (fieldName typeName : String)
  /-- The default of a field is needed to complete itself. -/
  | endlessDefault (fieldName typeName : String)

/-- The wording of a refusal. -/
def InputError.message : InputError → String
  | .nullFound type => "Expected value of type \"" ++ type.text ++ "\", found null"
  | .notInputType typeName => typeName ++ " is not an input type"
  | .objectExpected typeName found =>
    "Expected an object of type " ++ typeName ++ ", found " ++ found.display
  | .refused message => message
  | .inField fieldName error => "In field \"" ++ fieldName ++ "\": " ++ error.message
  | .unknownField fieldName typeName =>
    "Field \"" ++ fieldName ++ "\" is not defined by type " ++ typeName
  | .endlessDefault fieldName typeName =>
    "The default of field \"" ++ fieldName ++ "\" of type " ++ typeName ++ " contains itself"

/-- Application code that may fail with an `ε`. -/
abbrev Attempt (σ ε : Type) := ExceptT ε (Action σ)

namespace Attempt

variable {σ ε α : Type}

/-- Application code that cannot fail. -/
def call (action : Action σ α) : Attempt σ ε α :=
  ExceptT.lift action

/-- Application code that fails in its own way, which is told as an `ε`. -/
def callOr {δ : Type} (tell : δ → ε) (action : Action σ (Except δ α)) : Attempt σ ε α :=
  ExceptT.mk ((Except.mapError tell) <$> action)

end Attempt

/-- A measure of an optional value. -/
noncomputable def Value.optionalSize : Option Value → Nat
  | none => 0
  | some value => sizeOf value

theorem Fields.optionalSize_get?_lt (fields : Fields Value) (name : String) :
    Value.optionalSize (Fields.get? fields name) < sizeOf fields := by
  induction fields with
  | nil => simp [Fields.get?, Value.optionalSize]
  | cons entry rest ih =>
    obtain ⟨k, v⟩ := entry
    unfold Fields.get?
    split
    · simp [Value.optionalSize]; omega
    · simp; omega

theorem Fields.sizeOf_erase_le {α : Type} [SizeOf α] (fields : Fields α) (name : String) :
    sizeOf (Fields.erase fields name) ≤ sizeOf fields := by
  induction fields with
  | nil => simp [Fields.erase]
  | cons entry rest ih =>
    obtain ⟨k, v⟩ := entry
    unfold Fields.erase
    split
    · simp
    · simp; omega

namespace Schema

variable {σ : Type}

/-- The number of input fields that have defaults. -/
def inputDefaults (schema : Schema σ) : Nat :=
  (schema.types.values.flatMap fun type =>
    match type with
    | .inputObject t => t.fields.values.filter fun field => field.default?.isSome
    | _ => []).length

mutual

/-- Coerces a value, or the lack of one, to a type. Nothing is answered only if nothing was given
and null is allowed. At most `defaults` defaults are used inside one another. -/
def coerceWithin (schema : Schema σ) (defaults : Nat) (type : TypeRef) (value? : Option Value) :
    Attempt σ InputError (Option Value) :=
  match type, value? with
  | .nonNull inner, none => throw (.nullFound (.nonNull inner))
  | .nonNull inner, some .null => throw (.nullFound (.nonNull inner))
  | .nonNull inner, some value => schema.coerceWithin defaults inner (some value)
  | .list _, none => pure none
  | .list _, some .null => pure (some .null)
  | .list inner, some (.list items) => do
    let items ← schema.coerceItems defaults inner items
    pure (some (.list items))
  | .list inner, some single => do
    -- A single value stands for the list of it.
    let item? ← schema.coerceWithin defaults inner (some single)
    pure (some (.list [item?.getD .null]))
  | .named _, none => pure none
  | .named _, some .null => pure (some .null)
  | .named name, some value =>
    match schema.type? name with
    | some (.scalar t) => some <$> Attempt.callOr .refused (t.coerceInput value)
    | some (.enum t) => some <$> Attempt.callOr .refused (pure (t.coerce value))
    | some (.inputObject t) =>
      match value with
      | .object fields => do
        let (coerced, rest) ← schema.coerceFields defaults t.name t.fields fields
        match rest with
        | [] => pure (some (.object coerced))
        | (unknown, _) :: _ => throw (.unknownField unknown t.name)
      | other => throw (.objectExpected t.name other)
    | _ => throw (.notInputType name)
termination_by (defaults, Value.optionalSize value?, sizeOf type)
decreasing_by all_goals simp [Value.optionalSize, Prod.lex_def]

/-- Coerces the items of a list to a type; nothing stands for null. -/
def coerceItems (schema : Schema σ) (defaults : Nat) (type : TypeRef) (items : List Value) :
    Attempt σ InputError (List Value) :=
  match items with
  | [] => pure []
  | item :: rest => do
    let item? ← schema.coerceWithin defaults type (some item)
    let rest ← schema.coerceItems defaults type rest
    pure (item?.getD .null :: rest)
termination_by (defaults, sizeOf items, sizeOf type + 1)
decreasing_by all_goals simp [Value.optionalSize, Prod.lex_def] <;> omega

/-- Coerces the fields of an object to their definitions, in the order of these. Fields that have
no definition are left over. -/
def coerceFields (schema : Schema σ) (defaults : Nat) (typeName : String)
    (definitions : Fields (InputDefinition σ)) (fields : Fields Value) :
    Attempt σ InputError (Fields Value × Fields Value) :=
  match definitions with
  | [] => pure ([], fields)
  | (name, definition) :: others => do
    let value? ← ExceptT.adapt (.inField name)
      (match _given : Fields.get? fields name, definition.default? with
      | some value, _ => schema.coerceWithin defaults definition.type (some value)
      | none, none => schema.coerceWithin defaults definition.type none
      | none, some value =>
        match defaults with
        | 0 => throw (.endlessDefault name typeName)
        | fewer + 1 => schema.coerceWithin fewer definition.type (some value))
    let (coerced, rest) ← schema.coerceFields defaults typeName others (Fields.erase fields name)
    match value? with
    | some value => pure ((name, value) :: coerced, rest)
    | none => pure (coerced, rest)
termination_by (defaults, sizeOf fields, sizeOf definitions)
decreasing_by
  · have smaller := Fields.optionalSize_get?_lt fields name
    rw [_given] at smaller
    exact Prod.Lex.right _ (Prod.Lex.left _ _ smaller)
  · have smaller := Fields.optionalSize_get?_lt fields name
    rw [_given] at smaller
    exact Prod.Lex.right _ (Prod.Lex.left _ _ smaller)
  · exact Prod.Lex.left _ _ (by omega)
  · have bound := Fields.sizeOf_erase_le fields name
    simp [Prod.lex_def]
    omega

end

/-- Coerces a value, or the lack of one, to a type. -/
def coerceInput (schema : Schema σ) (type : TypeRef) (value? : Option Value) :
    Attempt σ InputError (Option Value) :=
  schema.coerceWithin schema.inputDefaults type value?

end Schema

/-- Whose arguments they are. -/
inductive ArgumentOwner where
  /-- A field of an object type. -/
  | field (typeName fieldName : String)
  /-- A directive. -/
  | directive (name : String)
deriving DecidableEq, Repr

/-- An owner as it is shown in messages. -/
def ArgumentOwner.text : ArgumentOwner → String
  | .field typeName fieldName => typeName ++ "." ++ fieldName
  | .directive name => "@" ++ name

/-- A load that waits: for the object, or for its authorization. -/
structure DeferredLoad (σ : Type) where
  /-- The name of the argument. -/
  name : String
  /-- The type that the object is loaded as. -/
  typeName : String
  /-- The object. -/
  object : Answer σ ResolverError AppValue
  /-- The authorization of the object, if it has been asked for. -/
  authorization? : Option (Answer σ ResolverError Bool)

/-- What the value of an argument loads. -/
inductive Loading (σ : Type) where
  /-- Nothing. -/
  | nothing
  /-- An object that is there and authorized. -/
  | loaded (object : AppValue)
  /-- An object that is still waited for. -/
  | deferred (load : DeferredLoad σ)

/-- What coercing a bag of arguments comes to: a result, or one that is waited for. -/
inductive Coercion (σ : Type) where
  /-- The result. -/
  | ready (result : ArgumentsResult)
  /-- The result comes once all loads are done. -/
  | pending (lazy : Lazy σ ArgumentsResult)

namespace Schema

variable {σ : Type}

/-- Whether an object may be loaded as a type. -/
def authorizeLoaded (schema : Schema σ) (typeName : String) (object : AppValue)
    (query : QueryContext) : Action σ (Answer σ ResolverError Bool) :=
  match (schema.objectType? typeName).bind (·.authorize?) with
  | some authorize => authorize object query
  | none => pure (.ready true)

/-- Coerces the value of an argument, or the lack of one. -/
def coerceArgument (schema : Schema σ) (owner : ArgumentOwner) (definition : InputDefinition σ)
    (value? : Option Value) : Attempt σ ArgumentError (Option Value) :=
  ExceptT.adapt
    (fun error => .execution
      { message := "Argument '" ++ definition.name ++ "' on " ++ owner.text ++
          " has an invalid value: " ++ error.message })
    (schema.coerceInput definition.type value?)

/-- Prepares the coerced value of an argument. -/
def prepareArgument (definition : InputDefinition σ) (query : QueryContext) (value : Value) :
    Attempt σ ArgumentError Value :=
  match definition.prepare? with
  | some prepare => Attempt.callOr .execution (prepare value query)
  | none => pure value

/-- Loads the object that the value of an argument stands for. It is authorized at once if it is
there and nothing before it is waited for. -/
def loadArgument (schema : Schema σ) (definition : InputDefinition σ) (query : QueryContext)
    (waiting : Bool) (value : Value) : Attempt σ ArgumentError (Loading σ) :=
  match definition.loads? with
  | none => pure .nothing
  | some (typeName, load) =>
    if value.isNull then pure .nothing
    else do
      match waiting, ← Attempt.callOr .ofResolverError (load value query) with
      | false, .ready object =>
        match ← Attempt.call (schema.authorizeLoaded typeName object query) with
        | .ready true => pure (.loaded object)
        | .ready false => throw (.unauthorized (.object typeName))
        | later => pure (.deferred ⟨definition.name, typeName, .ready object, some later⟩)
      | _, object => pure (.deferred ⟨definition.name, typeName, object, none⟩)

/-- How an argument that has a value came to be. -/
def argumentDetail (definition : InputDefinition σ) (given? : Option Value) (value : Value) :
    ArgumentDetail :=
  { name := definition.name
    type := definition.type
    value
    given? := given?
    defaultUsed := given?.isNone
    state := .finished }

/-- Coerces, prepares and loads arguments in the order of their definitions. The loads that are
waited for are handed on. -/
def coerceEach (schema : Schema σ) (owner : ArgumentOwner) (raw : Fields Value)
    (query : QueryContext) (bag : Arguments) (waiting : List (DeferredLoad σ)) :
    List (InputDefinition σ) → Attempt σ ArgumentError (Arguments × List (DeferredLoad σ))
  | [] => pure (bag, waiting)
  | definition :: rest => do
    let given? := Fields.get? raw definition.name
    match ← schema.coerceArgument owner definition (given?.or definition.default?) with
    | none => schema.coerceEach owner raw query bag waiting rest
    | some coerced =>
      let value ← prepareArgument definition query coerced
      let loading ← schema.loadArgument definition query (!waiting.isEmpty) value
      let bag := { bag with
        values := Fields.insert bag.values definition.name value
        details := Fields.insert bag.details definition.name
          (argumentDetail definition given? value) }
      match loading with
      | .nothing => schema.coerceEach owner raw query bag waiting rest
      | .loaded object =>
        let bag := { bag with loaded := Fields.insert bag.loaded definition.name object }
        schema.coerceEach owner raw query bag waiting rest
      | .deferred load => schema.coerceEach owner raw query bag (waiting ++ [load]) rest

/-- The answer itself, waited for if need be. -/
def await {α : Type} : Answer σ ResolverError α → ExceptT ArgumentError (Lazy σ) α
  | .ready answer => pure answer
  | .later lazy => ExceptT.mk ((Except.mapError .ofResolverError) <$> lazy)

/-- Waits for loads, one after another, and authorizes what they bring. -/
def finishLoads (schema : Schema σ) (query : QueryContext) (bag : Arguments) :
    List (DeferredLoad σ) → ExceptT ArgumentError (Lazy σ) Arguments
  | [] => pure bag
  | load :: rest => do
    let object ← await load.object
    let authorization ← match load.authorization? with
      | some authorization => pure authorization
      | none =>
        ExceptT.lift (Lazy.ofAction (schema.authorizeLoaded load.typeName object query))
    if ← await authorization then
      let bag := { bag with loaded := Fields.insert bag.loaded load.name object }
      schema.finishLoads query bag rest
    else throw (.unauthorized (.object load.typeName))

/-- Makes the bag of arguments that definitions ask for out of the values that are given. -/
def coerceArguments (schema : Schema σ) (owner : ArgumentOwner)
    (definitions : Fields (InputDefinition σ)) (raw : Fields Value) (query : QueryContext) :
    Action σ (Coercion σ) := do
  match ← (schema.coerceEach owner raw query Arguments.empty [] definitions.values).run with
  | .error error => return .ready (.error error)
  | .ok (bag, []) => return .ready (.ok bag)
  | .ok (bag, waiting) => return .pending (schema.finishLoads query bag waiting)

end Schema

end GraphExec
