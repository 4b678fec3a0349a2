import GraphExec.Proofs.Pure.Steps
import GraphExec.Proofs.Run.Grouping
import GraphExec.Selection.Lookahead
import Mathlib.Data.List.Basic

/-!
# Evaluation by recursion

What a request of pure application code comes to, told without steps, schedules or drafts: by
recursion over the operation. An object gathers its selections; per response key the directives of
the field are asked, its arguments are coerced and its resolver is called; a value that comes later
is waited for, one that is refused is replaced, and what is left is completed by the declared type.

The recursion says nothing of positions at which a request fails. It is enough for an object or a
list to be nulled that one position below is, whatever becomes of the others.

Main statement: a request comes to one thing at most.
-/

namespace GraphExec

variable {σ : Type}

/-- What a request is evaluated in: the code is run at a state, and a key is loaded to what it
stands for. -/
structure Setting (σ : Type) where
  job : Job σ
  loads : Loads
  state : σ

/-- A position of the response: the field it belongs to, the object that owns the field, the path,
and the declared type. -/
structure Place (σ : Type) where
  typeName : String
  field : FieldDefinition σ
  group : FieldGroup
  object : AppValue
  path : Path
  type : TypeRef

namespace Place

def selections (place : Place σ) : List Selection :=
  place.group.nodes.flatMap (·.selections)

def directives (place : Place σ) : List Directive :=
  place.group.nodes.flatMap (·.directives)

def nonNull (place : Place σ) : Bool :=
  place.type.isNonNull

/-- The place of an item of a list. -/
def item (place : Place σ) (itemType : TypeRef) (n : Nat) : Place σ :=
  { place with path := place.path ++ [.index n], type := itemType }

def wants (place : Place σ) (extra : Extra) : Bool :=
  place.field.extras.contains extra

/-- The answer of a field without a resolver. -/
def defaultResult (place : Place σ) : FieldResult σ :=
  match place.object with
  | .data (.object fields) => .ok (.value ((Fields.get? fields place.field.name).getD .null))
  | _ => .ok .null

/-- What a list of nothing but errors comes to. -/
def refusals (place : Place σ) (size : Nat) : Verdict :=
  match place.type.nullable with
  | .list itemType =>
    .raise place.nonNull
      (if itemType.isNonNull then .invalid else .shown (.array (List.replicate size .null)))
  | _ => .ofLeaf .null place.nonNull

end Place

/-- The place of a field of an object. -/
def ObjectType.place (type : ObjectType σ) (object : AppValue) (path : Path) (key : String)
    (field : FieldDefinition σ) (group : FieldGroup) : Place σ :=
  ⟨type.name, field, group, object, path ++ [.field key], field.type⟩

/-- What the directives of a position say. -/
inductive Passage (σ : Type) where
  | passed
  | skipped
  | stopped (result : FieldResult σ)

namespace Passage

/-- What a directive says, given what those behind it do. -/
def after (rest : Passage σ) : Except ResolverError DirectiveFlow → Passage σ
  | .ok .proceed => rest
  | .ok .skip => skipped
  | .error error => stopped (.error error)

/-- The result of a position, given the one that it has if its directives let it go on. A position
that is left out has none. -/
def result? (result : FieldResult σ) : Passage σ → Option (FieldResult σ)
  | passed => some result
  | skipped => none
  | stopped other => some other

end Passage

/-- What is to be made of a value at a place. -/
inductive Reading (σ : Type) where
  /-- Nothing more: the verdict is there. -/
  | done (verdict : Verdict)
  /-- The place has another result. -/
  | again (result : FieldResult σ)
  /-- A list. -/
  | items (itemType : TypeRef) (values : List (ResolvedValue σ))
  /-- An object of a declared type. -/
  | object (declared : TypeDefinition σ) (value : AppValue)

/-- What the arguments come to that have been coerced. -/
def Coercion.result (loads : Loads) (state : σ) : Coercion σ → ArgumentsResult
  | .ready result => result
  | .pending lazy => lazy.answer loads state

namespace Setting

variable (setting : Setting σ)

/-- What the arguments that are written at a node come to. -/
def bag (owner : ArgumentOwner) (definitions : Fields (InputDefinition σ))
    (written : List (String × Literal)) : ArgumentsResult :=
  ((setting.job.coercion owner definitions written).answer setting.state).result setting.loads
    setting.state

/-! ### Failures and refusals -/

/-- The error that an unexpected failure is turned into, if it is. -/
def rescued? (message : String) (path : Path) : Option ExecutionError :=
  (setting.job.schema.rescue message path setting.job.query).answer setting.state

/-- The value that a result stands for, unless it ends the request. -/
def settled? (path : Path) : FieldResult σ → Option (ResolvedValue σ)
  | .ok value => some value
  | .error (.execution error) => some (.error error)
  | .error (.unexpected message) => (setting.rescued? message path).map .error

/-- What is shown instead of a value that is refused. -/
def replacement (refusal : UnauthorizedError) : ResolvedValue σ :=
  match (setting.job.schema.unauthorized refusal setting.job.query).answer setting.state with
  | .ok value => value
  | .error error => .error error

/-! ### Directives -/

/-- Whether the directives of a node let it count, unless they end the request. -/
def counts? (path : Path) : List Directive → Option Bool
  | [] => some true
  | directive :: rest =>
    match setting.job.schema.directive? directive.name with
    | none => counts? path rest
    | some definition =>
      match definition.include? with
      | none => counts? path rest
      | some keeps =>
        match setting.bag (.directive definition.name) definition.arguments
          directive.arguments with
        | .ok arguments =>
          if (keeps arguments setting.job.query).answer setting.state then counts? path rest
          else some false
        | .error (.unexpected message) => (setting.rescued? message path).map fun _ => false
        | .error _ => some false

/-- What a directive says once its arguments are there. -/
def hears (object : AppValue) (path : Path) (use : DirectiveUse σ) (rest : Passage σ) :
    ArgumentsResult → Passage σ
  | .error error => .stopped error.outcome
  | .ok arguments =>
    match (use.hook ⟨arguments, object, path, setting.job.query⟩).answer setting.state with
    | .error error => .stopped (.error (.execution error))
    | .ok answer => rest.after (answer.result setting.loads setting.state)

/-- What directives say, asked one after another. -/
def passage (object : AppValue) (path : Path) : List (DirectiveUse σ) → Passage σ
  | [] => .passed
  | use :: rest =>
    setting.hears object path use (passage object path rest)
      (setting.bag (.directive use.definition.name) use.definition.arguments
        use.directive.arguments)

/-- What the directives of a place say whose definitions have a hook of a kind. -/
def passageAt (place : Place σ)
    (hook? : DirectiveDefinition σ → Option (DirectiveHook σ)) : Passage σ :=
  setting.passage place.object place.path
    (DirectiveCursor.new setting.job.schema hook? place.directives).uses

/-! ### Fields and items -/

/-- The values that a field's own provider supplies. -/
def provided (place : Place σ) (values : Fields Value) : List Extra → Fields Value
  | [] => values
  | .custom name :: rest =>
    let value := match place.field.provide? with
      | some provide => (provide name setting.job.query).answer setting.state
      | none => .null
    provided place (Fields.insert values name value) rest
  | _ :: rest => provided place values rest

/-- What the resolver of a field is called with. -/
def context (place : Place σ) (above? : Option AppValue) (arguments : Arguments) :
    ResolverContext σ :=
  { object := place.object
    arguments
    query := setting.job.query
    typeName := place.typeName
    fieldName := place.field.name
    extras :=
      { node? := if place.wants .node then some place.group.first else none
        path? := if place.wants .path then some place.path else none
        lookahead? :=
          if place.wants .lookahead then
            some (Lookahead.of setting.job.schema setting.job.fragments setting.job.query
              place.group.nodes)
          else none
        reporting := place.wants .errors
        parent? := if place.wants .parent then above? else none
        custom := setting.provided place [] place.field.extras } }

/-- What the resolver of a field answers, if it may be called. -/
def resolved (place : Place σ) (above? : Option AppValue) (arguments : Arguments) :
    FieldResult σ :=
  let context := setting.context place above? arguments
  let allowed := match place.field.authorize? with
    | some authorize => (authorize context).answer setting.state
    | none => true
  if allowed then
    match place.field.resolve? with
    | some resolve => ((resolve context).answer setting.state).result
    | none => place.defaultResult
  else .ok (.unauthorized (.field place.typeName place.field.name))

/-- The arguments of a field. -/
def arguments (place : Place σ) : ArgumentsResult :=
  if place.field.arguments.isEmpty then .ok .empty
  else setting.bag (.field place.typeName place.field.name) place.field.arguments
    place.group.first.arguments

/-- The result of a field whose arguments are there. -/
def argued (place : Place σ) (above? : Option AppValue) : ArgumentsResult → FieldResult σ
  | .ok arguments => setting.resolved place above? arguments
  | .error error => error.outcome

/-- The result of a field, unless it is left out. -/
def fieldResult? (place : Place σ) (above? : Option AppValue) : Option (FieldResult σ) :=
  (setting.passageAt place (·.resolve?)).result?
    (setting.argued place above? (setting.arguments place))

/-- The result of an item of a list, unless it is left out. -/
def itemResult? (place : Place σ) (item : ResolvedValue σ) : Option (FieldResult σ) :=
  (setting.passageAt place (·.resolveEach?)).result? (.ok item)

/-! ### Completion -/

/-- What is to be made of a value that cannot stand anywhere, unless it ends the request. -/
def readByType? (place : Place σ) (value : ResolvedValue σ) : Option (Reading σ) :=
  match place.type.nullable with
  | .list itemType => value.items?.map (.items itemType)
  | .named name =>
    match setting.job.schema.type? name with
    | none => none
    | some (.inputObject _) => none
    | some type =>
      match type.leafCoercion?, value with
      | some coerce, .value v =>
        some (.done (.ofLeaf (coercedLeaf ((coerce v).answer setting.state)) place.nonNull))
      | some _, _ => some (.done (.ofLeaf .null place.nonNull))
      | none, value => (Position.objectValue? value).map (.object type)
  | .nonNull _ => none

/-- What is to be made of a value at a place, unless it ends the request. -/
def read? (place : Place σ) (value : ResolvedValue σ) : Option (Reading σ) :=
  match value with
  | .lazy later => some (.again (later.answer setting.loads setting.state))
  | .unauthorized refusal => some (.again (.ok (setting.replacement refusal)))
  | .value .null => some (.done (.ofLeaf .null place.nonNull))
  | .error _ => some (.done (.ofLeaf .null place.nonNull))
  | .skip => some (.done .omitted)
  | .raw v => some (.done (.shown v.toJson))
  | .list (first :: rest) =>
    if (first :: rest).all (·.isError) then
      some (.done (place.refusals (first :: rest).length))
    else setting.readByType? place value
  | other => setting.readByType? place other

/-- The concrete type of a value, or its failure to have one, unless that ends the request. -/
def concrete? (declared : TypeDefinition σ) (value : AppValue) :
    Option (Except ResolverError (ObjectType σ)) :=
  match declared with
  | .object type => some (.ok type)
  | abstractType =>
    match (setting.job.schema.resolveType abstractType value setting.job.query).answer
      setting.state with
    | none => none
    | some answer =>
      match answer.result setting.loads setting.state with
      | .error error => some (.error error)
      | .ok name => (ObjectStep.possibleType? setting.job abstractType name).map .ok

/-- The result that stands instead of a value that may not be shown. -/
def refused? (type : ObjectType σ) (value : AppValue) : Option (FieldResult σ) :=
  match type.authorize? with
  | none => none
  | some authorize =>
    match ((authorize value setting.job.query).answer setting.state).result setting.loads
      setting.state with
    | .ok true => none
    | .ok false => some (.ok (.unauthorized (.object type.name)))
    | .error error => some (.error error)

/-- The type of an object that is to be shown, or the result that stands instead of it, unless the
request ends. -/
def built? (declared : TypeDefinition σ) (value : AppValue) :
    Option (Except (FieldResult σ) (ObjectType σ)) :=
  match setting.concrete? declared value with
  | none => none
  | some (.error error) => some (.error (.error error))
  | some (.ok type) =>
    match setting.refused? type value with
    | some result => some (.error result)
    | none => some (.ok type)

/-- Which field nodes are gathered for an object. -/
def Gathers (typeName : String) (path : Path) (selections : List Selection)
    (nodes : List FieldNode) : Prop :=
  GraphExec.Gathers (fun directives kept => setting.counts? path directives = some kept)
    (fun condition => match condition with
      | none => true
      | some condition => setting.job.schema.isPossibleType condition typeName)
    setting.job.fragments selections nodes

end Setting

/-! ### The recursion -/

/-- What is evaluated. -/
inductive Goal (σ : Type) where
  /-- A place with its result, unless it is left out. -/
  | position (place : Place σ) (result? : Option (FieldResult σ))
  /-- An object of a type, below another one unless it is the root. -/
  | object (above? : Option AppValue) (path : Path) (selections : List Selection)
      (value : AppValue) (type : ObjectType σ)

/-- What a place or an object comes to. -/
inductive Evaluates (setting : Setting σ) : Goal σ → Verdict → Prop
  | skipped (place : Place σ) : Evaluates setting (.position place none) .omitted
  | done {place : Place σ} {result : FieldResult σ} {value : ResolvedValue σ} {verdict : Verdict}
      (settled : setting.settled? place.path result = some value)
      (read : setting.read? place value = some (.done verdict)) :
      Evaluates setting (.position place (some result)) verdict
  | again {place : Place σ} {result other : FieldResult σ} {value : ResolvedValue σ}
      {verdict : Verdict} (settled : setting.settled? place.path result = some value)
      (read : setting.read? place value = some (.again other))
      (after : Evaluates setting (.position place (some other)) verdict) :
      Evaluates setting (.position place (some result)) verdict
  | list {place : Place σ} {result : FieldResult σ} {value : ResolvedValue σ}
      {itemType : TypeRef} {values : List (ResolvedValue σ)}
      (settled : setting.settled? place.path result = some value)
      (read : setting.read? place value = some (.items itemType values))
      (verdicts : Nat → Verdict)
      (each : ∀ n item, values[n]? = some item → Evaluates setting
        (.position (place.item itemType n) (setting.itemResult? (place.item itemType n) item))
        (verdicts n))
      (fine : ∀ n < values.length, verdicts n ≠ .invalid) :
      Evaluates setting (.position place (some result))
        (.shown (.array ((List.range values.length).filterMap fun n => (verdicts n).json?)))
  | listNulled {place : Place σ} {result : FieldResult σ} {value : ResolvedValue σ}
      {itemType : TypeRef} {values : List (ResolvedValue σ)} {n : Nat} {item : ResolvedValue σ}
      (settled : setting.settled? place.path result = some value)
      (read : setting.read? place value = some (.items itemType values))
      (found : values[n]? = some item)
      (invalid : Evaluates setting
        (.position (place.item itemType n) (setting.itemResult? (place.item itemType n) item))
        .invalid) :
      Evaluates setting (.position place (some result)) (.raise place.nonNull .invalid)
  | replaced {place : Place σ} {result other : FieldResult σ} {value : ResolvedValue σ}
      {declared : TypeDefinition σ} {object : AppValue} {verdict : Verdict}
      (settled : setting.settled? place.path result = some value)
      (read : setting.read? place value = some (.object declared object))
      (built : setting.built? declared object = some (.error other))
      (after : Evaluates setting (.position place (some other)) verdict) :
      Evaluates setting (.position place (some result)) verdict
  | object {place : Place σ} {result : FieldResult σ} {value : ResolvedValue σ}
      {declared : TypeDefinition σ} {object : AppValue} {type : ObjectType σ} {verdict : Verdict}
      (settled : setting.settled? place.path result = some value)
      (read : setting.read? place value = some (.object declared object))
      (built : setting.built? declared object = some (.ok type))
      (below : Evaluates setting
        (.object (some place.object) place.path place.selections object type) verdict) :
      Evaluates setting (.position place (some result)) (verdict.raise place.nonNull)
  | fields {above? : Option AppValue} {path : Path} {selections : List Selection}
      {value : AppValue} {type : ObjectType σ} {nodes : List FieldNode}
      (gathers : setting.Gathers type.name path selections nodes)
      (verdicts : String → Verdict)
      (typename : ∀ key group, (key, group) ∈ Groups.of nodes → group.first.name = "__typename" →
        verdicts key = .shown (.string type.name))
      (known : ∀ key group, (key, group) ∈ Groups.of nodes → group.first.name ≠ "__typename" →
        ∃ field, Fields.get? type.fields group.first.name = some field)
      (each : ∀ key group field, (key, group) ∈ Groups.of nodes →
        group.first.name ≠ "__typename" → Fields.get? type.fields group.first.name = some field →
        Evaluates setting (.position (type.place value path key field group)
          (setting.fieldResult? (type.place value path key field group) above?)) (verdicts key))
      (fine : ∀ key ∈ (Groups.of nodes).keys, verdicts key ≠ .invalid) :
      Evaluates setting (.object above? path selections value type)
        (.shown (.object ((Groups.of nodes).keys.filterMap fun key =>
          (verdicts key).json?.map fun json => (key, json))))
  | nulled {above? : Option AppValue} {path : Path} {selections : List Selection}
      {value : AppValue} {type : ObjectType σ} {nodes : List FieldNode} {key : String}
      {group : FieldGroup} {field : FieldDefinition σ}
      (gathers : setting.Gathers type.name path selections nodes)
      (member : (key, group) ∈ Groups.of nodes) (named : group.first.name ≠ "__typename")
      (known : Fields.get? type.fields group.first.name = some field)
      (invalid : Evaluates setting (.position (type.place value path key field group)
        (setting.fieldResult? (type.place value path key field group) above?)) .invalid) :
      Evaluates setting (.object above? path selections value type) .invalid

/-- What a request comes to: the root object, unless it may not be shown. -/
inductive Setting.Answers (setting : Setting σ) : Verdict → Prop
  | refused {type : ObjectType σ} {result : FieldResult σ} {value : ResolvedValue σ}
      (known : setting.job.schema.rootType? setting.job.operation.kind = some type)
      (refused : setting.refused? type setting.job.root = some result)
      (settled : setting.settled? [] result = some value) : Answers setting .invalid
  | shown {type : ObjectType σ} {verdict : Verdict}
      (known : setting.job.schema.rootType? setting.job.operation.kind = some type)
      (shown : setting.refused? type setting.job.root = none)
      (below : Evaluates setting
        (.object none [] setting.job.operation.selections setting.job.root type) verdict) :
      Answers setting verdict

/-! ### One verdict at most -/

/-- Field nodes are gathered in one way if the directives of a node say one thing. -/
theorem Gathers.unique {keeps : List Directive → Bool → Prop} {satisfies : Option String → Bool}
    (one : ∀ directives a b, keeps directives a → keeps directives b → a = b)
    {available : Fields Fragment} {selections : List Selection} {nodes others : List FieldNode}
    (gathers : Gathers keeps satisfies available selections nodes)
    (gathers' : Gathers keeps satisfies available selections others) : nodes = others := by
  have differ : ∀ {directives}, keeps directives true → keeps directives false → False := by
    intro directives yes no
    cases one _ _ _ yes no
  induction gathers generalizing others with
  | nil available =>
      cases gathers' with
      | nil => rfl
  | left no _ ih =>
      cases gathers' with
      | left _ behind => exact ih behind
      | field yes | inline yes | missed yes | spread yes | unspread yes =>
          exact (differ yes no).elim
  | field yes _ ih =>
      cases gathers' with
      | left no _ => exact (differ yes no).elim
      | field _ behind => rw [ih behind]
  | inline yes satisfied _ _ inside ih =>
      cases gathers' with
      | left no _ => exact (differ yes no).elim
      | inline _ _ below behind => rw [inside below, ih behind]
      | missed _ missed _ => exact absurd (satisfied.symm.trans missed) nofun
  | missed yes missed _ ih =>
      cases gathers' with
      | left no _ => exact (differ yes no).elim
      | inline _ satisfied _ _ => exact absurd (satisfied.symm.trans missed) nofun
      | missed _ _ behind => exact ih behind
  | spread yes known satisfied _ _ inside ih =>
      cases gathers' with
      | left no _ => exact (differ yes no).elim
      | spread _ known' _ below behind =>
          rw [known] at known'
          injection known' with same
          subst same
          rw [inside below, ih behind]
      | unspread _ missed _ => exact absurd (satisfied.symm.trans (missed _ known)) nofun
  | unspread yes missed _ ih =>
      cases gathers' with
      | left no _ => exact (differ yes no).elim
      | spread _ known satisfied _ _ =>
          exact absurd (satisfied.symm.trans (missed _ known)) nofun
      | unspread _ _ behind => exact ih behind

theorem Setting.Gathers.unique {setting : Setting σ} {typeName : String} {path : Path}
    {selections : List Selection} {nodes others : List FieldNode}
    (gathers : setting.Gathers typeName path selections nodes)
    (gathers' : setting.Gathers typeName path selections others) : nodes = others := by
  refine GraphExec.Gathers.unique (fun directives a b yes no => ?_) gathers gathers'
  rw [yes] at no
  injection no

/-- What a reading at a place comes to. -/
def Reading.Comes (setting : Setting σ) (place : Place σ) (v : Verdict) : Reading σ → Prop
  | done verdict => v = verdict
  | again other => Evaluates setting (.position place (some other)) v
  | items itemType values =>
    (∃ verdicts : Nat → Verdict,
      (∀ n item, values[n]? = some item → Evaluates setting
        (.position (place.item itemType n) (setting.itemResult? (place.item itemType n) item))
        (verdicts n)) ∧
      (∀ n < values.length, verdicts n ≠ .invalid) ∧
      v = .shown (.array ((List.range values.length).filterMap fun n => (verdicts n).json?))) ∨
    ∃ n item, values[n]? = some item ∧ Evaluates setting
      (.position (place.item itemType n) (setting.itemResult? (place.item itemType n) item))
      .invalid ∧ v = .raise place.nonNull .invalid
  | object declared made =>
    (∃ other, setting.built? declared made = some (.error other) ∧
      Evaluates setting (.position place (some other)) v) ∨
    ∃ type verdict, setting.built? declared made = some (.ok type) ∧ Evaluates setting
      (.object (some place.object) place.path place.selections made type) verdict ∧
      v = verdict.raise place.nonNull

theorem Evaluates.reads {setting : Setting σ} {place : Place σ} {result : FieldResult σ}
    {v : Verdict} (evaluates : Evaluates setting (.position place (some result)) v) :
    ∃ value reading, setting.settled? place.path result = some value ∧
      setting.read? place value = some reading ∧ reading.Comes setting place v := by
  cases evaluates with
  | done settled read => exact ⟨_, _, settled, read, rfl⟩
  | again settled read after => exact ⟨_, _, settled, read, after⟩
  | list settled read verdicts each fine =>
      exact ⟨_, _, settled, read, .inl ⟨verdicts, each, fine, rfl⟩⟩
  | listNulled settled read found invalid =>
      exact ⟨_, _, settled, read, .inr ⟨_, _, found, invalid, rfl⟩⟩
  | replaced settled read built after => exact ⟨_, _, settled, read, .inl ⟨_, built, after⟩⟩
  | object settled read built below => exact ⟨_, _, settled, read, .inr ⟨_, _, built, below, rfl⟩⟩

/-- A place whose reading is known comes to what the reading comes to. -/
theorem Evaluates.comes {setting : Setting σ} {place : Place σ} {result : FieldResult σ}
    {value : ResolvedValue σ} {reading : Reading σ} {v : Verdict}
    (evaluates : Evaluates setting (.position place (some result)) v)
    (settled : setting.settled? place.path result = some value)
    (read : setting.read? place value = some reading) : reading.Comes setting place v := by
  obtain ⟨value', reading', settled', read', comes⟩ := evaluates.reads
  obtain rfl := Option.some.inj (settled.symm.trans settled')
  obtain rfl := Option.some.inj (read.symm.trans read')
  exact comes

/-- A place, or an object, comes to one thing at most. -/
theorem Evaluates.unique {setting : Setting σ} {goal : Goal σ} {v w : Verdict}
    (one : Evaluates setting goal v) (two : Evaluates setting goal w) : v = w := by
  induction one generalizing w with
  | skipped place =>
      cases two with
      | skipped => rfl
  | done settled read => exact (two.comes settled read).symm
  | again settled read _ ih => exact ih (two.comes settled read)
  | @list place result value itemType values settled read verdicts each fine ih =>
      rcases two.comes settled read with ⟨others, each', -, rfl⟩ | ⟨n, item, found, invalid, -⟩
      · congr 2
        refine List.filterMap_congr fun n mem => ?_
        have found := List.getElem?_eq_getElem (List.mem_range.mp mem)
        rw [ih n _ found (each' n _ found)]
      · have bound := (List.getElem?_eq_some_iff.mp found).1
        exact absurd (ih n item found invalid) (fine n bound)
  | listNulled settled read found _ ih =>
      rcases two.comes settled read with ⟨others, each', fine', -⟩ | ⟨_, _, _, _, rfl⟩
      · have bound := (List.getElem?_eq_some_iff.mp found).1
        exact absurd (ih (each' _ _ found)).symm (fine' _ bound)
      · rfl
  | replaced settled read built _ ih =>
      rcases two.comes settled read with ⟨other, built', after⟩ | ⟨type, verdict, built', -⟩
      · injection built.symm.trans built' with same
        injection same with same
        exact ih (same ▸ after)
      · cases built.symm.trans built'
  | object settled read built _ ih =>
      rcases two.comes settled read with ⟨other, built', -⟩ | ⟨type, verdict, built', below, rfl⟩
      · cases built.symm.trans built'
      · injection built.symm.trans built' with same
        injection same with same
        subst same
        rw [ih below]
  | @fields above? path selections value type nodes gathers verdicts typename known each fine ih =>
      -- The same nodes are gathered, so the verdicts are compared name by name.
      cases two with
      | @fields _ _ _ _ _ others gathers' verdicts' typename' known' each' fine' =>
          obtain rfl := gathers.unique gathers'
          congr 2
          refine List.filterMap_congr fun key mem => ?_
          obtain ⟨⟨key, group⟩, member, rfl⟩ := List.mem_map.mp mem
          have same : verdicts key = verdicts' key := by
            by_cases named : group.first.name = "__typename"
            · rw [typename key group member named, typename' key group member named]
            · obtain ⟨field, found⟩ := known key group member named
              exact ih key group field member named found
                (each' key group field member named found)
          simp only [same]
      | nulled gathers' member named found invalid =>
          obtain rfl := gathers.unique gathers'
          exact absurd (ih _ _ _ member named found invalid) (fine _ (Fields.mem_keys member))
  | nulled gathers member named found _ ih =>
      cases two with
      | @fields _ _ _ _ _ others gathers' verdicts' typename' known' each' fine' =>
          obtain rfl := gathers.unique gathers'
          exact absurd (ih (each' _ _ _ member named found)).symm
            (fine' _ (Fields.mem_keys member))
      | nulled _ _ _ _ _ => rfl

/-- A request comes to one thing at most. -/
theorem Setting.Answers.unique {setting : Setting σ} {v w : Verdict} (one : setting.Answers v)
    (two : setting.Answers w) : v = w := by
  cases one with
  | refused known refused settled =>
      cases two with
      | refused _ _ _ => rfl
      | shown known' shown _ =>
          obtain rfl := Option.some.inj (known.symm.trans known')
          cases refused.symm.trans shown
  | shown known shown below =>
      cases two with
      | refused known' refused _ =>
          obtain rfl := Option.some.inj (known.symm.trans known')
          cases refused.symm.trans shown
      | shown known' _ below' =>
          obtain rfl := Option.some.inj (known.symm.trans known')
          exact below.unique below'

end GraphExec
