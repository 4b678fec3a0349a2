import GraphExec.Proofs.Pure.Arguments
import GraphExec.Proofs.Run.Inquiries
import GraphExec.Proofs.Run.Scope
import GraphExec.Proofs.Run.Ways
import GraphExec.Proofs.Schema.Possible

/-!
# Steps of pure runs

A step of a pure run holds nothing but pure values and code, and asks for the arguments of nodes of
its document. What it waits for is settled.
-/

namespace GraphExec

variable {σ : Type}

/-! ### Documents -/

/-- The selections that a job can come across. -/
inductive Job.Has (job : Job σ) : Selection → Prop
  | operation {selection : Selection} (mem : selection ∈ job.operation.selections) :
      Has job selection
  | fragment {fragment : Fragment} {selection : Selection} (known : fragment ∈ job.fragments.values)
      (mem : selection ∈ fragment.selections) : Has job selection
  | field {node : FieldNode} {selection : Selection} (above : Has job (.field node))
      (mem : selection ∈ node.selections) : Has job selection
  | inline {condition : Option String} {directives : List Directive} {inner : List Selection}
      {selection : Selection} (above : Has job (.inline condition directives inner))
      (mem : selection ∈ inner) : Has job selection

/-- Whatever is in reach from selections of the document is in the document. -/
theorem Job.Has.reached {job : Job σ} {selections : List Selection} {selection : Selection}
    (has : ∀ other ∈ selections, job.Has other)
    (reached : selection.Reached job.fragments selections) : job.Has selection := by
  induction reached with
  | here mem => exact has _ mem
  | inline _ mem ih => exact .inline ih mem
  | spread _ known mem _ => exact .fragment (List.mem_map_of_mem known) mem

/-- What is inside a node of the document is in the document. -/
theorem Grouper.has_inside {grouper : Grouper σ} {available inner : Fields Fragment}
    {selection : Selection} {selections : List Selection} (has : grouper.job.Has selection)
    (fewer : ∀ fragment ∈ available.values, fragment ∈ grouper.job.fragments.values)
    (inside : grouper.inside? available selection = some (inner, selections)) :
    (∀ selection ∈ selections, grouper.job.Has selection) ∧
      ∀ fragment ∈ inner.values, fragment ∈ grouper.job.fragments.values := by
  rcases inside_cases inside with ⟨condition, directives, rfl, -, rfl⟩ |
    ⟨name, directives, fragment, rfl, known, -, rfl, rfl⟩
  · exact ⟨fun _ mem => .inline has mem, fewer⟩
  · exact ⟨fun _ mem => .fragment (fewer _ (Fields.mem_values_of_get? known)) mem,
      fun _ mem => fewer _ (Fields.mem_of_mem_erase mem)⟩

/-- Which bags of arguments a job asks for, and how they are made. -/
inductive Job.Asks (job : Job σ) : ArgumentKey → Action σ (Coercion σ) → Prop
  | field {node : FieldNode} {type : ObjectType σ} {field : FieldDefinition σ}
      (has : job.Has (.field node)) (known : job.schema.objectType? type.name = some type)
      (found : Fields.get? type.fields node.name = some field) (parent : Identity) :
      Asks job (.new node.offset (.field type.name field.name) field.arguments parent)
        (job.coercion (.field type.name field.name) field.arguments node.arguments)
  | directive {selection : Selection} {directive : Directive}
      {definition : DirectiveDefinition σ} (has : job.Has selection)
      (written : directive ∈ selection.directives)
      (found : job.schema.directive? directive.name = some definition) (parent : Identity) :
      Asks job (.new directive.offset (.directive definition.name) definition.arguments parent)
        (job.coercion (.directive definition.name) definition.arguments directive.arguments)

/-! ### Bags of arguments -/

/-- The arguments come to a result, at once or later. -/
def Coercion.Answers (loads : Loads) (result : ArgumentsResult) : Coercion σ → Prop
  | .ready r => r = result
  | .pending lazy => lazy.Answers loads result

/-- Code that makes a bag comes to a result. -/
def Coerces (loads : Loads) (coerce : Action σ (Coercion σ)) (result : ArgumentsResult) : Prop :=
  coerce.Settled loads (·.Answers loads result)

/-- What is known of the bags under keys agrees with what a job asks for, and all code that it may
come to run is pure. -/
structure Job.Fine (loads : Loads) (good : ArgumentKey → ArgumentsResult → Prop) (job : Job σ) :
    Prop where
  pure : job.schema.Pure loads
  named : SchemaBuilder.Named job.schema.types
  good : ∀ key coerce result, job.Asks key coerce → Coerces loads coerce result → good key result

/-! ### Steps -/

/-- A directive of the document with a pure hook. -/
structure DirectiveUse.Pure (loads : Loads) (job : Job σ) (use : DirectiveUse σ) : Prop where
  written : ∃ selection, job.Has selection ∧ use.directive ∈ selection.directives
  found : job.schema.directive? use.directive.name = some use.definition
  hook : DirectiveHook.Pure loads use.hook

def DirectiveCursor.Pure (loads : Loads) (job : Job σ) (cursor : DirectiveCursor σ) : Prop :=
  ∀ use ∈ cursor.uses, use.Pure loads job

/-- A field of the schema, selected by nodes of the document. -/
structure FieldSite.Known (job : Job σ) (site : FieldSite σ) : Prop where
  nodes : ∀ node ∈ site.group.nodes, job.Has (.field node)
  type : ∃ type, job.schema.objectType? type.name = some type ∧ type.name = site.typeName ∧
    Fields.get? type.fields site.group.first.name = some site.field

def FieldState.Pure (loads : Loads) (job : Job σ) : FieldState σ → Prop
  | runDirectives cursor => cursor.Pure loads job
  | resolved result => result.Pure loads
  | _ => True

def ItemState.Pure (loads : Loads) (job : Job σ) : ItemState σ → Prop
  | runDirectives cursor item => cursor.Pure loads job ∧ item.Pure loads
  | resolved result => result.Pure loads
  | settled value => value.Pure loads
  | awaitingValue => True

def ObjectTarget.Known (job : Job σ) : ObjectTarget σ → Prop
  | root => True
  | child position => position.site.Known job

/-- A type that is known by a name. -/
def Schema.Knows (schema : Schema σ) (type : TypeDefinition σ) : Prop :=
  ∃ name, schema.type? name = some type

def ObjectState.Pure (loads : Loads) (job : Job σ) : ObjectState σ → Prop
  | resolveType declared => job.schema.Knows declared
  | awaitingType declared => job.schema.Knows declared
  | typeResolved declared _ => job.schema.Knows declared
  | authorize type => job.schema.objectType? type.name = some type
  | awaitingAuthorization type => job.schema.objectType? type.name = some type
  | authorized type _ => job.schema.objectType? type.name = some type
  | awaitingReplacement => True
  | replaced result => result.Pure loads
  | allocate type => job.schema.objectType? type.name = some type
  | collect type _ => job.schema.objectType? type.name = some type
  | awaitingArguments type _ => job.schema.objectType? type.name = some type

structure ObjectStep.Pure (loads : Loads) (job : Job σ) (step : ObjectStep σ) : Prop where
  target : step.target.Known job
  selections : ∀ selection ∈ step.selections, job.Has selection
  state : step.state.Pure loads job

/-- A step that holds nothing but pure values and code. -/
def Step.Pure (loads : Loads) (job : Job σ) : Step σ → Prop
  | .object step => step.Pure loads job
  | .field step => step.site.Known job ∧ step.state.Pure loads job
  | .item step => step.position.site.Known job ∧ step.state.Pure loads job

/-! ### Waits -/

/-- What a step waits for comes to an answer. -/
inductive Wait.Answers (loads : Loads) (good : ArgumentKey → ArgumentsResult → Prop) :
    Wait σ → Resumption σ → Prop
  | value {rest : Pending σ (FieldResult σ)} {result : FieldResult σ}
      (answers : rest.Answers loads result) (pure : result.Pure loads) :
      Answers loads good (.value rest) (.value result)
  | type {rest : Pending σ (Except ResolverError String)} {result : Except ResolverError String}
      (answers : rest.Answers loads result) : Answers loads good (.type rest) (.type result)
  | authorization {rest : Pending σ (Except ResolverError Bool)}
      {result : Except ResolverError Bool} (answers : rest.Answers loads result) :
      Answers loads good (.authorization rest) (.authorization result)
  | directive {rest : Pending σ (Except ResolverError DirectiveFlow)}
      {result : Except ResolverError DirectiveFlow} (answers : rest.Answers loads result) :
      Answers loads good (.directive rest) (.directive result)
  | arguments {key : ArgumentKey} {result : ArgumentsResult} (fine : good key result) :
      Answers loads good (.arguments key) (.arguments result)

def Wait.Pure (loads : Loads) (good : ArgumentKey → ArgumentsResult → Prop) (wait : Wait σ) : Prop :=
  ∃ resumption, wait.Answers loads good resumption

/-- The step that goes on is pure, and so is what it waits for. -/
def Progress.Pure (loads : Loads) (good : ArgumentKey → ArgumentsResult → Prop) (job : Job σ) :
    Progress σ → Prop
  | .again step => step.Pure loads job
  | .finished => True
  | .parked step _ wait => step.Pure loads job ∧ wait.Pure loads good

/-- An answer that is pure. -/
def Resumption.Pure (loads : Loads) : Resumption σ → Prop
  | .value result => result.Pure loads
  | _ => True

/-! ### Types and fields -/

variable {loads : Loads} {good : ArgumentKey → ArgumentsResult → Prop} {job : Job σ}

theorem Schema.type?_of_objectType? {schema : Schema σ} {name : String} {type : ObjectType σ}
    (found : schema.objectType? name = some type) : schema.type? name = some (.object type) := by
  unfold objectType? at found
  split at found
  · rename_i known
    injection found with same
    exact same ▸ known
  · cases found

namespace Job.Fine

/-- An object type is known by its own name. -/
theorem own (fine : job.Fine loads good) {name : String} {type : ObjectType σ}
    (found : job.schema.objectType? name = some type) :
    job.schema.objectType? type.name = some type := by
  have known := Schema.type?_of_objectType? found
  have same : type.name = name := fine.named.own name _ known
  exact same ▸ found

theorem objectType (fine : job.Fine loads good) {type : ObjectType σ}
    (known : job.schema.objectType? type.name = some type) : type.Pure loads :=
  fine.pure.types _ _ (Schema.type?_of_objectType? known)

theorem field (fine : job.Fine loads good) {site : FieldSite σ} (known : site.Known job) :
    site.field.Pure loads := by
  obtain ⟨type, named, -, found⟩ := known.type
  exact (fine.objectType named).fields _ (Fields.mem_values_of_get? found)

end Job.Fine

theorem FieldSite.Known.asks {site : FieldSite σ} (known : site.Known job) :
    job.Asks site.argumentKey (job.coercion (.field site.typeName site.field.name)
      site.field.arguments site.group.first.arguments) := by
  obtain ⟨type, named, same, found⟩ := known.type
  have has := known.nodes _ List.mem_cons_self
  have asks := Job.Asks.field has named found site.owner.identity
  rwa [same] at asks

theorem DirectiveUse.Pure.asks {use : DirectiveUse σ} (pure : use.Pure loads job)
    (parent : Identity) :
    job.Asks
      (.new use.directive.offset (.directive use.definition.name) use.definition.arguments parent)
      (job.coercion (.directive use.definition.name) use.definition.arguments
        use.directive.arguments) := by
  obtain ⟨selection, has, written⟩ := pure.written
  exact .directive has written pure.found parent

/-- Whatever a job asks for is pure code that comes to a bag. -/
theorem Job.Fine.coerces (fine : job.Fine loads good) {key : ArgumentKey}
    {coerce : Action σ (Coercion σ)} (asks : job.Asks key coerce) :
    ∃ result, Coerces loads coerce result := by
  have settled : ∀ (owner : ArgumentOwner) (definitions : Fields (InputDefinition σ))
      (written : List (String × Literal)),
      (∀ definition ∈ definitions.values, definition.Pure loads) →
      ∃ result, Coerces loads (job.coercion owner definitions written) result := by
    intro owner definitions written each
    obtain ⟨coercion, answers, later⟩ := fine.pure.coerceArguments each
      (Literal.argumentValues job.query.bindings written) job.query
    cases coercion with
    | ready result => exact ⟨result, _, answers, rfl⟩
    | pending lazy =>
        obtain ⟨result, finishes, -⟩ := later lazy rfl
        exact ⟨result, _, answers, finishes⟩
  cases asks with
  | field _ known found _ =>
      have pure := (fine.objectType known).fields _ (Fields.mem_values_of_get? found)
      exact settled _ _ _ pure.arguments
  | directive _ _ found _ => exact settled _ _ _ (fine.pure.directives _ _ found).arguments

/-- A new cursor is pure if the hooks of its kind are. -/
theorem DirectiveCursor.pure_new (fine : job.Fine loads good)
    {hook? : DirectiveDefinition σ → Option (DirectiveHook σ)} {directives : List Directive}
    (hooks : ∀ definition hook, definition.Pure loads → hook? definition = some hook →
      DirectiveHook.Pure loads hook)
    (written : ∀ directive ∈ directives, ∃ selection, job.Has selection ∧
      directive ∈ selection.directives) :
    (DirectiveCursor.new job.schema hook? directives).Pure loads job := by
  intro use mem
  obtain ⟨directive, member, made⟩ := List.mem_filterMap.mp mem
  cases found : job.schema.directive? directive.name with
  | none => simp [found] at made
  | some definition =>
      cases has_hook : hook? definition with
      | none => simp [found, has_hook] at made
      | some hook =>
          simp only [found, has_hook, bind, Option.bind, pure, Option.some.injEq] at made
          subst made
          exact ⟨written directive member, found,
            hooks definition hook (fine.pure.directives _ _ found) has_hook⟩

/-- The directives of a field are written in the document. -/
theorem FieldSite.Known.directives {site : FieldSite σ} (known : site.Known job) :
    ∀ directive ∈ site.directives, ∃ selection, job.Has selection ∧
      directive ∈ selection.directives := by
  intro directive mem
  obtain ⟨node, member, written⟩ := List.mem_flatMap.mp mem
  exact ⟨.field node, known.nodes node member, written⟩

theorem FieldSite.Known.selections {site : FieldSite σ} (known : site.Known job) :
    ∀ selection ∈ site.selections, job.Has selection := by
  intro selection mem
  obtain ⟨node, member, written⟩ := List.mem_flatMap.mp mem
  exact .field (known.nodes node member) written

/-! ### Answers -/

theorem Wait.Answers.pure {wait : Wait σ} {resumption : Resumption σ}
    (answers : wait.Answers loads good resumption) : resumption.Pure loads := by
  cases answers with
  | value _ pure => exact pure
  | type _ => trivial
  | authorization _ => trivial
  | directive _ => trivial
  | arguments _ => trivial

theorem DirectiveCursor.Resumed.pure {cursor next : DirectiveCursor σ} {resumption : Resumption σ}
    (resumed : cursor.Resumed resumption next) (pure : cursor.Pure loads job) :
    next.Pure loads job := by
  cases resumed <;> exact pure

theorem FieldStep.Resumed.pure {step next : FieldStep σ} {resumption : Resumption σ}
    (resumed : step.Resumed resumption next) (pure : (Step.field step).Pure loads job)
    (answer : resumption.Pure loads) : (Step.field next).Pure loads job := by
  obtain ⟨known, pure⟩ := pure
  cases resumed with
  | directs state resumed =>
      rw [state] at pure
      exact ⟨known, resumed.pure pure⟩
  | arguments => exact ⟨known, trivial⟩
  | value => exact ⟨known, answer⟩

theorem ItemStep.Resumed.pure {step next : ItemStep σ} {resumption : Resumption σ}
    (resumed : step.Resumed resumption next) (pure : (Step.item step).Pure loads job)
    (answer : resumption.Pure loads) : (Step.item next).Pure loads job := by
  obtain ⟨known, pure⟩ := pure
  cases resumed with
  | directs state resumed =>
      rw [state] at pure
      exact ⟨known, resumed.pure pure.1, pure.2⟩
  | value => exact ⟨known, answer⟩

theorem ObjectStep.Resumed.pure {step next : ObjectStep σ} {resumption : Resumption σ}
    (resumed : step.Resumed resumption next) (pure : step.Pure loads job)
    (answer : resumption.Pure loads) : next.Pure loads job := by
  obtain ⟨target, selections, fine⟩ := pure
  cases resumed with
  | type state | authorization state | arguments state =>
      rw [state] at fine
      exact ⟨target, selections, fine⟩
  | value => exact ⟨target, selections, answer⟩

/-- A step that is resumed with a pure answer is pure. -/
theorem Step.Pure.resume {step next : Step σ} {resumption : Resumption σ}
    (pure : step.Pure loads job) (answer : resumption.Pure loads)
    (resumes : step.resume resumption = .ok next) : next.Pure loads job := by
  cases Step.resumed resumes with
  | field resumed => exact resumed.pure pure answer
  | item resumed => exact resumed.pure pure answer
  | object resumed => exact resumed.pure pure answer

end GraphExec
