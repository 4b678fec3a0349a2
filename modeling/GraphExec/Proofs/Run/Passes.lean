import GraphExec.Proofs.Run.Grouping

/-!
# What a gathering pass meets

A pass over the selections of an object asks the include directives of the nodes that it meets, one
after another, until one does not keep its node. A pass that is complete has as its errors just those
of the directives that failed, in the order in which they were asked.
-/

namespace GraphExec

variable {σ : Type}

/-- A directive that was asked, with the error of the response if it failed. -/
abbrev Asked := Directive × Option ExecutionError

/-- The hook that says whether a node counts, for directives that have one. -/
def Directive.guard? (directive : Directive) (job : Job σ) :
    Option (DirectiveDefinition σ × (Arguments → QueryContext → Action σ Bool)) :=
  (job.schema.directive? directive.name).bind fun definition =>
    definition.include?.map fun keeps => (definition, keeps)

theorem Directive.guard?_eq_some {directive : Directive} {job : Job σ}
    {definition : DirectiveDefinition σ} {keeps : Arguments → QueryContext → Action σ Bool} :
    directive.guard? job = some (definition, keeps) ↔
      job.schema.directive? directive.name = some definition ∧
        definition.include? = some keeps := by
  simp only [guard?, Option.bind_eq_some_iff, Option.map_eq_some_iff, Prod.mk.injEq]
  constructor
  · rintro ⟨other, known, hook, has, rfl, rfl⟩
    exact ⟨known, has⟩
  · rintro ⟨known, has⟩
    exact ⟨definition, known, keeps, has, rfl, rfl⟩

theorem Directive.guard?_eq_none {directive : Directive} {job : Job σ} :
    directive.guard? job = none ↔ ∀ definition,
      job.schema.directive? directive.name = some definition → definition.include? = none := by
  simp only [guard?, Option.bind_eq_none_iff, Option.map_eq_none_iff]

/-- The error of a node whose directives fail. -/
def Inclusion.error? : Inclusion → Option ExecutionError
  | failed error => some error
  | _ => none

namespace Grouper

section
variable {grouper : Grouper σ} {directive : Directive}

/-- A directive without a guard says nothing. -/
theorem inclusion_unguarded (no_guard : directive.guard? grouper.job = none)
    (rest : List Directive) : grouper.inclusion (directive :: rest) = grouper.inclusion rest := by
  rw [inclusion]
  cases found : grouper.job.schema.directive? directive.name with
  | none => rfl
  | some definition => simp only [Directive.guard?_eq_none.mp no_guard definition found]

/-- What a directive with a guard says, by what the store has for it. -/
def heed (grouper : Grouper σ) (directive : Directive)
    (keeps : Arguments → QueryContext → Action σ Bool) (rest : List Directive) :
    ArgumentKey × Option ArgumentsResult → Engine σ Inclusion
  | (key, none) => return .waiting key
  | (_, some (.ok arguments)) => do
    if ← Engine.call (keeps arguments grouper.job.query) then grouper.inclusion rest
    else return .excluded
  | (_, some (.error error)) => do
    let error ← grouper.argumentError error
    return .failed (error.attach grouper.path directive.location)

theorem inclusion_guarded {definition : DirectiveDefinition σ}
    {keeps : Arguments → QueryContext → Action σ Bool}
    (guard : directive.guard? grouper.job = some (definition, keeps)) (rest : List Directive) :
    grouper.inclusion (directive :: rest) =
      directive.lookUp grouper.job definition grouper.identity >>=
        grouper.heed directive keeps rest := by
  obtain ⟨found, has⟩ := Directive.guard?_eq_some.mp guard
  rw [inclusion]
  simp only [found, has]
  rfl

end

/-- What the directives of a node say, each asked in turn. -/
inductive Says (grouper : Grouper σ) :
    List Directive → Stage σ → List Asked → Inclusion → Stage σ → Prop
  | included (s : Stage σ) : Says grouper [] s [] .included s
  | other {directive : Directive} {rest : List Directive} {s t : Stage σ} {asked : List Asked}
      {inclusion : Inclusion} (no_guard : directive.guard? grouper.job = none)
      (behind : Says grouper rest s asked inclusion t) :
      Says grouper (directive :: rest) s asked inclusion t
  | kept {directive : Directive} {rest : List Directive} {definition : DirectiveDefinition σ}
      {keeps : Arguments → QueryContext → Action σ Bool} {arguments : Arguments}
      {key : ArgumentKey} {s t u v : Stage σ} {asked : List Asked} {inclusion : Inclusion}
      (guard : directive.guard? grouper.job = some (definition, keeps))
      (looked : (directive.lookUp grouper.job definition grouper.identity).Gives s
        (key, some (.ok arguments)) u)
      (answered : (Engine.call (keeps arguments grouper.job.query)).Gives u true v)
      (behind : Says grouper rest v asked inclusion t) :
      Says grouper (directive :: rest) s ((directive, none) :: asked) inclusion t
  | excluded {directive : Directive} {rest : List Directive} {definition : DirectiveDefinition σ}
      {keeps : Arguments → QueryContext → Action σ Bool} {arguments : Arguments}
      {key : ArgumentKey} {s t u : Stage σ}
      (guard : directive.guard? grouper.job = some (definition, keeps))
      (looked : (directive.lookUp grouper.job definition grouper.identity).Gives s
        (key, some (.ok arguments)) u)
      (answered : (Engine.call (keeps arguments grouper.job.query)).Gives u false t) :
      Says grouper (directive :: rest) s [(directive, none)] .excluded t
  | failed {directive : Directive} {rest : List Directive} {definition : DirectiveDefinition σ}
      {keeps : Arguments → QueryContext → Action σ Bool} {wrong : ArgumentError}
      {error : ExecutionError} {key : ArgumentKey} {s t u : Stage σ}
      (guard : directive.guard? grouper.job = some (definition, keeps))
      (looked : (directive.lookUp grouper.job definition grouper.identity).Gives s
        (key, some (.error wrong)) u)
      (told : (grouper.argumentError wrong).Gives u error t) :
      Says grouper (directive :: rest) s
        [(directive, some (error.attach grouper.path directive.location))]
        (.failed (error.attach grouper.path directive.location)) t
  | waiting {directive : Directive} {rest : List Directive} {definition : DirectiveDefinition σ}
      {keeps : Arguments → QueryContext → Action σ Bool} {key : ArgumentKey} {s t : Stage σ}
      (guard : directive.guard? grouper.job = some (definition, keeps))
      (looked : (directive.lookUp grouper.job definition grouper.identity).Gives s (key, none) t) :
      Says grouper (directive :: rest) s [] (.waiting key) t

/-- A pass over selections, with the directives that it asks. -/
inductive Passes (grouper : Grouper σ) :
    Fields Fragment → List Selection → Stage σ → List Asked → Stage σ → Prop
  | nil (available : Fields Fragment) (s : Stage σ) : Passes grouper available [] s [] s
  | left {available : Fields Fragment} {selection : Selection} {rest : List Selection}
      {s t u : Stage σ} {asked behind : List Asked} {inclusion : Inclusion}
      (heard : grouper.Says selection.directives s asked inclusion u)
      (out : inclusion.counts = false) (complete : ∀ key, inclusion ≠ .waiting key)
      (after : Passes grouper available rest u behind t) :
      Passes grouper available (selection :: rest) s (asked ++ behind) t
  | field {available : Fields Fragment} {node : FieldNode} {rest : List Selection}
      {s t u : Stage σ} {asked behind : List Asked}
      (heard : grouper.Says (Selection.field node).directives s asked .included u)
      (after : Passes grouper available rest u behind t) :
      Passes grouper available (.field node :: rest) s (asked ++ behind) t
  | inline {available : Fields Fragment} {condition : Option String} {directives : List Directive}
      {inner rest : List Selection} {s t u v : Stage σ} {asked within behind : List Asked}
      (heard : grouper.Says directives s asked .included u)
      (satisfied : grouper.satisfies condition = true)
      (inside : Passes grouper available inner u within v)
      (after : Passes grouper available rest v behind t) :
      Passes grouper available (.inline condition directives inner :: rest) s
        (asked ++ (within ++ behind)) t
  | missed {available : Fields Fragment} {condition : Option String} {directives : List Directive}
      {inner rest : List Selection} {s t u : Stage σ} {asked behind : List Asked}
      (heard : grouper.Says directives s asked .included u)
      (missed : grouper.satisfies condition = false)
      (after : Passes grouper available rest u behind t) :
      Passes grouper available (.inline condition directives inner :: rest) s (asked ++ behind) t
  | spread {available : Fields Fragment} {name : String} {directives : List Directive}
      {fragment : Fragment} {rest : List Selection} {s t u v : Stage σ}
      {asked within behind : List Asked} (heard : grouper.Says directives s asked .included u)
      (known : Fields.get? available name = some fragment)
      (satisfied : grouper.satisfies (some fragment.condition) = true)
      (inside : Passes grouper (Fields.erase available name) fragment.selections u within v)
      (after : Passes grouper available rest v behind t) :
      Passes grouper available (.spread name directives :: rest) s (asked ++ (within ++ behind)) t
  | unspread {available : Fields Fragment} {name : String} {directives : List Directive}
      {rest : List Selection} {s t u : Stage σ} {asked behind : List Asked}
      (heard : grouper.Says directives s asked .included u)
      (missed : ∀ fragment, Fields.get? available name = some fragment →
        grouper.satisfies (some fragment.condition) = false)
      (after : Passes grouper available rest u behind t) :
      Passes grouper available (.spread name directives :: rest) s (asked ++ behind) t

/-- The directives of a node fail as one of them does. -/
theorem Says.errors {grouper : Grouper σ} {directives : List Directive} {s t : Stage σ}
    {asked : List Asked} {inclusion : Inclusion}
    (heard : grouper.Says directives s asked inclusion t) :
    asked.filterMap (·.2) = inclusion.error?.toList := by
  induction heard with
  | included s => rfl
  | other _ _ ih => exact ih
  | kept _ _ _ _ ih => exact ih
  | excluded _ _ _ => rfl
  | failed _ _ _ => rfl
  | waiting _ _ => rfl

open Engine

/-- Whatever the directives of a node say has been asked of them in turn. -/
theorem says_of_inclusion {grouper : Grouper σ} {directives : List Directive} :
    ∀ {s t : Stage σ} {inclusion : Inclusion}, (grouper.inclusion directives).Gives s inclusion t →
      ∃ asked, grouper.Says directives s asked inclusion t := by
  induction directives with
  | nil =>
      intro s t inclusion h
      obtain ⟨rfl, rfl⟩ := gives_pure.mp h
      exact ⟨[], .included s⟩
  | cons directive rest ih =>
      intro s t inclusion h
      cases guard : directive.guard? grouper.job with
      | none =>
          rw [inclusion_unguarded guard] at h
          obtain ⟨asked, heard⟩ := ih h
          exact ⟨asked, .other guard heard⟩
      | some hook =>
          obtain ⟨definition, keeps⟩ := hook
          rw [inclusion_guarded guard] at h
          obtain ⟨⟨key, answer⟩, u, looked, h⟩ := gives_bind.mp h
          rcases answer with - | ⟨wrong | arguments⟩
          · obtain ⟨rfl, rfl⟩ := gives_pure.mp h
            exact ⟨_, .waiting guard looked⟩
          · obtain ⟨error, v, told, h⟩ := gives_bind.mp h
            obtain ⟨rfl, rfl⟩ := gives_pure.mp h
            exact ⟨_, .failed guard looked told⟩
          · obtain ⟨counts, v, answered, h⟩ := gives_bind.mp h
            cases counts with
            | true =>
                obtain ⟨asked, heard⟩ := ih h
                exact ⟨_, .kept guard looked answered heard⟩
            | false =>
                obtain ⟨rfl, rfl⟩ := gives_pure.mp h
                exact ⟨_, .excluded guard looked answered⟩

/-- A pass goes on with what is inside a node that counts. -/
theorem Passes.enters {grouper : Grouper σ} {available inner : Fields Fragment}
    {selection : Selection} {rest selections : List Selection} {s t u v : Stage σ}
    {asked within behind : List Asked}
    (heard : grouper.Says selection.directives s asked .included u)
    (inside : grouper.inside? available selection = some (inner, selections))
    (below : grouper.Passes inner selections u within v)
    (after : grouper.Passes available rest v behind t) :
    grouper.Passes available (selection :: rest) s (asked ++ (within ++ behind)) t := by
  rcases inside_cases inside with ⟨condition, directives, rfl, satisfied, rfl⟩ |
    ⟨name, directives, fragment, rfl, known, satisfied, rfl, rfl⟩
  · exact .inline heard satisfied below after
  · exact .spread heard known satisfied below after

/-- A pass leaves a fragment that nothing is inside of. -/
theorem Passes.past {grouper : Grouper σ} {available : Fields Fragment} {selection : Selection}
    {rest : List Selection} {s t u : Stage σ} {asked behind : List Asked}
    (heard : grouper.Says selection.directives s asked .included u)
    (no_field : ∀ node, selection ≠ .field node)
    (nothing : grouper.inside? available selection = none)
    (after : grouper.Passes available rest u behind t) :
    grouper.Passes available (selection :: rest) s (asked ++ behind) t := by
  rcases nothing_inside nothing no_field with ⟨condition, directives, within, rfl, missed⟩ |
    ⟨name, directives, rfl, missed⟩
  · exact .missed heard missed after
  · exact .unspread heard missed after

/-- A pass that is complete has the errors of the directives that it asked. -/
theorem passes_of_groupFrom {grouper : Grouper σ} (available : Fields Fragment)
    (selections : List Selection) :
    ∀ {found result : Grouping} {s t : Stage σ},
      (grouper.groupFrom available selections found).Gives s (.complete result) t →
      ∃ asked, grouper.Passes available selections s asked t ∧
        result.errors = found.errors ++ asked.filterMap (·.2) := by
  induction available, selections using grouper.descent with
  | nil available =>
      intro found result s t h
      rw [groupFrom_nil] at h
      obtain ⟨same, rfl⟩ := gives_pure.mp h
      injection same with same
      exact ⟨[], .nil available _, by rw [← same]; simp⟩
  | cons available selection rest tail inside =>
      intro found result s t gives
      obtain ⟨inclusion, u, next, included, goes_on, h⟩ := gives_cons gives
      obtain ⟨asked, heard⟩ := says_of_inclusion included
      have errors : ∀ more : List Asked, (asked ++ more).filterMap (·.2) =
          inclusion.error?.toList ++ more.filterMap (·.2) := fun more => by
        rw [List.filterMap_append, heard.errors]
      cases goes_on with
      | waiting key =>
          obtain ⟨same, -⟩ := gives_pure.mp h
          cases same
      | failed error =>
          obtain ⟨behind, after, told⟩ := tail h
          refine ⟨asked ++ behind, .left heard rfl nofun after, ?_⟩
          rw [told, errors]
          simp [Grouping.report, Inclusion.error?]
      | excluded =>
          obtain ⟨behind, after, told⟩ := tail h
          exact ⟨asked ++ behind, .left heard rfl nofun after, by rw [told, errors]; rfl⟩
      | field node same =>
          subst same
          obtain ⟨behind, after, told⟩ := tail h
          exact ⟨asked ++ behind, .field heard after, by rw [told, errors]; rfl⟩
      | past no_field nothing =>
          obtain ⟨behind, after, told⟩ := tail h
          exact ⟨asked ++ behind, .past heard no_field nothing after, by rw [told, errors]; rfl⟩
      | enters inner selections within =>
          rcases gives_onward h with ⟨key, wrong, -⟩ | ⟨middle, v, grouped, h⟩
          · cases wrong
          · obtain ⟨front, below, first⟩ := inside inner selections within grouped
            obtain ⟨behind, after, told⟩ := tail h
            refine ⟨asked ++ (front ++ behind), .enters heard within below after, ?_⟩
            rw [told, first, errors, List.filterMap_append, List.append_assoc]
            rfl

/-- The errors of a complete grouping are those of the directives that failed. -/
theorem passes_of_group {grouper : Grouper σ} {selections : List Selection} {grouping : Grouping}
    {s t : Stage σ} (h : (grouper.group selections).Gives s (.complete grouping) t) :
    ∃ asked, grouper.Passes grouper.job.fragments selections s asked t ∧
      grouping.errors = asked.filterMap (·.2) := by
  obtain ⟨asked, passes, errors⟩ := passes_of_groupFrom _ _ h
  exact ⟨asked, passes, errors⟩

end Grouper

end GraphExec
