import GraphExec.Proofs.Run.Effects
import GraphExec.Proofs.Run.Passes

/-!
# What is asked of the store of bags

A bag of arguments is asked for by a field before its resolver is called, by a directive before its
hook is called, and by a gathering pass for every directive that may leave a node out. All of them
look under the key of what they ask for. What is there is used as it is, and only what is not is
started.
-/

namespace GraphExec

variable {σ : Type}

namespace ArgumentStore

theorem get?_insert (store : ArgumentStore σ) (key other : ArgumentKey) (bag : SharedArguments σ) :
    (store.insert key bag).get? other = if key = other then some bag else store.get? other := by
  induction store with
  | nil => rfl
  | cons entry rest ih =>
      obtain ⟨k, b⟩ := entry
      unfold insert
      by_cases here : k = key
      · subst here
        rw [if_pos rfl]
        unfold get?
        by_cases same : k = other
        · rw [if_pos same, if_pos same]
        · rw [if_neg same, if_neg same, if_neg same]
      · rw [if_neg here]
        unfold get?
        by_cases same : k = other
        · rw [if_pos same, if_pos same, if_neg (fun h => here (same.trans h.symm))]
        · rw [if_neg same, if_neg same]
          exact ih

end ArgumentStore

/-- The code that makes a bag of what is written at a node. -/
def Job.coercion (job : Job σ) (owner : ArgumentOwner) (definitions : Fields (InputDefinition σ))
    (written : List (String × Literal)) : Action σ (Coercion σ) :=
  job.schema.coerceArguments owner definitions
    (Literal.argumentValues job.query.bindings written) job.query

/-- Arguments that are asked for: those written at a node, by definitions, for an object. -/
structure Inquiry (σ : Type) where
  offset : Nat
  owner : ArgumentOwner
  definitions : Fields (InputDefinition σ)
  written : List (String × Literal)
  parent : Identity

namespace Inquiry

def key (inquiry : Inquiry σ) : ArgumentKey :=
  .new inquiry.offset inquiry.owner inquiry.definitions inquiry.parent

def coercion (inquiry : Inquiry σ) (job : Job σ) : Action σ (Coercion σ) :=
  job.coercion inquiry.owner inquiry.definitions inquiry.written

/-- Whether one of the arguments loads an object. -/
def loads (inquiry : Inquiry σ) : Bool := inquiry.definitions.values.any (·.isLoading)

/-- Under one key are the arguments of one node, by the definitions of one owner, and of one object
if they load any. -/
theorem key_eq {one other : Inquiry σ} (same : one.key = other.key) :
    one.offset = other.offset ∧ one.owner = other.owner ∧
      (one.loads = true → one.parent = other.parent) := by
  injection same with offset owner parent
  refine ⟨offset, owner, fun loads => ?_⟩
  unfold Inquiry.loads at loads
  rw [if_pos loads] at parent
  split at parent
  · injection parent
  · cases parent

end Inquiry

/-- What a field asks for. -/
def FieldSite.inquiry (site : FieldSite σ) : Inquiry σ where
  offset := site.group.first.offset
  owner := .field site.typeName site.field.name
  definitions := site.field.arguments
  written := site.group.first.arguments
  parent := site.owner.identity

/-- What a directive asks for, at an object. -/
def Directive.inquiry (directive : Directive) (definition : DirectiveDefinition σ)
    (parent : Identity) : Inquiry σ where
  offset := directive.offset
  owner := .directive definition.name
  definitions := definition.arguments
  written := directive.arguments
  parent := parent

/-- An inquiry at a stage, what is found, and the stage that this leaves. -/
structure Consultation (σ : Type) where
  inquiry : Inquiry σ
  before : Stage σ
  found : Option ArgumentsResult
  after : Stage σ

namespace Consultation

/-- The store is consulted in just this way. -/
def Made (job : Job σ) (c : Consultation σ) : Prop :=
  (Engine.lookUp c.inquiry.key (c.inquiry.coercion job)).Gives c.before c.found c.after

/-- Nothing is under the key, so that a coercion is started. -/
def Starts (c : Consultation σ) : Prop :=
  c.before.run.arguments.get? c.inquiry.key = none

/-- The bag that a coercion would start. -/
def bag (job : Job σ) (c : Consultation σ) : SharedArguments σ :=
  .ofCoercion ((c.inquiry.coercion job).run c.before.world).1

variable {job : Job σ} {c : Consultation σ}

open Engine

/-- What is under the key is left as it is, and so is everything else. -/
theorem Made.hit (made : c.Made job) {bag : SharedArguments σ}
    (there : c.before.run.arguments.get? c.inquiry.key = some bag) :
    c.found = bag.result? ∧ c.after = c.before := by
  obtain ⟨stage, u, got, gives⟩ := gives_bind.mp made
  injection got with same got
  injection same with same
  subst got same
  simp only [there] at gives
  obtain ⟨found, after⟩ := gives_pure.mp gives
  exact ⟨found.symm, after.symm⟩

/-- What is not there is started, once, and put under the key. -/
theorem Made.miss (made : c.Made job) (starts : c.Starts) :
    c.found = (c.bag job).result? ∧
      c.after = ⟨{ c.before.run with
          arguments := c.before.run.arguments.insert c.inquiry.key (c.bag job) },
        ((c.inquiry.coercion job).run c.before.world).2⟩ := by
  have fresh : c.before.run.arguments.get? c.inquiry.key = none := starts
  obtain ⟨stage, u, got, gives⟩ := gives_bind.mp made
  injection got with same got
  injection same with same
  subst got same
  simp only [fresh] at gives
  obtain ⟨coercion, v, called, gives⟩ := gives_bind.mp gives
  obtain ⟨rfl, rfl⟩ := gives_call.mp called
  obtain ⟨_, w, put, gives⟩ := gives_bind.mp gives
  obtain rfl := gives_modifyRun.mp put
  obtain ⟨found, after⟩ := gives_pure.mp gives
  exact ⟨found.symm, after.symm⟩

end Consultation

open Engine

/-- A directive consults the store for its inquiry. -/
theorem Directive.consults {job : Job σ} {directive : Directive}
    {definition : DirectiveDefinition σ} {parent : Identity} {s t : Stage σ}
    {answer : ArgumentKey × Option ArgumentsResult}
    (looked : (directive.lookUp job definition parent).Gives s answer t) :
    Consultation.Made job ⟨directive.inquiry definition parent, s, answer.2, t⟩ ∧
      answer.1 = (directive.inquiry definition parent).key := by
  obtain ⟨found, u, made, gives⟩ := gives_bind.mp looked
  obtain ⟨rfl, rfl⟩ := gives_pure.mp gives
  exact ⟨made, rfl⟩

/-! ### Gathering passes -/

namespace Grouper

/-- What a directive that does not keep its node says, by what the store has for it. -/
def Ends (grouper : Grouper σ) (directive : Directive)
    (keeps : Arguments → QueryContext → Action σ Bool) (c : Consultation σ) (inclusion : Inclusion)
    (t : Stage σ) : Prop :=
  match c.found with
  | none => inclusion = .waiting c.inquiry.key ∧ t = c.after
  | some (.ok arguments) =>
    inclusion = .excluded ∧ (call (keeps arguments grouper.job.query)).Gives c.after false t
  | some (.error wrong) => ∃ error, (grouper.argumentError wrong).Gives c.after error t ∧
      inclusion = .failed (error.attach grouper.path directive.location)

/-- The directives of a node say whether it counts; each that has a guard consults the store, until
one does not keep the node. -/
inductive Hears (grouper : Grouper σ) :
    List Directive → Stage σ → List (Consultation σ) → Inclusion → Stage σ → Prop
  | included (s : Stage σ) : Hears grouper [] s [] .included s
  | other {directive : Directive} {rest : List Directive} {s t : Stage σ}
      {cs : List (Consultation σ)} {inclusion : Inclusion}
      (no_guard : directive.guard? grouper.job = none)
      (behind : Hears grouper rest s cs inclusion t) :
      Hears grouper (directive :: rest) s cs inclusion t
  | kept {directive : Directive} {rest : List Directive} {definition : DirectiveDefinition σ}
      {keeps : Arguments → QueryContext → Action σ Bool} {arguments : Arguments}
      {c : Consultation σ} {t u : Stage σ} {cs : List (Consultation σ)} {inclusion : Inclusion}
      (guard : directive.guard? grouper.job = some (definition, keeps))
      (asks : c.inquiry = directive.inquiry definition grouper.identity)
      (made : c.Made grouper.job) (found : c.found = some (.ok arguments))
      (answered : (call (keeps arguments grouper.job.query)).Gives c.after true u)
      (behind : Hears grouper rest u cs inclusion t) :
      Hears grouper (directive :: rest) c.before (c :: cs) inclusion t
  | ends {directive : Directive} {rest : List Directive} {definition : DirectiveDefinition σ}
      {keeps : Arguments → QueryContext → Action σ Bool} {c : Consultation σ} {t : Stage σ}
      {inclusion : Inclusion} (guard : directive.guard? grouper.job = some (definition, keeps))
      (asks : c.inquiry = directive.inquiry definition grouper.identity)
      (made : c.Made grouper.job) (ends : grouper.Ends directive keeps c inclusion t) :
      Hears grouper (directive :: rest) c.before [c] inclusion t

/-- A pass over selections with the consultations that it makes, and the key that it stops at if
something is waited for. -/
inductive Consults (grouper : Grouper σ) : Fields Fragment → List Selection → Stage σ →
    List (Consultation σ) → Option ArgumentKey → Stage σ → Prop
  | nil (available : Fields Fragment) (s : Stage σ) : Consults grouper available [] s [] none s
  | waits {available : Fields Fragment} {selection : Selection} {rest : List Selection}
      {s t : Stage σ} {cs : List (Consultation σ)} {key : ArgumentKey}
      (hears : grouper.Hears selection.directives s cs (.waiting key) t) :
      Consults grouper available (selection :: rest) s cs (some key) t
  | past {available : Fields Fragment} {selection : Selection} {rest : List Selection}
      {s t u : Stage σ} {cs behind : List (Consultation σ)} {inclusion : Inclusion}
      {stop? : Option ArgumentKey} (hears : grouper.Hears selection.directives s cs inclusion u)
      (complete : ∀ key, inclusion ≠ .waiting key)
      (nothing : inclusion = .included → grouper.inside? available selection = none)
      (after : Consults grouper available rest u behind stop? t) :
      Consults grouper available (selection :: rest) s (cs ++ behind) stop? t
  | enters {available inner : Fields Fragment} {selection : Selection}
      {rest selections : List Selection} {s t u v : Stage σ}
      {cs within behind : List (Consultation σ)} {stop? : Option ArgumentKey}
      (hears : grouper.Hears selection.directives s cs .included u)
      (inside : grouper.inside? available selection = some (inner, selections))
      (passes : Consults grouper inner selections u within none v)
      (after : Consults grouper available rest v behind stop? t) :
      Consults grouper available (selection :: rest) s (cs ++ (within ++ behind)) stop? t
  | stops {available inner : Fields Fragment} {selection : Selection}
      {rest selections : List Selection} {s t u : Stage σ} {cs within : List (Consultation σ)}
      {key : ArgumentKey} (hears : grouper.Hears selection.directives s cs .included u)
      (inside : grouper.inside? available selection = some (inner, selections))
      (passes : Consults grouper inner selections u within (some key) t) :
      Consults grouper available (selection :: rest) s (cs ++ within) (some key) t

/-- Each directive that says something is heard, by a consultation of the store. -/
theorem Says.hears {grouper : Grouper σ} {directives : List Directive} {s t : Stage σ}
    {asked : List Asked} {inclusion : Inclusion}
    (heard : grouper.Says directives s asked inclusion t) :
    ∃ cs, grouper.Hears directives s cs inclusion t := by
  induction heard with
  | included s => exact ⟨[], .included s⟩
  | other no_guard _ ih =>
      obtain ⟨cs, hears⟩ := ih
      exact ⟨cs, .other no_guard hears⟩
  | kept guard looked answered _ ih =>
      obtain ⟨cs, hears⟩ := ih
      obtain ⟨made, -⟩ := Directive.consults looked
      exact ⟨_, .kept guard rfl made rfl answered hears⟩
  | excluded guard looked answered =>
      obtain ⟨made, -⟩ := Directive.consults looked
      exact ⟨_, .ends guard rfl made ⟨rfl, answered⟩⟩
  | failed guard looked told =>
      obtain ⟨made, -⟩ := Directive.consults looked
      exact ⟨_, .ends guard rfl made ⟨_, told, rfl⟩⟩
  | waiting guard looked =>
      obtain ⟨made, key⟩ := Directive.consults looked
      exact ⟨_, .ends guard rfl made ⟨congrArg Inclusion.waiting key, rfl⟩⟩

/-- The directives of a node are heard in turn. -/
theorem hears_of_inclusion {grouper : Grouper σ} {directives : List Directive} {s t : Stage σ}
    {inclusion : Inclusion} (gives : (grouper.inclusion directives).Gives s inclusion t) :
    ∃ cs, grouper.Hears directives s cs inclusion t := by
  obtain ⟨asked, heard⟩ := says_of_inclusion gives
  exact heard.hears

end Grouper

/-- The key that a grouping waits for. -/
def GroupingResult.stop? : GroupingResult → Option ArgumentKey
  | complete _ => none
  | waiting key => some key

namespace Grouper

variable {grouper : Grouper σ}

/-- Every pass makes its consultations in turn. -/
theorem consults_of_groupFrom (available : Fields Fragment) (selections : List Selection) :
    ∀ {found : Grouping} {result : GroupingResult} {s t : Stage σ},
      (grouper.groupFrom available selections found).Gives s result t →
      ∃ cs, grouper.Consults available selections s cs result.stop? t := by
  induction available, selections using grouper.descent with
  | nil available =>
      intro found result s t h
      rw [groupFrom_nil] at h
      obtain ⟨rfl, rfl⟩ := gives_pure.mp h
      exact ⟨[], .nil available _⟩
  | cons available selection rest tail inside =>
      intro found result s t gives
      obtain ⟨inclusion, u, next, included, goes_on, h⟩ := gives_cons gives
      obtain ⟨cs, hears⟩ := hears_of_inclusion included
      cases goes_on with
      | waiting key =>
          obtain ⟨rfl, rfl⟩ := gives_pure.mp h
          exact ⟨cs, .waits hears⟩
      | failed error | excluded =>
          obtain ⟨behind, after⟩ := tail h
          exact ⟨cs ++ behind, .past hears nofun nofun after⟩
      | field node same =>
          obtain ⟨behind, after⟩ := tail h
          exact ⟨cs ++ behind, .past hears nofun (fun _ => same ▸ rfl) after⟩
      | past _ nothing =>
          obtain ⟨behind, after⟩ := tail h
          exact ⟨cs ++ behind, .past hears nofun (fun _ => nothing) after⟩
      | enters inner selections within =>
          rcases gives_onward h with ⟨key, rfl, first⟩ | ⟨middle, v, first, h⟩
          · obtain ⟨front, passes⟩ := inside inner selections within first
            exact ⟨cs ++ front, .stops hears within passes⟩
          · obtain ⟨front, passes⟩ := inside inner selections within first
            obtain ⟨behind, after⟩ := tail h
            exact ⟨cs ++ (front ++ behind), .enters hears within passes after⟩

end Grouper

end GraphExec
