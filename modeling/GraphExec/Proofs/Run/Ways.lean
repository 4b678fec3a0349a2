import GraphExec.Proofs.Draft.Tree
import GraphExec.Proofs.Engine
import GraphExec.Proofs.Success
import GraphExec.Run.Schedule

/-!
# The ways of a transition

A transition goes one of a few ways, according to the state that it starts from and to what it is
answered. Each of them is told here once: what was asked, what the transition comes to, and the
stage that it leaves. Whatever else is said of transitions is said way by way.
-/

namespace GraphExec

variable {σ : Type} {job : Job σ} {s t : Stage σ}

open Engine

/-! ### Directives -/

namespace DirectiveCursor

/-- The ways of a cursor. -/
inductive Way (job : Job σ) (owner : Subject) (path : Path) :
    DirectiveCursor σ → Stage σ → CursorProgress σ → Stage σ → Prop
  | passes {stage : DirectiveStage} {s : Stage σ} : Way job owner path ⟨[], stage⟩ s .passed s
  | finds {use : DirectiveUse σ} {rest : List (DirectiveUse σ)} {key : ArgumentKey}
      {result : ArgumentsResult} {s t : Stage σ}
      (looked : (use.directive.lookUp job use.definition owner.identity).Gives s
        (key, some result) t) :
      Way job owner path ⟨use :: rest, .unstarted⟩ s (.again ⟨use :: rest, .called result⟩) t
  | asks {use : DirectiveUse σ} {rest : List (DirectiveUse σ)} {key : ArgumentKey} {s t : Stage σ}
      (looked : (use.directive.lookUp job use.definition owner.identity).Gives s (key, none) t) :
      Way job owner path ⟨use :: rest, .unstarted⟩ s
        (.waiting ⟨use :: rest, .awaitingArguments⟩ (.arguments key)) t
  | fails {use : DirectiveUse σ} {rest : List (DirectiveUse σ)} {error : ArgumentError}
      {s : Stage σ} :
      Way job owner path ⟨use :: rest, .called (.error error)⟩ s (.stopped error.outcome) s
  | answers {use : DirectiveUse σ} {rest : List (DirectiveUse σ)} {arguments : Arguments}
      {flow : DirectiveFlow} {s t : Stage σ}
      (answered : (call (use.hook ⟨arguments, owner.value, path, job.query⟩)).Gives s
        (.ok (.ready flow)) t) :
      Way job owner path ⟨use :: rest, .called (.ok arguments)⟩ s
        (.again ⟨use :: rest, .answered (.ok flow)⟩) t
  | waits {use : DirectiveUse σ} {rest : List (DirectiveUse σ)} {arguments : Arguments}
      {lazy : Lazy σ (Except ResolverError DirectiveFlow)} {s t : Stage σ}
      (answered : (call (use.hook ⟨arguments, owner.value, path, job.query⟩)).Gives s
        (.ok (.later lazy)) t) :
      Way job owner path ⟨use :: rest, .called (.ok arguments)⟩ s
        (.waiting ⟨use :: rest, .awaitingAnswer⟩ (.directive (.start lazy))) t
  | raises {use : DirectiveUse σ} {rest : List (DirectiveUse σ)} {arguments : Arguments}
      {error : ExecutionError} {s t : Stage σ}
      (answered : (call (use.hook ⟨arguments, owner.value, path, job.query⟩)).Gives s
        (.error error) t) :
      Way job owner path ⟨use :: rest, .called (.ok arguments)⟩ s
        (.again ⟨use :: rest, .answered (.error (.execution error))⟩) t
  | proceeds {use : DirectiveUse σ} {rest : List (DirectiveUse σ)} {s : Stage σ} :
      Way job owner path ⟨use :: rest, .answered (.ok .proceed)⟩ s (.again (.next rest)) s
  | skips {use : DirectiveUse σ} {rest : List (DirectiveUse σ)} {s : Stage σ} :
      Way job owner path ⟨use :: rest, .answered (.ok .skip)⟩ s .skipped s
  | stops {use : DirectiveUse σ} {rest : List (DirectiveUse σ)} {error : ResolverError}
      {s : Stage σ} :
      Way job owner path ⟨use :: rest, .answered (.error error)⟩ s (.stopped (.error error)) s

theorem way {cursor : DirectiveCursor σ} {owner : Subject} {path : Path}
    {progress : CursorProgress σ} (gives : (cursor.advance job owner path).Gives s progress t) :
    cursor.Way job owner path s progress t := by
  obtain ⟨uses, stage⟩ := cursor
  cases uses with
  | nil =>
      obtain ⟨rfl, rfl⟩ := gives_pure.mp gives
      exact .passes
  | cons use rest =>
      cases stage with
      | unstarted =>
          obtain ⟨⟨key, found⟩, u, looked, gives⟩ := gives_bind.mp gives
          cases found with
          | some result =>
              obtain ⟨rfl, rfl⟩ := gives_pure.mp gives
              exact .finds looked
          | none =>
              obtain ⟨rfl, rfl⟩ := gives_pure.mp gives
              exact .asks looked
      | called result =>
          cases result with
          | error error =>
              obtain ⟨rfl, rfl⟩ := gives_pure.mp gives
              exact .fails
          | ok arguments =>
              obtain ⟨answer, u, answered, gives⟩ := gives_bind.mp gives
              split at gives <;> obtain ⟨rfl, rfl⟩ := gives_pure.mp gives
              · exact .answers answered
              · exact .waits answered
              · exact .raises answered
      | answered flow =>
          cases flow with
          | error error =>
              obtain ⟨rfl, rfl⟩ := gives_pure.mp gives
              exact .stops
          | ok flow =>
              cases flow <;> obtain ⟨rfl, rfl⟩ := gives_pure.mp gives
              · exact .proceeds
              · exact .skips
      | awaitingArguments => exact absurd gives not_gives_throw
      | awaitingAnswer => exact absurd gives not_gives_throw

end DirectiveCursor

/-! ### Fields -/

namespace FieldStep

variable {step : FieldStep σ} {progress : Progress σ}

/-- What the directives of a field come to. -/
abbrev Directs (job : Job σ) (step : FieldStep σ) (cursor : DirectiveCursor σ) (s : Stage σ)
    (answer : CursorProgress σ) (t : Stage σ) : Prop :=
  (cursor.advance job step.site.owner (step.position.path s.run.draft)).Gives s answer t

/-- The value that the result of a field stands for. -/
abbrev Settles (job : Job σ) (step : FieldStep σ) (result : FieldResult σ) (s : Stage σ)
    (value : ResolvedValue σ) (t : Stage σ) : Prop :=
  (settle job (step.position.path s.run.draft) result).Gives s value t

/-- The step waits in a state. -/
def parkedAt (step : FieldStep σ) (state : FieldState σ) (wait : Wait σ) (t : Stage σ) :
    Progress σ :=
  .parked (.field { step with state }) (t.run.draft.depth step.parent + 1) wait

/-- The ways of a field whose object is alive. -/
inductive Way (job : Job σ) (step : FieldStep σ) (s : Stage σ) : Progress σ → Stage σ → Prop
  | directs {cursor next : DirectiveCursor σ} {t : Stage σ}
      (state : step.state = .runDirectives cursor)
      (directed : step.Directs job cursor s (.again next) t) :
      Way job step s (step.goTo (.runDirectives next)) t
  | passes {cursor : DirectiveCursor σ} {t : Stage σ} (state : step.state = .runDirectives cursor)
      (directed : step.Directs job cursor s .passed t) : Way job step s (step.goTo .loadArguments) t
  | skips {cursor : DirectiveCursor σ} {u t : Stage σ} (state : step.state = .runDirectives cursor)
      (directed : step.Directs job cursor s .skipped u) (skipped : step.position.skip.Gives u () t) :
      Way job step s .finished t
  | stops {cursor : DirectiveCursor σ} {result : FieldResult σ} {t : Stage σ}
      (state : step.state = .runDirectives cursor)
      (directed : step.Directs job cursor s (.stopped result) t) :
      Way job step s (step.goTo (.resolved result)) t
  | awaits {cursor next : DirectiveCursor σ} {wait : Wait σ} {t : Stage σ}
      (state : step.state = .runDirectives cursor)
      (directed : step.Directs job cursor s (.waiting next wait) t) :
      Way job step s (step.parkedAt (.runDirectives next) wait t) t
  | finds {result : ArgumentsResult} {t : Stage σ} (state : step.state = .loadArguments)
      (looked : (step.site.lookUpArguments job).Gives s (some result) t) :
      Way job step s (step.goTo (.argumentsLoaded result)) t
  | asks {t : Stage σ} (state : step.state = .loadArguments)
      (looked : (step.site.lookUpArguments job).Gives s none t) :
      Way job step s (step.parkedAt .awaitingArguments (.arguments step.site.argumentKey) t) t
  | takes {arguments : Arguments} (state : step.state = .argumentsLoaded (.ok arguments)) :
      Way job step s (step.goTo (.callResolver arguments)) s
  | fails {error : ArgumentError} (state : step.state = .argumentsLoaded (.error error)) :
      Way job step s (step.goTo (.resolved error.outcome)) s
  | resolves {arguments : Arguments} {result : FieldResult σ} {t : Stage σ}
      (state : step.state = .callResolver arguments)
      (resolved : (step.site.resolve job step.parent (step.position.path s.run.draft)
        arguments).Gives s result t) :
      Way job step s (step.goTo (.resolved result)) t
  | completes {result : FieldResult σ} {value : ResolvedValue σ} {u t : Stage σ}
      (state : step.state = .resolved result) (settled : step.Settles job result s value u)
      (completed : (step.position.complete job value).Gives u .done t) :
      Way job step s .finished t
  | waits {result : FieldResult σ} {value : ResolvedValue σ} {later : Lazy σ (FieldResult σ)}
      {u t : Stage σ} (state : step.state = .resolved result)
      (settled : step.Settles job result s value u)
      (completed : (step.position.complete job value).Gives u (.waiting later) t) :
      Way job step s (step.parkedAt .awaitingValue (.value (.start later)) t) t
  | replaces {result : FieldResult σ} {value replacement : ResolvedValue σ} {u t : Stage σ}
      (state : step.state = .resolved result) (settled : step.Settles job result s value u)
      (completed : (step.position.complete job value).Gives u (.replaced replacement) t) :
      Way job step s (step.goTo (.resolved (.ok replacement))) t

theorem gives_park {state : FieldState σ} {wait : Wait σ}
    (gives : (step.park state wait).Gives s progress t) :
    step.parkedAt state wait s = progress ∧ s = t := by
  obtain ⟨_, _, got, gives⟩ := gives_bind.mp gives
  obtain ⟨rfl, rfl⟩ := gives_draft.mp got
  exact gives_pure.mp gives

theorem way (gives : (step.advanceAlive job).Gives s progress t) : step.Way job s progress t := by
  unfold advanceAlive at gives
  obtain ⟨_, _, got, gives⟩ := gives_bind.mp gives
  obtain ⟨rfl, rfl⟩ := gives_draft.mp got
  simp only at gives
  split at gives
  · rename_i cursor state
    obtain ⟨answer, u, directed, gives⟩ := gives_bind.mp gives
    cases answer with
    | again next =>
        obtain ⟨rfl, rfl⟩ := gives_pure.mp gives
        exact .directs state directed
    | passed =>
        obtain ⟨rfl, rfl⟩ := gives_pure.mp gives
        exact .passes state directed
    | skipped =>
        obtain ⟨_, v, skipped, gives⟩ := gives_bind.mp gives
        obtain ⟨rfl, rfl⟩ := gives_pure.mp gives
        exact .skips state directed skipped
    | stopped result =>
        obtain ⟨rfl, rfl⟩ := gives_pure.mp gives
        exact .stops state directed
    | waiting next wait =>
        obtain ⟨rfl, rfl⟩ := gives_park gives
        exact .awaits state directed
  · rename_i state
    obtain ⟨found, u, looked, gives⟩ := gives_bind.mp gives
    cases found with
    | some result =>
        obtain ⟨rfl, rfl⟩ := gives_pure.mp gives
        exact .finds state looked
    | none =>
        obtain ⟨rfl, rfl⟩ := gives_park gives
        exact .asks state looked
  · rename_i arguments state
    obtain ⟨rfl, rfl⟩ := gives_pure.mp gives
    exact .takes state
  · rename_i error state
    obtain ⟨rfl, rfl⟩ := gives_pure.mp gives
    exact .fails state
  · rename_i arguments state
    obtain ⟨result, u, resolved, gives⟩ := gives_bind.mp gives
    obtain ⟨rfl, rfl⟩ := gives_pure.mp gives
    exact .resolves state resolved
  · rename_i result state
    obtain ⟨value, u, settled, gives⟩ := gives_bind.mp gives
    obtain ⟨completion, v, completed, gives⟩ := gives_bind.mp gives
    cases completion with
    | done =>
        obtain ⟨rfl, rfl⟩ := gives_pure.mp gives
        exact .completes state settled completed
    | waiting later =>
        obtain ⟨rfl, rfl⟩ := gives_park gives
        exact .waits state settled completed
    | replaced replacement =>
        obtain ⟨rfl, rfl⟩ := gives_pure.mp gives
        exact .replaces state settled completed
  · exact absurd gives not_gives_throw
  · exact absurd gives not_gives_throw

end FieldStep

/-! ### Items -/

namespace ItemStep

variable {step : ItemStep σ} {progress : Progress σ}

/-- What the directives of an item come to. -/
abbrev Directs (job : Job σ) (step : ItemStep σ) (cursor : DirectiveCursor σ) (s : Stage σ)
    (answer : CursorProgress σ) (t : Stage σ) : Prop :=
  (cursor.advance job step.position.site.owner (step.position.path s.run.draft)).Gives s answer t

/-- The step waits in a state. -/
def parkedAt (step : ItemStep σ) (state : ItemState σ) (wait : Wait σ) (t : Stage σ) :
    Progress σ :=
  .parked (.item { step with state }) (t.run.draft.depth step.position.parent + 1) wait

/-- The ways of an item whose list is alive. -/
inductive Way (job : Job σ) (step : ItemStep σ) (s : Stage σ) : Progress σ → Stage σ → Prop
  | directs {cursor next : DirectiveCursor σ} {item : ResolvedValue σ} {t : Stage σ}
      (state : step.state = .runDirectives cursor item)
      (directed : step.Directs job cursor s (.again next) t) :
      Way job step s (step.goTo (.runDirectives next item)) t
  | passes {cursor : DirectiveCursor σ} {item : ResolvedValue σ} {t : Stage σ}
      (state : step.state = .runDirectives cursor item)
      (directed : step.Directs job cursor s .passed t) :
      Way job step s (step.goTo (.resolved (.ok item))) t
  | skips {cursor : DirectiveCursor σ} {item : ResolvedValue σ} {u t : Stage σ}
      (state : step.state = .runDirectives cursor item)
      (directed : step.Directs job cursor s .skipped u) (skipped : step.position.skip.Gives u () t) :
      Way job step s .finished t
  | stops {cursor : DirectiveCursor σ} {item : ResolvedValue σ} {result : FieldResult σ}
      {t : Stage σ} (state : step.state = .runDirectives cursor item)
      (directed : step.Directs job cursor s (.stopped result) t) :
      Way job step s (step.goTo (.resolved result)) t
  | awaits {cursor next : DirectiveCursor σ} {item : ResolvedValue σ} {wait : Wait σ} {t : Stage σ}
      (state : step.state = .runDirectives cursor item)
      (directed : step.Directs job cursor s (.waiting next wait) t) :
      Way job step s (step.parkedAt (.runDirectives next item) wait t) t
  | waits {result : FieldResult σ} {later : Lazy σ (FieldResult σ)} {t : Stage σ}
      (state : step.state = .resolved result)
      (settled : (settle job (step.position.path s.run.draft) result).Gives s (.lazy later) t) :
      Way job step s (step.parkedAt .awaitingValue (.value (.start later)) t) t
  | settles {result : FieldResult σ} {value : ResolvedValue σ} {t : Stage σ}
      (state : step.state = .resolved result)
      (settled : (settle job (step.position.path s.run.draft) result).Gives s value t)
      (no_lazy : ∀ later, value ≠ .lazy later) : Way job step s (step.goTo (.settled value)) t
  | completes {value : ResolvedValue σ} {t : Stage σ} (state : step.state = .settled value)
      (completed : (step.position.complete job value).Gives s .done t) :
      Way job step s .finished t
  | defers {value : ResolvedValue σ} {later : Lazy σ (FieldResult σ)} {t : Stage σ}
      (state : step.state = .settled value)
      (completed : (step.position.complete job value).Gives s (.waiting later) t) :
      Way job step s (step.parkedAt .awaitingValue (.value (.start later)) t) t
  | replaces {value replacement : ResolvedValue σ} {t : Stage σ}
      (state : step.state = .settled value)
      (completed : (step.position.complete job value).Gives s (.replaced replacement) t) :
      Way job step s (step.goTo (.settled replacement)) t

theorem gives_park {state : ItemState σ} {wait : Wait σ}
    (gives : (step.park state wait).Gives s progress t) :
    step.parkedAt state wait s = progress ∧ s = t := by
  obtain ⟨_, _, got, gives⟩ := gives_bind.mp gives
  obtain ⟨rfl, rfl⟩ := gives_draft.mp got
  exact gives_pure.mp gives

theorem way (gives : (step.advanceAlive job).Gives s progress t) : step.Way job s progress t := by
  unfold advanceAlive at gives
  obtain ⟨_, _, got, gives⟩ := gives_bind.mp gives
  obtain ⟨rfl, rfl⟩ := gives_draft.mp got
  simp only at gives
  split at gives
  · rename_i cursor item state
    obtain ⟨answer, u, directed, gives⟩ := gives_bind.mp gives
    cases answer with
    | again next =>
        obtain ⟨rfl, rfl⟩ := gives_pure.mp gives
        exact .directs state directed
    | passed =>
        obtain ⟨rfl, rfl⟩ := gives_pure.mp gives
        exact .passes state directed
    | skipped =>
        obtain ⟨_, v, skipped, gives⟩ := gives_bind.mp gives
        obtain ⟨rfl, rfl⟩ := gives_pure.mp gives
        exact .skips state directed skipped
    | stopped result =>
        obtain ⟨rfl, rfl⟩ := gives_pure.mp gives
        exact .stops state directed
    | waiting next wait =>
        obtain ⟨rfl, rfl⟩ := gives_park gives
        exact .awaits state directed
  · rename_i result state
    obtain ⟨value, u, settled, gives⟩ := gives_bind.mp gives
    split at gives
    · obtain ⟨rfl, rfl⟩ := gives_park gives
      exact .waits state settled
    · rename_i no_lazy
      obtain ⟨rfl, rfl⟩ := gives_pure.mp gives
      exact .settles state settled no_lazy
  · rename_i value state
    obtain ⟨completion, u, completed, gives⟩ := gives_bind.mp gives
    cases completion with
    | done =>
        obtain ⟨rfl, rfl⟩ := gives_pure.mp gives
        exact .completes state completed
    | waiting later =>
        obtain ⟨rfl, rfl⟩ := gives_park gives
        exact .defers state completed
    | replaced replacement =>
        obtain ⟨rfl, rfl⟩ := gives_pure.mp gives
        exact .replaces state completed
  · exact absurd gives not_gives_throw

end ItemStep

/-! ### Objects -/

namespace ObjectStep

variable {step : ObjectStep σ} {progress : Progress σ}

/-- What an object step completes its position with instead of an object. -/
inductive Fails (job : Job σ) (step : ObjectStep σ) (s : Stage σ) :
    ResolvedValue σ → Stage σ → Prop
  | mistyped {abstractType : TypeDefinition σ} {error : ResolverError} {value : ResolvedValue σ}
      {t : Stage σ} (state : step.state = .typeResolved abstractType (.error error))
      (settled : (settle job (step.target.path s.run.draft) (.error error)).Gives
        ⟨s.run, s.world.tell (.endType abstractType.name none)⟩ value t) :
      Fails job step s value t
  | refused {type : ObjectType σ} (state : step.state = .authorized type (.ok false)) :
      Fails job step s (.unauthorized (.object type.name))
        ⟨s.run, s.world.tell (.endAuthorized type.name (some false))⟩
  | unauthorized {type : ObjectType σ} {error : ResolverError} {value : ResolvedValue σ}
      {t : Stage σ} (state : step.state = .authorized type (.error error))
      (settled : (settle job (step.target.path s.run.draft) (.error error)).Gives
        ⟨s.run, s.world.tell (.endAuthorized type.name none)⟩ value t) :
      Fails job step s value t
  | replaced {result : FieldResult σ} {value : ResolvedValue σ} {t : Stage σ}
      (state : step.state = .replaced result)
      (settled : (settle job (step.target.path s.run.draft) result).Gives s value t) :
      Fails job step s value t

/-- What replaces an object is settled first. -/
theorem Fails.of_replaced {value : ResolvedValue σ} {result : FieldResult σ}
    (fails : step.Fails job s value t) (state : step.state = .replaced result) :
    (settle job (step.target.path s.run.draft) result).Gives s value t := by
  cases fails with
  | replaced state' settled =>
      cases state.symm.trans state'
      exact settled
  | _ => cases state.symm.trans ‹step.state = _›

/-- What gathers the fields of an object. -/
def grouper (step : ObjectStep σ) (job : Job σ) (type : ObjectType σ) (path : Path) :
    Grouper σ :=
  { job, typeName := type.name, identity := step.subject.identity, path }

/-- The step waits in a state. -/
def parkedAt (step : ObjectStep σ) (state : ObjectState σ) (wait : Wait σ) (t : Stage σ) :
    Progress σ :=
  .parked (.object { step with state }) (step.target.depth t.run.draft) wait

/-- The stage at which the groups of an object are left to steps of their own. -/
def gathered (node : NodeId) (grouping : Grouping) (s : Stage σ) : Stage σ :=
  ⟨{ s.run with
      errors := s.run.errors ++ grouping.errors
      draft := s.run.draft.setKeys node grouping.groups.keys }, s.world⟩

/-- The ways of an object that gives way to a value. -/
inductive GivesWay (job : Job σ) (step : ObjectStep σ) (value : ResolvedValue σ) (s : Stage σ) :
    Progress σ → Stage σ → Prop
  | root {t : Stage σ} (target : step.target = .root)
      (failed : (failRoot job value).Gives s () t) : GivesWay job step value s .finished t
  | completes {position : Position σ} {t : Stage σ} (target : step.target = .child position)
      (completed : (position.complete job value).Gives s .done t) :
      GivesWay job step value s .finished t
  | waits {position : Position σ} {later : Lazy σ (FieldResult σ)} {t : Stage σ}
      (target : step.target = .child position)
      (completed : (position.complete job value).Gives s (.waiting later) t) :
      GivesWay job step value s (step.parkedAt .awaitingReplacement (.value (.start later)) t) t
  | replaces {position : Position σ} {replacement : ResolvedValue σ} {t : Stage σ}
      (target : step.target = .child position)
      (completed : (position.complete job value).Gives s (.replaced replacement) t) :
      GivesWay job step value s (step.goTo (.replaced (.ok replacement))) t

/-- The ways of an object that is still wanted. -/
inductive Way (job : Job σ) (step : ObjectStep σ) (s : Stage σ) : Progress σ → Stage σ → Prop
  | types {declared : TypeDefinition σ} {name : String} {t : Stage σ}
      (state : step.state = .resolveType declared)
      (answered : (call (job.schema.resolveType declared step.subject.value job.query)).Gives
        ⟨s.run, s.world.tell (.beginType declared.name)⟩ (some (.ready name)) t) :
      Way job step s (step.goTo (.typeResolved declared (.ok name))) t
  | asksType {declared : TypeDefinition σ} {later : Lazy σ (Except ResolverError String)}
      {t : Stage σ} (state : step.state = .resolveType declared)
      (answered : (call (job.schema.resolveType declared step.subject.value job.query)).Gives
        ⟨s.run, s.world.tell (.beginType declared.name)⟩ (some (.later later)) t) :
      Way job step s (step.parkedAt (.awaitingType declared) (.type (.start later)) t) t
  | takesType {declared : TypeDefinition σ} {name : String} {type : ObjectType σ}
      (state : step.state = .typeResolved declared (.ok name))
      (possible : possibleType? job declared name = some type) :
      Way job step s (step.goTo (.authorize type))
        ⟨s.run, s.world.tell (.endType declared.name (some name))⟩
  | permits {type : ObjectType σ} (state : step.state = .authorize type)
      (open_to_all : type.authorize? = none) : Way job step s (step.goTo (.allocate type)) s
  | decides {type : ObjectType σ}
      {authorize : AppValue → QueryContext → Action σ (Answer σ ResolverError Bool)}
      {allowed : Bool} {t : Stage σ} (state : step.state = .authorize type)
      (hook : type.authorize? = some authorize)
      (answered : (call (authorize step.subject.value job.query)).Gives
        ⟨s.run, s.world.tell (.beginAuthorized type.name)⟩ (.ready allowed) t) :
      Way job step s (step.goTo (.authorized type (.ok allowed))) t
  | asksPermission {type : ObjectType σ}
      {authorize : AppValue → QueryContext → Action σ (Answer σ ResolverError Bool)}
      {later : Lazy σ (Except ResolverError Bool)} {t : Stage σ}
      (state : step.state = .authorize type) (hook : type.authorize? = some authorize)
      (answered : (call (authorize step.subject.value job.query)).Gives
        ⟨s.run, s.world.tell (.beginAuthorized type.name)⟩ (.later later) t) :
      Way job step s (step.parkedAt (.awaitingAuthorization type) (.authorization (.start later)) t)
        t
  | allows {type : ObjectType σ} (state : step.state = .authorized type (.ok true)) :
      Way job step s (step.goTo (.allocate type))
        ⟨s.run, s.world.tell (.endAuthorized type.name (some true))⟩
  | fails {value : ResolvedValue σ} {progress : Progress σ} {u t : Stage σ}
      (fails : step.Fails job s value u) (gives_way : step.GivesWay job value u progress t) :
      Way job step s progress t
  | allocates {type : ObjectType σ} {node : NodeId} {t : Stage σ}
      (state : step.state = .allocate type) (allocated : step.allocate.Gives s node t) :
      Way job step s (step.goTo (.collect type node)) t
  | asks {type : ObjectType σ} {node : NodeId} {key : ArgumentKey} {t : Stage σ}
      (state : step.state = .collect type node)
      (grouped : ((step.grouper job type (s.run.draft.path node)).group step.selections).Gives s
        (.waiting key) t) :
      Way job step s (step.parkedAt (.awaitingArguments type node) (.arguments key) t) t
  | collects {type : ObjectType σ} {node : NodeId} {grouping : Grouping} {u t : Stage σ}
      (state : step.state = .collect type node)
      (grouped : ((step.grouper job type (s.run.draft.path node)).group step.selections).Gives s
        (.complete grouping) u)
      (launched : (step.launchAll job type node grouping.groups).Gives (gathered node grouping u)
        () t) :
      Way job step s .finished t

theorem gives_park {state : ObjectState σ} {wait : Wait σ}
    (gives : (step.park state wait).Gives s progress t) :
    step.parkedAt state wait s = progress ∧ s = t := by
  obtain ⟨_, _, got, gives⟩ := gives_bind.mp gives
  obtain ⟨rfl, rfl⟩ := gives_draft.mp got
  exact gives_pure.mp gives

theorem gives_way {value : ResolvedValue σ} (gives : (step.fail job value).Gives s progress t) :
    step.GivesWay job value s progress t := by
  unfold fail at gives
  split at gives
  · rename_i target
    obtain ⟨_, u, failed, gives⟩ := gives_bind.mp gives
    obtain ⟨rfl, rfl⟩ := gives_pure.mp gives
    exact .root target failed
  · rename_i position target
    obtain ⟨completion, u, completed, gives⟩ := gives_bind.mp gives
    cases completion with
    | done =>
        obtain ⟨rfl, rfl⟩ := gives_pure.mp gives
        exact .completes target completed
    | waiting later =>
        obtain ⟨rfl, rfl⟩ := gives_park gives
        exact .waits target completed
    | replaced replacement =>
        obtain ⟨rfl, rfl⟩ := gives_pure.mp gives
        exact .replaces target completed

/-- What a failure stands for is settled before the object gives way to it. -/
theorem gives_failWith {result : FieldResult σ}
    (gives : (step.failWith job result).Gives s progress t) :
    ∃ value u, (settle job (step.target.path s.run.draft) result).Gives s value u ∧
      step.GivesWay job value u progress t := by
  obtain ⟨_, _, got, gives⟩ := gives_bind.mp gives
  obtain ⟨rfl, rfl⟩ := gives_draft.mp got
  obtain ⟨value, u, settled, gives⟩ := gives_bind.mp gives
  exact ⟨value, u, settled, gives_way gives⟩

theorem way_askType {declared : TypeDefinition σ} (state : step.state = .resolveType declared)
    (gives : (step.askType job declared).Gives s progress t) : step.Way job s progress t := by
  obtain ⟨_, _, told, gives⟩ := gives_bind.mp gives
  obtain rfl := gives_tell.mp told
  obtain ⟨answer, u, answered, gives⟩ := gives_bind.mp gives
  split at gives
  · obtain ⟨rfl, rfl⟩ := gives_pure.mp gives
    exact .types state answered
  · obtain ⟨rfl, rfl⟩ := gives_park gives
    exact .asksType state answered
  · obtain ⟨_, _, -, gives⟩ := gives_bind.mp gives
    exact absurd gives not_gives_throw

theorem way_takeType {declared : TypeDefinition σ} {result : Except ResolverError String}
    (state : step.state = .typeResolved declared result)
    (gives : (step.takeType job declared result).Gives s progress t) :
    step.Way job s progress t := by
  cases result with
  | error error =>
      obtain ⟨_, _, told, gives⟩ := gives_bind.mp gives
      obtain rfl := gives_tell.mp told
      obtain ⟨value, u, settled, way⟩ := gives_failWith gives
      exact .fails (.mistyped state settled) way
  | ok name =>
      obtain ⟨_, _, told, gives⟩ := gives_bind.mp gives
      obtain rfl := gives_tell.mp told
      split at gives
      · rename_i type possible
        obtain ⟨rfl, rfl⟩ := gives_pure.mp gives
        exact .takesType state possible
      · exact absurd gives not_gives_throw

theorem way_askAuthorization {type : ObjectType σ} (state : step.state = .authorize type)
    (gives : (step.askAuthorization job type).Gives s progress t) : step.Way job s progress t := by
  unfold askAuthorization at gives
  split at gives
  · rename_i open_to_all
    obtain ⟨rfl, rfl⟩ := gives_pure.mp gives
    exact .permits state open_to_all
  · rename_i authorize hook
    obtain ⟨_, _, told, gives⟩ := gives_bind.mp gives
    obtain rfl := gives_tell.mp told
    obtain ⟨answer, u, answered, gives⟩ := gives_bind.mp gives
    cases answer with
    | ready allowed =>
        obtain ⟨rfl, rfl⟩ := gives_pure.mp gives
        exact .decides state hook answered
    | later later =>
        obtain ⟨rfl, rfl⟩ := gives_park gives
        exact .asksPermission state hook answered

theorem way_takeAuthorization {type : ObjectType σ} {result : Except ResolverError Bool}
    (state : step.state = .authorized type result)
    (gives : (step.takeAuthorization job type result).Gives s progress t) :
    step.Way job s progress t := by
  obtain ⟨_, _, told, gives⟩ := gives_bind.mp gives
  obtain rfl := gives_tell.mp told
  split at gives
  · obtain ⟨rfl, rfl⟩ := gives_pure.mp gives
    exact .allows state
  · exact .fails (.refused state) (gives_way gives)
  · obtain ⟨value, u, settled, way⟩ := gives_failWith gives
    exact .fails (.unauthorized state settled) way

theorem way_collect {type : ObjectType σ} {node : NodeId} (state : step.state = .collect type node)
    (gives : (step.collect job type node).Gives s progress t) : step.Way job s progress t := by
  obtain ⟨_, _, got, gives⟩ := gives_bind.mp gives
  obtain ⟨rfl, rfl⟩ := gives_draft.mp got
  obtain ⟨result, u, grouped, gives⟩ := gives_bind.mp gives
  cases result with
  | waiting key =>
      obtain ⟨rfl, rfl⟩ := gives_park gives
      exact .asks state grouped
  | complete grouping =>
      obtain ⟨_, _, reported, gives⟩ := gives_bind.mp gives
      obtain rfl := gives_modifyRun.mp reported
      obtain ⟨_, _, ordered, gives⟩ := gives_bind.mp gives
      obtain rfl := gives_modifyDraft.mp ordered
      obtain ⟨_, _, launched, gives⟩ := gives_bind.mp gives
      obtain ⟨rfl, rfl⟩ := gives_pure.mp gives
      exact .collects state grouped launched

theorem way (gives : (step.advanceAlive job).Gives s progress t) : step.Way job s progress t := by
  unfold advanceAlive at gives
  split at gives
  · exact way_askType ‹_› gives
  · exact way_takeType ‹_› gives
  · exact way_askAuthorization ‹_› gives
  · exact way_takeAuthorization ‹_› gives
  · obtain ⟨value, u, settled, way⟩ := gives_failWith gives
    exact .fails (.replaced ‹_› settled) way
  · obtain ⟨node, u, allocated, gives⟩ := gives_bind.mp gives
    obtain ⟨rfl, rfl⟩ := gives_pure.mp gives
    exact .allocates ‹_› allocated
  · exact way_collect ‹_› gives
  · exact absurd gives not_gives_throw
  · exact absurd gives not_gives_throw
  · exact absurd gives not_gives_throw
  · exact absurd gives not_gives_throw

end ObjectStep

/-! ### Steps -/

/-- Whether a step is still wanted. -/
def Step.isAlive (draft : Draft) : Step σ → Bool
  | .object step => step.target.isAlive draft
  | .field step => !draft.isDead step.parent
  | .item step => !draft.isDead step.position.parent

/-- The ways of a step: one that is not wanted any more is dropped. -/
inductive Step.Way (job : Job σ) : Step σ → Stage σ → Progress σ → Stage σ → Prop
  | dropped {step : Step σ} {s : Stage σ} (dead : step.isAlive s.run.draft = false) :
      Way job step s .finished s
  | object {step : ObjectStep σ} {s t : Stage σ} {progress : Progress σ}
      (alive : step.target.isAlive s.run.draft = true) (way : step.Way job s progress t) :
      Way job (.object step) s progress t
  | field {step : FieldStep σ} {s t : Stage σ} {progress : Progress σ}
      (alive : s.run.draft.Alive step.parent) (way : step.Way job s progress t) :
      Way job (.field step) s progress t
  | item {step : ItemStep σ} {s t : Stage σ} {progress : Progress σ}
      (alive : s.run.draft.Alive step.position.parent) (way : step.Way job s progress t) :
      Way job (.item step) s progress t

theorem Step.way {step : Step σ} {progress : Progress σ}
    (gives : (step.advance job).Gives s progress t) : step.Way job s progress t := by
  cases step with
  | object step =>
      obtain ⟨_, _, got, gives⟩ := gives_bind.mp gives
      obtain ⟨rfl, rfl⟩ := gives_draft.mp got
      split at gives
      · rename_i alive
        exact .object alive (ObjectStep.way gives)
      · rename_i dead
        obtain ⟨rfl, rfl⟩ := gives_pure.mp gives
        exact .dropped (Bool.eq_false_iff.mpr dead)
  | field step =>
      obtain ⟨_, _, got, gives⟩ := gives_bind.mp gives
      obtain ⟨rfl, rfl⟩ := gives_draft.mp got
      split at gives
      · rename_i dead
        obtain ⟨rfl, rfl⟩ := gives_pure.mp gives
        exact .dropped (by simp [isAlive, dead])
      · rename_i alive
        exact .field (Bool.eq_false_iff.mpr alive) (FieldStep.way gives)
  | item step =>
      obtain ⟨_, _, got, gives⟩ := gives_bind.mp gives
      obtain ⟨rfl, rfl⟩ := gives_draft.mp got
      split at gives
      · rename_i dead
        obtain ⟨rfl, rfl⟩ := gives_pure.mp gives
        exact .dropped (by simp [isAlive, dead])
      · rename_i alive
        exact .item (Bool.eq_false_iff.mpr alive) (ItemStep.way gives)

/-! ### Answers -/

/-- How a cursor takes up what it is handed. -/
inductive DirectiveCursor.Resumed (cursor : DirectiveCursor σ) :
    Resumption σ → DirectiveCursor σ → Prop
  | arguments {result : ArgumentsResult} (stage : cursor.stage = .awaitingArguments) :
      Resumed cursor (.arguments result) { cursor with stage := .called result }
  | answer {flow : Except ResolverError DirectiveFlow} (stage : cursor.stage = .awaitingAnswer) :
      Resumed cursor (.directive flow) { cursor with stage := .answered flow }

theorem DirectiveCursor.resumed {cursor next : DirectiveCursor σ} {resumption : Resumption σ}
    (resumes : cursor.resume resumption = .ok next) : cursor.Resumed resumption next := by
  unfold resume at resumes
  split at resumes
  · injection resumes with resumes
    exact resumes ▸ .arguments ‹_›
  · injection resumes with resumes
    exact resumes ▸ .answer ‹_›
  · cases resumes

/-- How a field takes up what it is handed. -/
inductive FieldStep.Resumed (step : FieldStep σ) : Resumption σ → FieldStep σ → Prop
  | directs {cursor next : DirectiveCursor σ} {resumption : Resumption σ}
      (state : step.state = .runDirectives cursor) (resumed : cursor.Resumed resumption next) :
      Resumed step resumption { step with state := .runDirectives next }
  | arguments {result : ArgumentsResult} (state : step.state = .awaitingArguments) :
      Resumed step (.arguments result) { step with state := .argumentsLoaded result }
  | value {result : FieldResult σ} (state : step.state = .awaitingValue) :
      Resumed step (.value result) { step with state := .resolved result }

theorem FieldStep.resumed {step next : FieldStep σ} {resumption : Resumption σ}
    (resumes : step.resume resumption = .ok next) : step.Resumed resumption next := by
  unfold resume at resumes
  split at resumes
  · rename_i cursor state
    obtain ⟨other, resumed, resumes⟩ := Except.bind_eq_ok.mp resumes
    injection resumes with resumes
    exact resumes ▸ .directs state (DirectiveCursor.resumed resumed)
  · injection resumes with resumes
    exact resumes ▸ .arguments ‹_›
  · injection resumes with resumes
    exact resumes ▸ .value ‹_›
  · cases resumes

/-- How an item takes up what it is handed. -/
inductive ItemStep.Resumed (step : ItemStep σ) : Resumption σ → ItemStep σ → Prop
  | directs {cursor next : DirectiveCursor σ} {item : ResolvedValue σ} {resumption : Resumption σ}
      (state : step.state = .runDirectives cursor item) (resumed : cursor.Resumed resumption next) :
      Resumed step resumption { step with state := .runDirectives next item }
  | value {result : FieldResult σ} (state : step.state = .awaitingValue) :
      Resumed step (.value result) { step with state := .resolved result }

theorem ItemStep.resumed {step next : ItemStep σ} {resumption : Resumption σ}
    (resumes : step.resume resumption = .ok next) : step.Resumed resumption next := by
  unfold resume at resumes
  split at resumes
  · rename_i cursor item state
    obtain ⟨other, resumed, resumes⟩ := Except.bind_eq_ok.mp resumes
    injection resumes with resumes
    exact resumes ▸ .directs state (DirectiveCursor.resumed resumed)
  · injection resumes with resumes
    exact resumes ▸ .value ‹_›
  · cases resumes

/-- How an object takes up what it is handed. -/
inductive ObjectStep.Resumed (step : ObjectStep σ) : Resumption σ → ObjectStep σ → Prop
  | type {declared : TypeDefinition σ} {result : Except ResolverError String}
      (state : step.state = .awaitingType declared) :
      Resumed step (.type result) { step with state := .typeResolved declared result }
  | authorization {type : ObjectType σ} {result : Except ResolverError Bool}
      (state : step.state = .awaitingAuthorization type) :
      Resumed step (.authorization result) { step with state := .authorized type result }
  | value {result : FieldResult σ} (state : step.state = .awaitingReplacement) :
      Resumed step (.value result) { step with state := .replaced result }
  | arguments {type : ObjectType σ} {node : NodeId} {result : ArgumentsResult}
      (state : step.state = .awaitingArguments type node) :
      Resumed step (.arguments result) { step with state := .collect type node }

theorem ObjectStep.resumed {step next : ObjectStep σ} {resumption : Resumption σ}
    (resumes : step.resume resumption = .ok next) : step.Resumed resumption next := by
  unfold resume at resumes
  split at resumes
  · injection resumes with resumes
    exact resumes ▸ .type ‹_›
  · injection resumes with resumes
    exact resumes ▸ .authorization ‹_›
  · injection resumes with resumes
    exact resumes ▸ .value ‹_›
  · injection resumes with resumes
    exact resumes ▸ .arguments ‹_›
  · cases resumes

/-- How a step takes up what it is handed. -/
inductive Step.Resumed : Step σ → Resumption σ → Step σ → Prop
  | object {step next : ObjectStep σ} {resumption : Resumption σ}
      (resumed : step.Resumed resumption next) : Resumed (.object step) resumption (.object next)
  | field {step next : FieldStep σ} {resumption : Resumption σ}
      (resumed : step.Resumed resumption next) : Resumed (.field step) resumption (.field next)
  | item {step next : ItemStep σ} {resumption : Resumption σ}
      (resumed : step.Resumed resumption next) : Resumed (.item step) resumption (.item next)

theorem Step.resumed {step next : Step σ} {resumption : Resumption σ}
    (resumes : step.resume resumption = .ok next) : step.Resumed resumption next := by
  unfold resume at resumes
  cases step with
  | object step =>
      obtain ⟨other, resumed, rfl⟩ := Except.map_eq_ok.mp resumes
      exact .object (ObjectStep.resumed resumed)
  | field step =>
      obtain ⟨other, resumed, rfl⟩ := Except.map_eq_ok.mp resumes
      exact .field (FieldStep.resumed resumed)
  | item step =>
      obtain ⟨other, resumed, rfl⟩ := Except.map_eq_ok.mp resumes
      exact .item (ItemStep.resumed resumed)

end GraphExec
