import GraphExec.Proofs.Run.Calls
import GraphExec.Proofs.Run.Refusals

/-!
# Which events a transition tells of

An observer is told when a resolver is called and has answered, and when the type or the
authorization of an object is asked for and is known. What a step comes to in its next transition,
and what hooks answer there, says which events these are.
-/

namespace GraphExec

variable {σ : Type} {job : Job σ} {s t : Stage σ}

open Engine

/-! ### Programs by what they tell -/

namespace Engine

variable {α β : Type}

/-- A program tells of no event, whatever happens. -/
def Mute (program : Engine σ α) : Prop :=
  program.Made (fun _ _ => True) fun _ => False

theorem Made.mute {may : ∀ β : Type, Action σ β → Prop} {program : Engine σ α}
    (made : program.Made may fun _ => False) : program.Mute :=
  made.mono fun _ _ _ => trivial

theorem mute_call (action : Action σ α) : (call action).Mute := .call trivial

/-- A program tells of some events at a stage, in this order: it is put together from programs that
tell of none and from those that tell of one. Where it fails, the rest is left out. -/
inductive Tells : ∀ {α : Type}, Engine σ α → Stage σ → List Event → Prop
  | mute {α : Type} {program : Engine σ α} (mute : program.Mute) (stage : Stage σ) :
      Tells program stage []
  | tell (event : Event) (stage : Stage σ) : Tells (tell event) stage [event]
  | bind {α β : Type} {x : Engine σ α} {f : α → Engine σ β} {stage after : Stage σ} {a : α}
      {events later : List Event} (first : Tells x stage events) (gives : x.Gives stage a after)
      (then_ : Tells (f a) after later) : Tells (x >>= f) stage (events ++ later)
  | fails {α β : Type} {x : Engine σ α} {f : α → Engine σ β} {stage : Stage σ}
      {error : FatalError} {events : List Event} (first : Tells x stage events)
      (fails : x.Fails stage error) : Tells (x >>= f) stage events

/-- What follows a program that tells of nothing tells of all. -/
theorem Tells.after_mute {x : Engine σ α} {f : α → Engine σ β} {a : α} {events : List Event}
    (mute : x.Mute) (gives : x.Gives s a t) (then_ : (f a).Tells t events) :
    (x >>= f).Tells s events :=
  .bind (.mute mute s) gives then_

/-- An event is told of before anything else. -/
theorem Tells.after_tell {event : Event} {f : Unit → Engine σ β} {events : List Event}
    (then_ : (f ()).Tells ⟨s.run, s.world.tell event⟩ events) :
    (Engine.tell event >>= f).Tells s (event :: events) :=
  .bind (.tell event s) (gives_tell.mpr rfl) then_

theorem Tells.after_call {action : Action σ α} {f : α → Engine σ β} {events : List Event}
    (then_ : (f (action.run s.world).1).Tells ⟨s.run, (action.run s.world).2⟩ events) :
    (call action >>= f).Tells s events :=
  .after_mute (mute_call action) (gives_call.mpr ⟨rfl, rfl⟩) then_

theorem Tells.after_draft {f : Draft → Engine σ β} {events : List Event}
    (then_ : (f s.run.draft).Tells s events) : (draft >>= f).Tells s events :=
  .after_mute .draft (gives_draft.mpr ⟨rfl, rfl⟩) then_

/-- What comes after tells of nothing. -/
theorem Tells.then_mute {x : Engine σ α} {f : α → Engine σ β} {events : List Event}
    (first : x.Tells s events) (mute : ∀ a, (f a).Mute) : (x >>= f).Tells s events := by
  rcases ran : x.runAt s with ⟨error | a, t⟩
  · exact .fails first (congrArg Prod.fst ran)
  · have both := Tells.bind first (show x.Gives s a t from ran) (.mute (mute a) t)
    rwa [List.append_nil] at both

end Engine

/-! ### Events of transitions -/

namespace FieldStep

variable (step : FieldStep σ)

/-- Whether the resolver of a field may be called with arguments. -/
def grants (job : Job σ) (arguments : Arguments) (s : Stage σ) : Bool :=
  match (step.site.extras job step.parent (step.position.path s.run.draft)).runAt s with
  | (.ok extras, asked) =>
    match step.site.field.authorize? with
    | some authorize =>
      ((authorize ⟨step.site.owner.value, arguments, job.query, step.site.typeName,
        step.site.field.name, extras⟩).run asked.world).1
    | none => true
  | (.error _, _) => false

/-- What is told of around a call of the resolver. -/
def span (s : Stage σ) : List Event :=
  let path := step.position.path s.run.draft
  [.beginField step.site.typeName step.site.field.name path,
    .endField step.site.typeName step.site.field.name path]

/-- What a field that is still wanted tells of. -/
def events (job : Job σ) (s : Stage σ) : List Event :=
  match step.state with
  | .callResolver arguments => if step.grants job arguments s then step.span s else []
  | _ => []

end FieldStep

namespace ObjectStep

variable (step : ObjectStep σ)

/-- What is known of the type of a value as soon as it is asked for. -/
def askedType (job : Job σ) (abstractType : TypeDefinition σ) (s : Stage σ) :
    Option (Answer σ ResolverError String) :=
  ((job.schema.resolveType abstractType step.subject.value job.query).run
    (s.world.tell (.beginType abstractType.name))).1

/-- What an object that is still wanted tells of. -/
def events (job : Job σ) (s : Stage σ) : List Event :=
  match step.state with
  | .resolveType abstractType =>
    .beginType abstractType.name ::
      if (step.askedType job abstractType s).isNone then [.endType abstractType.name none] else []
  | .typeResolved abstractType result => [.endType abstractType.name result.toOption]
  | .authorize type => if type.authorize?.isSome then [.beginAuthorized type.name] else []
  | .authorized type result => [.endAuthorized type.name result.toOption]
  | _ => []

end ObjectStep

namespace Step

/-- What the next transition of a step tells of. -/
def events (job : Job σ) (step : Step σ) (s : Stage σ) : List Event :=
  if step.isAlive s.run.draft then
    match step with
    | .object step => step.events job s
    | .field step => step.events job s
    | .item _ => []
  else []

theorem events_dead {step : Step σ} (dead : step.isAlive s.run.draft = false) :
    step.events job s = [] := by
  unfold events
  rw [dead]
  rfl

end Step

/-! ### Fields -/

theorem Job.admits_all (job : Job σ) : job.Admits fun _ _ => True where
  outward _ _ _ := trivial
  coerces _ _ _ := trivial
  guard _ _ _ _ := trivial

namespace FieldStep

variable (step : FieldStep σ)

/-- A field tells of nothing unless it is about to be resolved. -/
theorem mute_advance (others : ∀ arguments, step.state ≠ .callResolver arguments) :
    (step.advance job).Mute :=
  step.made_advance_of job.admits_all (fun _ _ _ _ _ _ _ _ => trivial) (fun _ _ => trivial)
    (fun _ _ _ _ _ => trivial) fun arguments state => absurd state (others arguments)

theorem mute_extras (site : FieldSite σ) (job : Job σ) (arguments : Arguments) (parent : NodeId)
    (path : Path) : (site.extras job parent path).Mute := by
  have made : (site.extras job parent path).Made (site.Resolves job arguments) fun _ => False :=
    site.made_extras parent path
  exact made.mute

theorem mute_reports (site : FieldSite σ) (path : Path) (reporting : Bool)
    (resolution : Resolution σ) :
    (do
      if reporting then site.reportAll path resolution.reported
      return resolution.result : Engine σ (FieldResult σ)).Mute := by
  cases reporting with
  | true => exact .bind (site.made_reportAll _ _) fun _ => .pure _
  | false => exact .pure _

theorem callResolver_tells (site : FieldSite σ) (path : Path) (context : ResolverContext σ) :
    (site.callResolver path context).Tells s
      [.beginField site.typeName site.field.name path,
        .endField site.typeName site.field.name path] := by
  refine .after_tell ?_
  cases hook : site.field.resolve? with
  | some resolve => exact .after_call (.after_tell (.mute (.pure _) _))
  | none => exact .after_mute (.pure _) (gives_pure.mpr ⟨rfl, rfl⟩) (.after_tell (.mute (.pure _) _))

/-- A field that is resolved is told of before and after, if its resolver may be called. -/
theorem resolve_tells (arguments : Arguments) :
    (step.site.resolve job step.parent (step.position.path s.run.draft) arguments).Tells s
      (if step.grants job arguments s then step.span s else []) := by
  let path := step.position.path s.run.draft
  obtain ⟨extras, asked, given⟩ := step.site.extras_given job step.parent path s
  let context : ResolverContext σ :=
    ⟨step.site.owner.value, arguments, job.query, step.site.typeName, step.site.field.name, extras⟩
  have answers (allowed : Bool) (u : Stage σ) : (if allowed then do
      let resolution ← step.site.callResolver path context
      if extras.reporting then step.site.reportAll path resolution.reported
      return resolution.result
    else return .ok (.unauthorized (.field step.site.typeName step.site.field.name)) :
      Engine σ (FieldResult σ)).Tells u (if allowed then step.span s else []) := by
    cases allowed with
    | false => exact .mute (.pure _) u
    | true =>
        exact (callResolver_tells step.site path context).then_mute
          (mute_reports step.site path extras.reporting)
  refine .after_mute (mute_extras _ job arguments _ _) given ?_
  have granted : step.grants job arguments s =
      match step.site.field.authorize? with
      | some authorize => ((authorize context).run asked).1
      | none => true := by
    unfold grants
    rw [show (step.site.extras job step.parent (step.position.path s.run.draft)).runAt s = _ from
      given]
  rw [granted]
  cases hook : step.site.field.authorize? with
  | some authorize => exact .after_call (answers _ _)
  | none => exact .after_mute (.pure _) (gives_pure.mpr ⟨rfl, rfl⟩) (answers true _)

/-- A field that is still wanted tells of its events. -/
theorem tells_events (alive : (Step.field step).isAlive s.run.draft = true) :
    (step.advance job).Tells s (step.events job s) := by
  by_cases resolves : ∃ arguments, step.state = .callResolver arguments
  · obtain ⟨arguments, state⟩ := resolves
    have living : ¬ s.run.draft.isDead step.parent = true := by simpa [Step.isAlive] using alive
    refine .after_draft ?_
    rw [if_neg living]
    refine .after_draft ?_
    unfold events
    rw [state]
    exact (step.resolve_tells arguments).then_mute fun _ => .pure _
  · have quiet : step.events job s = [] := by
      unfold events
      split
      · rename_i arguments state
        exact absurd ⟨arguments, state⟩ resolves
      · rfl
    rw [quiet]
    exact .mute (step.mute_advance fun arguments state => resolves ⟨arguments, state⟩) s

end FieldStep

theorem ItemStep.mute_advance (step : ItemStep σ) : (step.advance job).Mute :=
  step.made_advance_of job.admits_all fun _ _ _ _ _ _ _ _ _ => trivial

/-! ### Objects -/

namespace ObjectStep

variable (step : ObjectStep σ)

theorem mute_park (state : ObjectState σ) (wait : Wait σ) : (step.park state wait).Mute := by
  exact .bind .draft fun _ => .pure _

theorem mute_fail (value : ResolvedValue σ) : (step.fail job value).Mute := by
  have made : (step.fail job value).Made (job.May none) fun _ => False := step.made_fail value
  exact made.mute

theorem mute_failWith (result : FieldResult σ) : (step.failWith job result).Mute := by
  have made : (step.failWith job result).Made (job.May none) fun _ => False :=
    step.made_failWith result
  exact made.mute

theorem askType_tells (abstractType : TypeDefinition σ) :
    (step.askType job abstractType).Tells s (.beginType abstractType.name ::
      if (step.askedType job abstractType s).isNone then [.endType abstractType.name none]
      else []) := by
  refine .after_tell (.after_call ?_)
  show Tells _ _ (if (step.askedType job abstractType s).isNone then _ else _)
  unfold askedType
  split
  · rename_i name answer
    rw [answer]
    exact .mute (.pure _) _
  · rename_i lazy answer
    rw [answer]
    exact .mute (mute_park _ _ _) _
  · rename_i answer
    rw [answer]
    exact .after_tell (.mute (.throw _) _)

theorem takeType_tells (abstractType : TypeDefinition σ) (result : Except ResolverError String) :
    (step.takeType job abstractType result).Tells s
      [.endType abstractType.name result.toOption] := by
  cases result with
  | error error => exact .after_tell (.mute (step.mute_failWith _) _)
  | ok name =>
      refine .after_tell ?_
      split
      · exact .mute (.pure _) _
      · exact .mute (.throw _) _

theorem askAuthorization_tells (type : ObjectType σ) :
    (step.askAuthorization job type).Tells s
      (if type.authorize?.isSome then [.beginAuthorized type.name] else []) := by
  unfold askAuthorization
  split
  · rename_i hook
    rw [hook]
    exact .mute (.pure _) s
  · rename_i authorize hook
    rw [hook]
    refine .after_tell (.after_call ?_)
    split
    · exact .mute (.pure _) _
    · exact .mute (mute_park _ _ _) _

theorem takeAuthorization_tells (type : ObjectType σ) (result : Except ResolverError Bool) :
    (step.takeAuthorization job type result).Tells s
      [.endAuthorized type.name result.toOption] := by
  refine .after_tell ?_
  split
  · exact .mute (.pure _) _
  · exact .mute (step.mute_fail _) _
  · exact .mute (step.mute_failWith _) _

/-- An object that is still wanted tells of its events. -/
theorem tells_events (alive : (Step.object step).isAlive s.run.draft = true) :
    (step.advance job).Tells s (step.events job s) := by
  refine .after_draft ?_
  rw [if_pos (show step.target.isAlive s.run.draft = true from alive)]
  unfold advanceAlive events
  cases step.state with
  | resolveType abstractType => exact step.askType_tells abstractType
  | typeResolved abstractType result => exact step.takeType_tells abstractType result
  | authorize type => exact step.askAuthorization_tells type
  | authorized type result => exact step.takeAuthorization_tells type result
  | replaced result => exact .mute (step.mute_failWith result) s
  | allocate type =>
      refine .mute ?_ s
      refine .bind ?_ fun node => .pure _
      unfold allocate
      split
      · exact .pure _
      · exact .allocate _
  | collect type node =>
      have made : (step.collect job type node).Made (fun _ _ => True) fun _ => False :=
        step.made_collect job.admits_all type node
      exact .mute made s
  | awaitingType abstractType => exact .mute (.throw _) s
  | awaitingAuthorization type => exact .mute (.throw _) s
  | awaitingReplacement => exact .mute (.throw _) s
  | awaitingArguments type node => exact .mute (.throw _) s

end ObjectStep

/-- The next transition of a step tells of its events, and of nothing else. -/
theorem Step.tells_events (job : Job σ) (step : Step σ) (s : Stage σ) :
    (step.advance job).Tells s (step.events job s) := by
  cases alive : step.isAlive s.run.draft with
  | false =>
      rw [events_dead alive]
      cases step with
      | object step =>
          refine .after_draft ?_
          rw [if_neg (by simpa [isAlive] using alive)]
          exact .mute (.pure _) s
      | field step =>
          refine .after_draft ?_
          rw [if_pos (by simpa [isAlive] using alive)]
          exact .mute (.pure _) s
      | item step => exact .mute step.mute_advance s
  | true =>
      unfold events
      rw [if_pos alive]
      cases step with
      | object step => exact step.tells_events alive
      | field step => exact step.tells_events alive
      | item step => exact .mute step.mute_advance s

end GraphExec
