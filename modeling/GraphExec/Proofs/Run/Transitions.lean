import GraphExec.Proofs.Draft.Plan
import GraphExec.Proofs.Run.Outcome
import GraphExec.Proofs.Run.Ways
import Mathlib.Data.List.Forall2

/-!
# What a transition of a step does

A step that is still wanted goes on at its spot, completes its position, leaves it out, allocates
an object, or leaves the fields of an object to steps of their own. The root may also be given up.
-/

namespace GraphExec

variable {σ : Type}

/-! ### Spots -/

/-- The node of an object, once it is allocated. -/
def ObjectState.node? : ObjectState σ → Option NodeId
  | collect _ node => some node
  | awaitingArguments _ node => some node
  | _ => none

/-- Where an object is built: at its node once that is allocated, at its position until then. -/
def ObjectStep.spot (step : ObjectStep σ) : Spot :=
  match step.state.node?, step.target with
  | some node, _ => .node node
  | none, .root => .node Draft.root
  | none, .child position => .slot position.parent position.key

def Step.spot : Step σ → Spot
  | .object step => step.spot
  | .field step => .slot step.parent (.field step.key)
  | .item step => .slot step.position.parent step.position.key

/-- The node that an object is built at hangs at the position that it is built for. -/
def Step.Seated (draft : Draft) : Step σ → Prop
  | .object step => ∀ node, step.state.node? = some node →
      match step.target with
      | .root => node = Draft.root
      | .child position => draft.parent? node = some (position.parent, position.key)
  | _ => True

/-! ### Types of objects -/

/-- The type that is declared where an object is built. -/
def ObjectTarget.Declares (job : Job σ) (target : ObjectTarget σ) (type : TypeDefinition σ) :
    Prop :=
  ∃ position name, target = .child position ∧ position.type.nullable = .named name ∧
    job.schema.type? name = some type

/-- An object type that suits the place where an object is built: the root type of the operation,
the declared type, or a possible type of it. -/
def ObjectTarget.Suits (job : Job σ) (target : ObjectTarget σ) (type : ObjectType σ) : Prop :=
  match target with
  | .root => job.schema.rootType? job.operation.kind = some type
  | .child _ => target.Declares job (.object type) ∨
    ∃ declared, target.Declares job declared ∧
      job.schema.isPossibleType declared.name type.name = true

/-- The types that the building of an object has come to. -/
def ObjectState.Typed (job : Job σ) (target : ObjectTarget σ) : ObjectState σ → Prop
  | resolveType declared => target.Declares job declared
  | awaitingType declared => target.Declares job declared
  | typeResolved declared _ => target.Declares job declared
  | authorize type => target.Suits job type
  | awaitingAuthorization type => target.Suits job type
  | authorized type _ => target.Suits job type
  | awaitingReplacement => True
  | replaced _ => True
  | allocate type => target.Suits job type
  | collect type _ => target.Suits job type
  | awaitingArguments type _ => target.Suits job type

/-- A step goes on at its spot, in another state. -/
inductive Step.Stays (job : Job σ) : Step σ → Step σ → Prop
  | field {step : FieldStep σ} (state : FieldState σ) :
      Stays job (.field step) (.field { step with state })
  | item {step : ItemStep σ} (state : ItemState σ) :
      Stays job (.item step) (.item { step with state })
  | object {step : ObjectStep σ} {state : ObjectState σ}
      (typed : step.state.Typed job step.target → state.Typed job step.target)
      (node : state.node? = step.state.node?) :
      Stays job (.object step) (.object { step with state })
  | root {step : ObjectStep σ} {type : ObjectType σ} (state : step.state = .allocate type)
      (target : step.target = .root) :
      Stays job (.object step) (.object { step with state := .collect type Draft.root })

/-- The step that goes on, at once or after a wait. -/
def Progress.next? : Progress σ → Option (Step σ)
  | .again step => some step
  | .finished => none
  | .parked step _ _ => some step

/-! ### Tasks -/

/-- What is still to be done at a spot. -/
inductive Task (σ : Type) where
  /-- A step is ready, or held back. -/
  | awake (step : Step σ)
  /-- A step waits. -/
  | asleep (step : Step σ) (wait : Wait σ)
  /-- A step has been answered. -/
  | called (step : Step σ) (resumption : Resumption σ)
  /-- A value is being written. -/
  | written (node : NodeId) (key : PathSegment) (value : Value) (nonNull : Bool)

namespace Task

def spot : Task σ → Spot
  | awake step => step.spot
  | asleep step _ => step.spot
  | called step _ => step.spot
  | written node key _ _ => .slot node key

def step? : Task σ → Option (Step σ)
  | awake step => some step
  | _ => none

/-- The draft when the values among tasks are written. -/
def writes : List (Task σ) → Draft → Draft
  | [], draft => draft
  | written node key value nonNull :: rest, draft =>
    writes rest (draft.setLeaf node key value nonNull)
  | _ :: rest, draft => writes rest draft

end Task

/-- What a step is to do next. -/
def Progress.task? : Progress σ → Option (Task σ)
  | .again step => some (.awake step)
  | .finished => none
  | .parked step _ wait => some (.asleep step wait)

/-- A stage is left with another draft and more steps, which are held back or made ready. -/
structure Leaves (serial : Bool) (s t : Stage σ) (draft : Draft) (steps : List (Step σ)) :
    Prop where
  draft : t.run.draft = draft
  ready : t.run.ready = s.run.ready ++ if serial then [] else steps
  held : t.run.held = s.run.held ++ if serial then steps else []
  parked : t.run.parked = s.run.parked

namespace Leaves

variable {s t u : Stage σ} {draft : Draft} {steps : List (Step σ)} {serial : Bool}

theorem of_enters (enters : Enters s t draft steps) : Leaves false s t draft steps :=
  ⟨enters.draft, enters.ready, by simpa using enters.held, enters.parked⟩

theorem after_same (same : SameTree s t) (leaves : Leaves serial t u draft steps) :
    Leaves serial s u draft steps :=
  ⟨leaves.draft, same.ready ▸ leaves.ready, same.held ▸ leaves.held,
    leaves.parked.trans same.parked⟩

/-- The steps are among those of the run, wherever they are put. -/
theorem steps_perm (leaves : Leaves serial s t draft steps) :
    (t.run.ready ++ t.run.held).Perm (steps ++ (s.run.ready ++ s.run.held)) := by
  rw [leaves.ready, leaves.held]
  cases serial
  · have behind : (s.run.ready ++ steps).Perm (steps ++ s.run.ready) := List.perm_append_comm
    simpa using behind.append_right s.run.held
  · have behind : ((s.run.ready ++ s.run.held) ++ steps).Perm
        (steps ++ (s.run.ready ++ s.run.held)) := List.perm_append_comm
    simpa using behind

end Leaves

/-! ### Values that are due -/

/-- The transition of a step completes a position with a value, at a stage. -/
inductive Step.Due (job : Job σ) : Step σ → Stage σ → Position σ → ResolvedValue σ →
    Stage σ → Prop
  | field {step : FieldStep σ} {result : FieldResult σ} {s t : Stage σ} {value : ResolvedValue σ}
      (state : step.state = .resolved result)
      (settled : (Engine.settle job (step.position.path s.run.draft) result).Gives s value t) :
      Due job (.field step) s step.position value t
  | item {step : ItemStep σ} {s : Stage σ} {value : ResolvedValue σ}
      (state : step.state = .settled value) : Due job (.item step) s step.position value s
  | object {step : ObjectStep σ} {position : Position σ} {s t : Stage σ} {value : ResolvedValue σ}
      (target : step.target = .child position) (fails : step.Fails job s value t) :
      Due job (.object step) s position value t

/-- The transition of a step finds that a directive leaves its position out. -/
inductive Step.Skips (job : Job σ) : Step σ → Stage σ → Position σ → Stage σ → Prop
  | field {step : FieldStep σ} {cursor : DirectiveCursor σ} {s t : Stage σ}
      (state : step.state = .runDirectives cursor)
      (skipped : (cursor.advance job step.site.owner (step.position.path s.run.draft)).Gives s
        .skipped t) :
      Skips job (.field step) s step.position t
  | item {step : ItemStep σ} {cursor : DirectiveCursor σ} {item : ResolvedValue σ} {s t : Stage σ}
      (state : step.state = .runDirectives cursor item)
      (skipped : (cursor.advance job step.position.site.owner
        (step.position.path s.run.draft)).Gives s .skipped t) :
      Skips job (.item step) s step.position t

/-! ### Objects -/

/-- What is to be done for a group of field nodes, if the field is known. -/
def ObjectStep.launched? (step : ObjectStep σ) (job : Job σ) (type : ObjectType σ) (node : NodeId)
    (entry : String × FieldGroup) : Option (Task σ) :=
  if entry.2.first.name = "__typename" then
    some (.written node (.field entry.1) (.string type.name) false)
  else
    (Fields.get? type.fields entry.2.first.name).map fun field =>
      .awake (.field (FieldStep.new job.schema node entry.1
        { typeName := type.name, field, group := entry.2, owner := step.subject }))

/-- What is to be done for groups of field nodes. -/
def ObjectStep.Launched (step : ObjectStep σ) (job : Job σ) (type : ObjectType σ) (node : NodeId)
    (groups : Groups) (below : List (Task σ)) : Prop :=
  List.Forall₂ (fun entry task => step.launched? job type node entry = some task) groups below

/-- What is launched for a group of field nodes. -/
theorem ObjectStep.launched?_eq {job : Job σ} {step : ObjectStep σ} {type : ObjectType σ} {node : NodeId}
    {entry : String × FieldGroup} {task : Task σ}
    (found : step.launched? job type node entry = some task) :
    (entry.2.first.name = "__typename" ∧
      task = .written node (.field entry.1) (.string type.name) false) ∨
    (entry.2.first.name ≠ "__typename" ∧ ∃ field,
      Fields.get? type.fields entry.2.first.name = some field ∧
      task = .awake (.field (FieldStep.new job.schema node entry.1
        { typeName := type.name, field, group := entry.2, owner := step.subject }))) := by
  unfold launched? at found
  split at found
  · rename_i typename
    injection found with found
    exact .inl ⟨typename, found.symm⟩
  · rename_i other
    obtain ⟨field, known, rfl⟩ := Option.map_eq_some_iff.mp found
    exact .inr ⟨other, field, known, rfl⟩

/-- What the transition of a step that is still wanted does. -/
inductive Step.Moves (job : Job σ) : Step σ → Stage σ → Progress σ → Stage σ → Prop
  | passes {step next : Step σ} {s t : Stage σ} {progress : Progress σ}
      (goes : progress.next? = some next) (stays : step.Stays job next) (same : SameTree s t) :
      Moves job step s progress t
  | completes {step : Step σ} {s u t : Stage σ} {position : Position σ} {value : ResolvedValue σ}
      (due : step.Due job s position value u) (same : SameTree s u)
      (finishes : position.Finishes job u value t) : Moves job step s .finished t
  | skips {step : Step σ} {s u t : Stage σ} {position : Position σ}
      (skips : step.Skips job s position u) (same : SameTree s u)
      (enters : Enters u t (u.run.draft.skip position.parent position.key) []) :
      Moves job step s .finished t
  | allocates {step : ObjectStep σ} {s t : Stage σ} {type : ObjectType σ} {position : Position σ}
      (state : step.state = .allocate type) (target : step.target = .child position)
      (enters : Enters s t (s.run.draft.newObject position.parent position.key
        step.subject.value position.nonNull).2 []) :
      Moves job (.object step) s
        (.again (.object { step with state := .collect type s.run.draft.nodes.size })) t
  | collects {step : ObjectStep σ} {s u t : Stage σ} {type : ObjectType σ} {node : NodeId}
      {grouping : Grouping} {below : List (Task σ)} (state : step.state = .collect type node)
      (grouped : ((step.grouper job type (s.run.draft.path node)).group step.selections).Gives s
        (.complete grouping) u)
      (same : SameTree s u) (launched : step.Launched job type node grouping.groups below)
      (leaves : Leaves step.serial u t
        (Task.writes below (u.run.draft.setKeys node grouping.groups.keys))
        (below.filterMap Task.step?)) :
      Moves job (.object step) s .finished t
  | fails {step : ObjectStep σ} {s t : Stage σ} {value : ResolvedValue σ} {u : Stage σ}
      (target : step.target = .root) (spot : step.spot = .node Draft.root)
      (fails : step.Fails job s value u) (enters : Enters s t s.run.draft.nullData []) :
      Moves job (.object step) s .finished t

open Engine

variable {job : Job σ} {s t : Stage σ} {progress : Progress σ}

/-! ### Steps that go on -/

theorem Step.Stays.spot {step next : Step σ} (stays : step.Stays job next) :
    next.spot = step.spot := by
  cases stays with
  | field _ => rfl
  | item _ => rfl
  | object _ node =>
      show ObjectStep.spot _ = ObjectStep.spot _
      unfold ObjectStep.spot
      rw [node]
  | root state target =>
      show Spot.node Draft.root = ObjectStep.spot _
      unfold ObjectStep.spot
      rw [state, target]
      rfl

theorem Step.Stays.seated {step next : Step σ} (stays : step.Stays job next) {draft : Draft}
    (seated : step.Seated draft) : next.Seated draft := by
  cases stays with
  | field _ => trivial
  | item _ => trivial
  | object _ node => exact fun other here => seated other (node ▸ here)
  | @root step type state target =>
      intro other here
      injection here with here
      show match step.target with
        | .root => other = Draft.root
        | .child position => draft.parent? other = some (position.parent, position.key)
      rw [target]
      exact here.symm

/-! ### Fields -/

theorem FieldStep.Way.moves {step : FieldStep σ} (way : step.Way job s progress t) :
    Step.Moves job (.field step) s progress t := by
  cases way with
  | directs _ directed | passes _ directed | stops _ directed | awaits _ directed =>
      exact .passes rfl (.field _) (DirectiveCursor.keeps_advance _ _ _ _ _ _ _ directed)
  | skips state directed skipped =>
      obtain rfl := gives_modifyDraft.mp skipped
      exact .skips (.field state directed) (DirectiveCursor.keeps_advance _ _ _ _ _ _ _ directed)
        ⟨rfl, (List.append_nil _).symm, rfl, rfl⟩
  | finds _ looked | asks _ looked =>
      exact .passes rfl (.field _) (step.site.keeps_lookUpArguments job _ _ _ looked)
  | takes _ | fails _ => exact .passes rfl (.field _) (.refl s)
  | resolves _ resolved =>
      exact .passes rfl (.field _) (step.site.keeps_resolve job _ _ _ _ _ _ resolved)
  | completes state settled completed =>
      exact .completes (.field state settled) (keeps_settle job _ _ _ _ _ settled)
        (Position.finishes_of_done completed)
  | waits _ settled completed =>
      obtain ⟨-, rfl⟩ := Position.complete_waiting completed
      exact .passes rfl (.field _) (keeps_settle job _ _ _ _ _ settled)
  | replaces _ settled completed =>
      obtain ⟨_, _, -, answered, -⟩ := Position.complete_replaced completed
      have same : SameTree s _ := keeps_settle job _ _ _ _ _ settled
      exact .passes rfl (.field _) (same.trans (keeps_call _ _ _ _ answered))

/-! ### Items -/

theorem ItemStep.Way.moves {step : ItemStep σ} (way : step.Way job s progress t) :
    Step.Moves job (.item step) s progress t := by
  cases way with
  | directs _ directed | passes _ directed | stops _ directed | awaits _ directed =>
      exact .passes rfl (.item _) (DirectiveCursor.keeps_advance _ _ _ _ _ _ _ directed)
  | skips state directed skipped =>
      obtain rfl := gives_modifyDraft.mp skipped
      exact .skips (.item state directed) (DirectiveCursor.keeps_advance _ _ _ _ _ _ _ directed)
        ⟨rfl, (List.append_nil _).symm, rfl, rfl⟩
  | waits _ settled | settles _ settled _ =>
      exact .passes rfl (.item _) (keeps_settle job _ _ _ _ _ settled)
  | completes state completed =>
      exact .completes (.item state) (.refl s) (Position.finishes_of_done completed)
  | defers _ completed =>
      obtain ⟨-, rfl⟩ := Position.complete_waiting completed
      exact .passes rfl (.item _) (.refl _)
  | replaces _ completed =>
      obtain ⟨_, _, -, answered, -⟩ := Position.complete_replaced completed
      exact .passes rfl (.item _) (keeps_call _ _ _ _ answered)

/-! ### Objects -/

namespace ObjectStep

variable {step : ObjectStep σ}

/-- A step that has not allocated its object is at its position. -/
def Early (step : ObjectStep σ) : Prop :=
  step.spot = match step.target with
    | .root => .node Draft.root
    | .child position => .slot position.parent position.key

theorem early_of_state (no_node : step.state.node? = none) : step.Early := by
  unfold Early spot
  rw [no_node]
  cases step.target <;> rfl

theorem enters_failRoot {value : ResolvedValue σ} {a : Unit}
    (h : (failRoot job value).Gives s a t) : Enters s t s.run.draft.nullData [] := by
  have nulls : ∀ {u : Stage σ}, SameTree s u →
      (modifyDraft Draft.nullData : Engine σ Unit).Gives u a t →
      Enters s t s.run.draft.nullData [] := by
    intro u same nulled
    obtain rfl := gives_modifyDraft.mp nulled
    exact .after_same same ⟨by rw [same.draft], (List.append_nil _).symm, rfl, rfl⟩
  unfold failRoot at h
  split at h
  · obtain ⟨_, u, reported, nulled⟩ := gives_bind.mp h
    exact nulls (Engine.keeps_report _ _ _ _ reported) nulled
  · obtain ⟨_, u, reported, -⟩ := gives_bind.mp h
    exact absurd reported not_gives_throw
  · obtain ⟨answer, u, answered, h⟩ := gives_bind.mp h
    have same : SameTree _ _ := keeps_call _ _ _ _ answered
    split at h
    · obtain ⟨_, v, reported, nulled⟩ := gives_bind.mp h
      exact nulls (same.trans (Engine.keeps_report _ _ _ _ reported)) nulled
    · obtain ⟨_, v, reported, nulled⟩ := gives_bind.mp h
      exact nulls (same.trans (Engine.keeps_report _ _ _ _ reported)) nulled
    · exact nulls same h
  · exact nulls (.refl s) h

/-- A possible type of the declared one suits. -/
theorem suits_possible {declared : TypeDefinition σ} {name : String} {type : ObjectType σ}
    {target : ObjectTarget σ} (possible : possibleType? job declared name = some type)
    (declares : target.Declares job declared) : target.Suits job type := by
  obtain ⟨-, is_possible⟩ := Option.filter_eq_some_iff.mp possible
  have child := declares
  obtain ⟨position, _, rfl, -⟩ := child
  exact .inr ⟨declared, declares, is_possible⟩

/-! ### Gathering -/

theorem launch_leaves {type : ObjectType σ} {node : NodeId} {key : String} {group : FieldGroup}
    {a : Unit} (h : (step.launch job type node key group).Gives s a t) :
    ∃ task, step.launched? job type node (key, group) = some task ∧
      Leaves step.serial s t (Task.writes [task] s.run.draft) ([task].filterMap Task.step?) := by
  unfold launch at h
  unfold launched?
  simp only at h
  split at h
  · rename_i typename
    rw [if_pos typename]
    obtain rfl := gives_modifyDraft.mp h
    exact ⟨_, rfl, rfl, by simp [Task.step?], by simp [Task.step?], rfl⟩
  · rename_i not_typename
    rw [if_neg not_typename]
    split at h
    · exact absurd h not_gives_throw
    · rename_i field known
      rw [known]
      refine ⟨_, rfl, ?_⟩
      cases serial : step.serial <;> simp only [serial, if_true, if_false, Bool.false_eq_true] at h
      · obtain rfl := gives_enqueue.mp h
        exact ⟨rfl, rfl, (List.append_nil _).symm, rfl⟩
      · obtain rfl := gives_hold.mp h
        exact ⟨rfl, (List.append_nil _).symm, rfl, rfl⟩

end ObjectStep

theorem Task.writes_cons (task : Task σ) (rest : List (Task σ)) (draft : Draft) :
    Task.writes (task :: rest) draft = Task.writes rest (Task.writes [task] draft) := by
  cases task <;> rfl

namespace ObjectStep

variable {step : ObjectStep σ}

theorem launchAll_leaves {type : ObjectType σ} {node : NodeId} :
    ∀ {groups : Groups} {s t : Stage σ} {a : Unit},
      (step.launchAll job type node groups).Gives s a t →
      ∃ below, step.Launched job type node groups below ∧
        Leaves step.serial s t (Task.writes below s.run.draft) (below.filterMap Task.step?) := by
  intro groups
  induction groups with
  | nil =>
      intro s t a h
      obtain ⟨-, rfl⟩ := gives_pure.mp h
      exact ⟨[], .nil, rfl, by simp, by simp, rfl⟩
  | cons entry rest ih =>
      intro s t a h
      obtain ⟨key, group⟩ := entry
      obtain ⟨_, u, launched, others⟩ := gives_bind.mp h
      obtain ⟨task, found, first⟩ := launch_leaves launched
      obtain ⟨below, all, behind⟩ := ih others
      have split : (task :: below).filterMap Task.step? =
          [task].filterMap Task.step? ++ below.filterMap Task.step? :=
        List.filterMap_append (l := [task])
      refine ⟨task :: below, .cons found all, ?_, ?_, ?_, behind.parked.trans first.parked⟩
      · rw [Task.writes_cons, ← first.draft]
        exact behind.draft
      · rw [behind.ready, first.ready, split]
        cases step.serial <;> simp
      · rw [behind.held, first.held, split]
        cases step.serial <;> simp

/-! ### Ways -/

/-- An object that gives way has not been allocated. -/
theorem Fails.no_node {value : ResolvedValue σ} {u : Stage σ} (fails : step.Fails job s value u) :
    step.state.node? = none := by
  cases fails with
  | mistyped state _ | refused state | unauthorized state _ | replaced state _ =>
      rw [state]
      rfl

/-- Nothing of the tree is touched before an object gives way. -/
theorem Fails.same {value : ResolvedValue σ} {u : Stage σ} (fails : step.Fails job s value u) :
    SameTree s u := by
  cases fails with
  | mistyped _ settled | unauthorized _ settled =>
      have same : SameTree _ u := keeps_settle job _ _ _ _ _ settled
      exact ⟨same.draft, same.ready, same.held, same.parked⟩
  | refused _ => exact ⟨rfl, rfl, rfl, rfl⟩
  | replaced _ settled => exact keeps_settle job _ _ _ _ _ settled

theorem Fails.spot_root {value : ResolvedValue σ} {u : Stage σ} (fails : step.Fails job s value u)
    (target : step.target = .root) : step.spot = .node Draft.root := by
  rw [early_of_state fails.no_node, target]

theorem GivesWay.moves {value : ResolvedValue σ} {u : Stage σ} (fails : step.Fails job s value u)
    (way : step.GivesWay job value u progress t) : Step.Moves job (.object step) s progress t := by
  have same := fails.same
  cases way with
  | root target failed =>
      have entered := enters_failRoot failed
      rw [same.draft] at entered
      exact .fails target (fails.spot_root target) fails (.after_same same entered)
  | completes target completed =>
      exact .completes (.object target fails) same (Position.finishes_of_done completed)
  | waits target completed =>
      obtain ⟨-, rfl⟩ := Position.complete_waiting completed
      exact .passes rfl (.object (fun _ => trivial) fails.no_node.symm) same
  | replaces target completed =>
      obtain ⟨_, _, -, answered, -⟩ := Position.complete_replaced completed
      exact .passes rfl (.object (fun _ => trivial) fails.no_node.symm)
        (same.trans (keeps_call _ _ _ _ answered))

theorem Way.moves (way : step.Way job s progress t) :
    Step.Moves job (.object step) s progress t := by
  have passes {state : ObjectState σ} {u : Stage σ} {other : Progress σ}
      (goes : other.next? = some (.object { step with state }))
      (typed : step.state.Typed job step.target → state.Typed job step.target)
      (node : state.node? = step.state.node?) (same : SameTree s u) :
      Step.Moves job (.object step) s other u := .passes goes (.object typed node) same
  have told (event : Event) : SameTree s ⟨s.run, s.world.tell event⟩ := ⟨rfl, rfl, rfl, rfl⟩
  cases way with
  | types state answered | asksType state answered
  | decides state _ answered | asksPermission state _ answered =>
      exact passes rfl (by rw [state]; exact id) (by rw [state]; rfl)
        ((told _).trans (keeps_call _ _ _ _ answered))
  | takesType state possible =>
      exact passes rfl (by rw [state]; exact suits_possible possible) (by rw [state]; rfl) (told _)
  | permits state _ => exact passes rfl (by rw [state]; exact id) (by rw [state]; rfl) (.refl s)
  | allows state => exact passes rfl (by rw [state]; exact id) (by rw [state]; rfl) (told _)
  | fails fails gives_way => exact gives_way.moves fails
  | allocates state allocated =>
      unfold allocate at allocated
      split at allocated
      · rename_i target
        obtain ⟨rfl, rfl⟩ := gives_pure.mp allocated
        exact .passes rfl (.root state target) (.refl _)
      · rename_i position target
        obtain ⟨rfl, rfl⟩ := gives_allocate.mp allocated
        exact .allocates state target ⟨rfl, (List.append_nil _).symm, rfl, rfl⟩
  | asks state grouped =>
      exact passes rfl (by rw [state]; exact id) (by rw [state]; rfl)
        (Grouper.keeps_group _ _ _ _ _ grouped)
  | collects state grouped launched =>
      obtain ⟨below, all, leaves⟩ := launchAll_leaves launched
      exact .collects state grouped (Grouper.keeps_group _ _ _ _ _ grouped) all
        ⟨leaves.draft, leaves.ready, leaves.held, leaves.parked⟩

end ObjectStep

/-! ### Steps -/

/-- A step that is not wanted any more is dropped; another one moves. -/
theorem Step.advance_cases {step : Step σ} (h : (step.advance job).Gives s progress t) :
    (step.isAlive s.run.draft = false ∧ progress = .finished ∧ t = s) ∨
      (step.isAlive s.run.draft = true ∧ step.Moves job s progress t) := by
  cases Step.way h with
  | dropped dead => exact .inl ⟨dead, rfl, rfl⟩
  | object alive way => exact .inr ⟨alive, way.moves⟩
  | field alive way => exact .inr ⟨by simpa [isAlive, Draft.Alive] using alive, way.moves⟩
  | item alive way => exact .inr ⟨by simpa [isAlive, Draft.Alive] using alive, way.moves⟩

/-- No transition counts parked steps; that is for the schedule to do. -/
theorem Step.advance_parked {step : Step σ} (h : (step.advance job).Gives s progress t) :
    t.run.parked = s.run.parked := by
  rcases step.advance_cases h with ⟨-, -, rfl⟩ | ⟨-, moves⟩
  · rfl
  · cases moves with
    | passes _ _ same => exact same.parked
    | completes _ same finishes =>
        obtain ⟨_, _, enters⟩ := finishes
        exact enters.parked.trans same.parked
    | skips _ same enters => exact enters.parked.trans same.parked
    | allocates _ _ enters => exact enters.parked
    | collects _ _ same _ leaves => exact leaves.parked.trans same.parked
    | fails _ _ _ enters => exact enters.parked

/-- No transition takes up what is held back; that is for the schedule to do. -/
theorem Step.advance_held {step : Step σ} (h : (step.advance job).Gives s progress t) :
    ∃ more, t.run.held = s.run.held ++ more := by
  have kept {u v : Stage σ} (same : v.run.held = u.run.held) :
      ∃ more, v.run.held = u.run.held ++ more := ⟨[], same.trans (List.append_nil _).symm⟩
  rcases step.advance_cases h with ⟨-, -, rfl⟩ | ⟨-, moves⟩
  · exact kept rfl
  · cases moves with
    | passes _ _ same => exact kept same.held
    | completes _ same finishes =>
        obtain ⟨_, _, enters⟩ := finishes
        exact kept (enters.held.trans same.held)
    | skips _ same enters => exact kept (enters.held.trans same.held)
    | allocates _ _ enters => exact kept enters.held
    | collects _ _ same _ leaves => exact ⟨_, same.held ▸ leaves.held⟩
    | fails _ _ _ enters => exact kept (by simpa using enters.held)

end GraphExec
