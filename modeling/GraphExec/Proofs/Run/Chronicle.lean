import GraphExec.Proofs.Run.Stories

/-!
# The stories of a run

The steps of a run that are left, ready, waiting or answered, are each as far as the story of its
position tells. Two steps never carry on the story of one position: at a live node they are at spots
of their own, nothing is done about a dead one, and whoever begins a story does so at a node that is
new, or gathers the fields of an object once.
-/

namespace GraphExec

open Engine

variable {σ : Type} {job : Job σ} {seen : Sight σ → Prop}

/-! ### Where stories come from -/

/-- A field is one that was launched when the fields of the object at a node were gathered. -/
def FieldSite.Launched (job : Job σ) (seen : Sight σ → Prop) (site : FieldSite σ) (node : NodeId)
    (key : String) : Prop :=
  ∃ (object : ObjectStep σ) (type : ObjectType σ) (s : Stage σ) (groups : Groups)
    (below : List (Task σ)), object.Gathered job seen type node s groups below ∧
    (key, site.group) ∈ groups ∧ site.group.first.name ≠ "__typename" ∧
    site.owner = object.subject ∧ site.typeName = type.name ∧
    Fields.get? type.fields site.group.first.name = some site.field

/-- A value is an item of the list that a position of a field was completed with, at a node. -/
def FieldSite.Lists (job : Job σ) (seen : Sight σ → Prop) (site : FieldSite σ) (node : NodeId)
    (n : Nat) (item : ResolvedValue σ) : Prop :=
  ∃ (step : Step σ) (position : Position σ) (s : Stage σ) (value : ResolvedValue σ)
    (itemType : TypeRef) (cursor : DirectiveCursor σ) (items : List (ResolvedValue σ)),
    step.Completed job seen position s value (.items itemType cursor items) ∧
    position.site = site ∧ s.run.draft.nodes.size = node ∧ items[n]? = some item

/-! ### What steps know of stories -/

/-- What is known of a story: of which fields it is, and its acts. -/
abbrev Tale (σ : Type) := Spot → List (FieldSite σ × PositionAct σ)

/-- The acts at a spot. -/
def Tale.acts (tale : Tale σ) (spot : Spot) : List (PositionAct σ) := (tale spot).map (·.2)

/-- The story at a spot is of a field. -/
def Tale.IsOf (tale : Tale σ) (spot : Spot) (site : FieldSite σ) : Prop :=
  ∀ entry ∈ tale spot, entry.1 = site

namespace Step

/-- A step is as far as the story of its spot tells. The stories of the fields of an object are not
begun before they have been gathered. -/
def Told (job : Job σ) (seen : Sight σ → Prop) (tale : Tale σ) : Step σ → Prop
  | .object step => ∀ node, step.spot = .node node → ∀ key, tale (.slot node key) = []
  | .field step =>
    let spot := (Step.field step).spot
    step.site.Launched job seen step.parent step.key ∧ tale.IsOf spot step.site ∧
      step.Told job seen (tale.acts spot)
  | .item step =>
    let spot := (Step.item step).spot
    ∃ n item, step.position.key = .index n ∧
      step.position.site.Lists job seen step.position.parent n item ∧
      tale.IsOf spot step.position.site ∧ step.Told job seen item (tale.acts spot)

def Awaits (seen : Sight σ → Prop) (tale : Tale σ) (wait : Wait σ) : Step σ → Prop
  | .object _ => True
  | .field step => step.Awaits seen (tale.acts (Step.field step).spot) wait
  | .item step => step.Awaits seen (tale.acts (Step.item step).spot) wait

def Hears (job : Job σ) (seen : Sight σ → Prop) (tale : Tale σ) (resumption : Resumption σ) :
    Step σ → Prop
  | .object _ => True
  | .field step => step.Hears job seen (tale.acts (Step.field step).spot) resumption
  | .item step => step.Hears seen (tale.acts (Step.item step).spot) resumption

variable {step : Step σ} {tale : Tale σ}

theorem Awaits.polled {wait rest : Wait σ} {s t : Stage σ} (awaits : step.Awaits seen tale wait)
    (heard : seen (.polled wait s)) (polls : wait.poll s = (.pending rest, t)) :
    step.Awaits seen tale rest := by
  cases step with
  | object step => trivial
  | field step => exact FieldStep.Awaits.polled awaits heard polls
  | item step => exact ItemStep.Awaits.polled awaits heard polls

theorem Awaits.answered {wait : Wait σ} {resumption : Resumption σ} {s t : Stage σ}
    (awaits : step.Awaits seen tale wait) (heard : seen (.polled wait s))
    (polls : wait.poll s = (.ready resumption, t)) : step.Hears job seen tale resumption := by
  cases step with
  | object step => trivial
  | field step => exact FieldStep.Awaits.answered awaits heard polls
  | item step => exact ItemStep.Awaits.answered awaits heard polls

/-- A step that is handed what it has waited for is as far as before. -/
theorem resume_told {next : Step σ} {resumption : Resumption σ} (told : step.Told job seen tale)
    (hears : step.Hears job seen tale resumption) (resumes : step.resume resumption = .ok next) :
    next.Told job seen tale := by
  have stays : step.Stays job next := Step.resume_stays resumes
  have spot := stays.spot
  cases Step.resumed resumes with
  | object resumed => exact fun id here => told id (spot.symm.trans here)
  | field resumed =>
      have as_far := resumed.told told.2.2 hears
      cases stays with
      | field state => exact ⟨told.1, told.2.1, as_far⟩
  | item resumed =>
      obtain ⟨n, item, key, lists, of_site, told⟩ := told
      have as_far := resumed.told told hears
      cases stays with
      | item state => exact ⟨n, item, key, lists, of_site, as_far⟩

end Step

namespace Task

/-- A task is as far as the story of its spot tells. -/
def Told (job : Job σ) (seen : Sight σ → Prop) (tale : Tale σ) : Task σ → Prop
  | awake step => step.Told job seen tale
  | asleep step wait => step.Told job seen tale ∧ step.Awaits seen tale wait
  | called step resumption => step.Told job seen tale ∧ step.Hears job seen tale resumption
  | written _ _ _ _ => True

/-- A tale is the same as another one about a spot and, if it is a node, what is below. -/
def AgreesAt (spot : Spot) (tale tale' : Tale σ) : Prop :=
  ∀ node key, spot = .slot node key ∨ spot = .node node →
    tale' (.slot node key) = tale (.slot node key)

theorem Told.congr {task : Task σ} {tale tale' : Tale σ} (told : task.Told job seen tale)
    (agrees : AgreesAt task.spot tale tale') : task.Told job seen tale' := by
  have by_step : ∀ {step : Step σ}, AgreesAt step.spot tale tale' →
      (step.Told job seen tale → step.Told job seen tale') ∧
      (∀ wait, step.Awaits seen tale wait → step.Awaits seen tale' wait) ∧
      ∀ resumption, step.Hears job seen tale resumption → step.Hears job seen tale' resumption := by
    intro step agrees
    cases step with
    | object step =>
        refine ⟨fun told node here key => ?_, fun _ => id, fun _ => id⟩
        exact (agrees node key (.inr here)).trans (told node here key)
    | field step =>
        have same : tale' (Step.field step).spot = tale (Step.field step).spot :=
          agrees _ _ (.inl rfl)
        simp only [Step.Told, Step.Awaits, Step.Hears, Tale.IsOf, Tale.acts, same]
        exact ⟨id, fun _ => id, fun _ => id⟩
    | item step =>
        have same : tale' (Step.item step).spot = tale (Step.item step).spot :=
          agrees _ _ (.inl rfl)
        simp only [Step.Told, Step.Awaits, Step.Hears, Tale.IsOf, Tale.acts, same]
        exact ⟨id, fun _ => id, fun _ => id⟩
  cases task with
  | awake step => exact (by_step agrees).1 told
  | asleep step wait => exact ⟨(by_step agrees).1 told.1, (by_step agrees).2.1 wait told.2⟩
  | called step resumption =>
      exact ⟨(by_step agrees).1 told.1, (by_step agrees).2.2 resumption told.2⟩
  | written node key value nonNull => trivial

end Task

/-! ### Stories of transitions -/

section Stories

variable {deeds : List (Step σ × Stage σ)} {step : Step σ} {s : Stage σ} {spot : Spot}

theorem story_append (one other : List (Step σ × Stage σ)) :
    story job (one ++ other) spot = story job one spot ++ story job other spot :=
  List.filterMap_append

theorem story_concat : story job (deeds ++ [(step, s)]) spot =
    story job deeds spot ++ (if step.spot = spot then step.act? job s else none).toList := by
  rw [story_append]
  congr 1

/-- A transition of a step carries on no story but that of its spot. -/
theorem story_elsewhere (elsewhere : step.spot ≠ spot) :
    story job (deeds ++ [(step, s)]) spot = story job deeds spot := by
  rw [story_concat, if_neg elsewhere]
  exact List.append_nil _

theorem story_here :
    story job (deeds ++ [(step, s)]) step.spot =
      story job deeds step.spot ++ (step.act? job s).toList := by
  rw [story_concat, if_pos rfl]

/-- A transition that does nothing about its position leaves all stories as they are. -/
theorem story_quiet (quiet : step.act? job s = none) :
    story job (deeds ++ [(step, s)]) spot = story job deeds spot := by
  rw [story_concat, quiet, ite_self]
  exact List.append_nil _

theorem Tale.acts_story_here :
    Tale.acts (story job (deeds ++ [(step, s)])) step.spot =
      Tale.acts (story job deeds) step.spot ++ ((step.act? job s).map (·.2)).toList := by
  unfold Tale.acts
  rw [story_here, List.map_append]
  cases step.act? job s <;> rfl

theorem Tale.IsOf.concat {site : FieldSite σ} (of_site : Tale.IsOf (story job deeds) step.spot site)
    (own : ∀ entry, step.act? job s = some entry → entry.1 = site) :
    Tale.IsOf (story job (deeds ++ [(step, s)])) step.spot site := by
  intro entry mem
  rw [story_here] at mem
  rcases List.mem_append.mp mem with mem | mem
  · exact of_site entry mem
  · exact own entry (Option.mem_toList.mp mem)

end Stories

/-! ### Transitions -/

section Transitions

variable {deeds : List (Step σ × Stage σ)} {s t : Stage σ} {progress : Progress σ}

/-- A step that is not wanted any more does nothing about its position. -/
theorem Step.act?_dead {step : Step σ} (dead : step.isAlive s.run.draft = false) :
    step.act? job s = none := by
  unfold act?
  rw [dead]
  rfl

theorem Step.act?_object {step : ObjectStep σ} : (Step.object step).act? job s = none := by
  unfold act?
  exact ite_self _

theorem FieldStep.acts_alive {step : FieldStep σ}
    (alive : (Step.field step).isAlive s.run.draft = true) :
    Tale.acts (story job (deeds ++ [(.field step, s)])) (Step.field step).spot =
      Tale.acts (story job deeds) (Step.field step).spot ++ (step.act? job s).toList := by
  have act : ((Step.field step).act? job s).map (·.2) = step.act? job s := by
    unfold Step.act?
    rw [if_pos alive]
    show ((step.act? job s).map (step.site, ·)).map (·.2) = _
    cases step.act? job s <;> rfl
  rw [Tale.acts_story_here, act]

theorem ItemStep.acts_alive {step : ItemStep σ}
    (alive : (Step.item step).isAlive s.run.draft = true) :
    Tale.acts (story job (deeds ++ [(.item step, s)])) (Step.item step).spot =
      Tale.acts (story job deeds) (Step.item step).spot ++ (step.act? job s).toList := by
  have act : ((Step.item step).act? job s).map (·.2) = step.act? job s := by
    unfold Step.act?
    rw [if_pos alive]
    show ((step.act? job s).map (step.position.site, ·)).map (·.2) = _
    cases step.act? job s <;> rfl
  rw [Tale.acts_story_here, act]

/-- A field that is still wanted goes on as its story tells. -/
theorem FieldStep.advance_leaves {step : FieldStep σ}
    (told : (Step.field step).Told job seen (story job deeds))
    (made : seen (.advanced (.field step) s))
    (alive : (Step.field step).isAlive s.run.draft = true)
    (gives : ((Step.field step).advance job).Gives s progress t) :
    Leaves job seen (Tale.acts (story job (deeds ++ [(.field step, s)])) (Step.field step).spot) step
      progress := by
  rw [acts_alive alive]
  cases Step.way gives with
  | dropped dead => cases alive.symm.trans dead
  | field _ way => exact way.leaves told.2.2 made

/-- An item that is still wanted goes on as its story tells. -/
theorem ItemStep.advance_leaves {step : ItemStep σ} {item : ResolvedValue σ}
    (told : step.Told job seen item (Tale.acts (story job deeds) (Step.item step).spot))
    (alive : (Step.item step).isAlive s.run.draft = true)
    (gives : ((Step.item step).advance job).Gives s progress t) :
    Leaves job seen item
      (Tale.acts (story job (deeds ++ [(.item step, s)])) (Step.item step).spot) step progress := by
  rw [acts_alive alive]
  cases Step.way gives with
  | dropped dead => cases alive.symm.trans dead
  | item _ way => exact way.leaves told

/-- What is done about a position is done for the field that its step is there for. -/
theorem Step.act?_field {step : FieldStep σ} :
    ∀ entry, (Step.field step).act? job s = some entry → entry.1 = step.site := by
  intro entry acts
  unfold act? at acts
  split at acts
  · obtain ⟨act, -, rfl⟩ := Option.map_eq_some_iff.mp acts
    rfl
  · cases acts

theorem Step.act?_item {step : ItemStep σ} :
    ∀ entry, (Step.item step).act? job s = some entry → entry.1 = step.position.site := by
  intro entry acts
  unfold act? at acts
  split at acts
  · obtain ⟨act, -, rfl⟩ := Option.map_eq_some_iff.mp acts
    rfl
  · cases acts

/-- An object that goes on has nothing told of it, and none of its fields has a story yet. -/
theorem ObjectStep.advance_goes_on {step : ObjectStep σ}
    (told : (Step.object step).Told job seen (story job deeds))
    (moves : (Step.object step).Moves job s progress t)
    (fresh : ∀ key, story job deeds (.slot s.run.draft.nodes.size key) = []) :
    ∀ task, progress.task? = some task →
      task.Told job seen (story job (deeds ++ [(.object step, s)])) := by
  intro task goes
  have quiet : ∀ spot, story job (deeds ++ [(.object step, s)]) spot = story job deeds spot :=
    fun _ => story_quiet Step.act?_object
  have by_next {next : ObjectStep σ} (own : progress.next? = some (.object next))
      (told : (Step.object next).Told job seen (story job (deeds ++ [(.object step, s)]))) :
      task.Told job seen (story job (deeds ++ [(.object step, s)])) := by
    cases progress with
    | again other =>
        injection goes with goes
        injection own with own
        subst goes own
        exact told
    | finished => cases goes
    | parked other depth wait =>
        injection goes with goes
        injection own with own
        subst goes own
        exact ⟨told, trivial⟩
  cases moves with
  | passes own stays same =>
      have spot := stays.spot
      cases stays with
      | object typed node | root state target =>
          exact by_next own fun id here key =>
            (quiet _).trans (told id (spot.symm.trans here) key)
  | allocates state target enters =>
      -- The object gets a node that is new, of which nothing has been told.
      refine by_next rfl fun id here key => (quiet _).trans ?_
      injection here with here
      exact here ▸ fresh key
  | completes due same finishes => cases goes
  | skips skips same enters => cases goes
  | collects state grouped same launched leaves => cases goes
  | fails target spot fails enters => cases goes

theorem FieldStep.advance_goes_on {step : FieldStep σ}
    (told : (Step.field step).Told job seen (story job deeds))
    (made : seen (.advanced (.field step) s)) (alive : (Step.field step).isAlive s.run.draft = true)
    (gives : ((Step.field step).advance job).Gives s progress t) :
    ∀ task, progress.task? = some task →
      task.Told job seen (story job (deeds ++ [(.field step, s)])) := by
  intro task goes
  have leaves := FieldStep.advance_leaves told made alive gives
  have of_site := told.2.1.concat (s := s) Step.act?_field
  cases progress with
  | again next =>
      injection goes with goes
      subst goes
      cases next with
      | field next =>
          obtain ⟨⟨state, rfl⟩, as_far⟩ := leaves
          exact ⟨told.1, of_site, as_far⟩
      | _ => exact leaves.elim
  | finished => cases goes
  | parked next depth wait =>
      injection goes with goes
      subst goes
      cases next with
      | field next =>
          obtain ⟨⟨state, rfl⟩, as_far, awaits⟩ := leaves
          exact ⟨⟨told.1, of_site, as_far⟩, awaits⟩
      | _ => exact leaves.elim

theorem ItemStep.advance_goes_on {step : ItemStep σ}
    (told : (Step.item step).Told job seen (story job deeds))
    (alive : (Step.item step).isAlive s.run.draft = true)
    (gives : ((Step.item step).advance job).Gives s progress t) :
    ∀ task, progress.task? = some task →
      task.Told job seen (story job (deeds ++ [(.item step, s)])) := by
  intro task goes
  obtain ⟨n, item, key, lists, of_site, told⟩ := told
  have leaves := ItemStep.advance_leaves told alive gives
  have of_site := of_site.concat (s := s) Step.act?_item
  cases progress with
  | again next =>
      injection goes with goes
      subst goes
      cases next with
      | item next =>
          obtain ⟨⟨state, rfl⟩, as_far⟩ := leaves
          exact ⟨n, item, key, lists, of_site, as_far⟩
      | _ => exact leaves.elim
  | finished => cases goes
  | parked next depth wait =>
      injection goes with goes
      subst goes
      cases next with
      | item next =>
          obtain ⟨⟨state, rfl⟩, as_far, awaits⟩ := leaves
          exact ⟨⟨n, item, key, lists, of_site, as_far⟩, awaits⟩
      | _ => exact leaves.elim

/-- The step that goes on is as far as the story of its spot tells then. -/
theorem Step.advance_goes_on {step : Step σ} (told : step.Told job seen (story job deeds))
    (made : seen (.advanced step s)) (gives : (step.advance job).Gives s progress t)
    (fresh : ∀ key, story job deeds (.slot s.run.draft.nodes.size key) = []) :
    ∀ task, progress.task? = some task →
      task.Told job seen (story job (deeds ++ [(step, s)])) := by
  rcases step.advance_cases gives with ⟨-, rfl, -⟩ | ⟨alive, moves⟩
  · intro task goes
    cases goes
  · cases step with
    | object step => exact step.advance_goes_on told moves fresh
    | field step => exact step.advance_goes_on told made alive gives
    | item step => exact step.advance_goes_on told alive gives

/-- The steps that complete a position begin the stories of the items of a new list, or none. -/
theorem Step.Completed.told {step : Step σ} {position : Position σ} {value : ResolvedValue σ}
    {outcome : Outcome σ} {u : Stage σ} (completed : step.Completed job seen position u value outcome)
    {tale : Tale σ} (fresh : ∀ key, tale (.slot u.run.draft.nodes.size key) = []) :
    ∀ next ∈ outcome.steps position u.run.draft, next.Told job seen tale := by
  intro next mem
  cases outcome with
  | leaf value checked => cases mem
  | omitted => cases mem
  | refusals itemType size => cases mem
  | items itemType cursor values =>
      obtain ⟨n, bound, rfl⟩ := (Position.mem_itemSteps values 0).mp mem
      have none_yet : tale (.slot u.run.draft.nodes.size (.index (0 + n))) = [] := fresh _
      refine ⟨0 + n, values[n], rfl, ⟨step, position, u, value, itemType, cursor, values, completed,
        rfl, rfl, ?_⟩, ?_, ?_⟩
      · rw [Nat.zero_add]
        exact List.getElem?_eq_getElem bound
      · exact fun entry mem => absurd (none_yet ▸ mem) List.not_mem_nil
      · have begun : Tale.acts tale (.slot u.run.draft.nodes.size (.index (0 + n))) = [] := by
          unfold Tale.acts
          rw [none_yet]
          rfl
        cases completed.completes with
        | items other type list =>
            refine ⟨rfl, ?_⟩
            show Heeds _ _ (Tale.acts tale (.slot u.run.draft.nodes.size (.index (0 + n)))) _
            rw [begun]
            exact .start
  | object object =>
      obtain rfl := List.mem_singleton.mp mem
      intro node here
      cases completed.completes with
      | @object value name type v subject _ _ _ _ _ _ _ => cases type <;> cases here

/-- The steps that are launched for an object begin the stories of its fields. -/
theorem ObjectStep.Gathered.told {step : ObjectStep σ} {type : ObjectType σ} {node : NodeId}
    {groups : Groups} {below : List (Task σ)}
    (gathered : step.Gathered job seen type node s groups below)
    {tale : Tale σ} (fresh : ∀ key, tale (.slot node key) = []) :
    ∀ next ∈ below.filterMap Task.step?, next.Told job seen tale := by
  intro next mem
  obtain ⟨task, there, found⟩ := List.mem_filterMap.mp mem
  obtain ⟨entry, among, same⟩ := (ObjectStep.launched_iff gathered.launched).2 task there
  rcases ObjectStep.launched?_eq same with ⟨-, rfl⟩ | ⟨other, field, known, rfl⟩
  · cases found
  · injection found with found
    subst found
    have none_yet : tale (.slot node (.field entry.1)) = [] := fresh _
    refine ⟨⟨step, type, s, groups, below, gathered, among, other, rfl, rfl, known⟩, ?_, ?_⟩
    · exact fun entry mem => absurd (none_yet ▸ mem) List.not_mem_nil
    · have begun : Tale.acts tale (.slot node (.field entry.1)) = [] := by
        unfold Tale.acts
        rw [none_yet]
        rfl
      show FieldStep.Told job seen (Tale.acts tale (.slot node (.field entry.1))) _
      rw [begun]
      exact FieldStep.told_new node entry.1 _

/-- What a transition leaves to be done is as far as the stories tell then. -/
theorem Step.advance_told {step : Step σ} {rest : List (Task σ)}
    (told : step.Told job seen (story job deeds)) (made : seen (.advanced step s))
    (gives : (step.advance job).Gives s progress t)
    (orderly : Orderly s.run.draft (.awake step :: rest))
    (fresh : ∀ key, story job deeds (.slot s.run.draft.nodes.size key) = []) :
    ∃ steps, (t.run.ready ++ t.run.held).Perm (steps ++ (s.run.ready ++ s.run.held)) ∧
      ∀ task ∈ progress.tasks steps, task.Told job seen (story job (deeds ++ [(step, s)])) := by
  have goes_on := Step.advance_goes_on told made gives fresh
  have leaves {steps : List (Step σ)}
      (each : ∀ next ∈ steps, next.Told job seen (story job (deeds ++ [(step, s)]))) :
      ∀ task ∈ progress.tasks steps, task.Told job seen (story job (deeds ++ [(step, s)])) := by
    intro task mem
    rcases List.mem_append.mp mem with own | added
    · exact goes_on task (Option.mem_toList.mp own)
    · obtain ⟨next, member, rfl⟩ := List.mem_map.mp added
      exact each next member
  have none_added : ∀ next ∈ ([] : List (Step σ)),
      next.Told job seen (story job (deeds ++ [(step, s)])) :=
    fun _ mem => absurd mem List.not_mem_nil
  have enters_perm {u : Stage σ} {draft : Draft} {steps : List (Step σ)} (same : SameTree s u)
      (enters : Enters u t draft steps) :
      (t.run.ready ++ t.run.held).Perm (steps ++ (s.run.ready ++ s.run.held)) :=
    (Leaves.after_same same (.of_enters enters)).steps_perm
  rcases step.advance_cases gives with ⟨-, rfl, rfl⟩ | ⟨alive, moves⟩
  · exact ⟨[], .refl _, leaves none_added⟩
  · cases moves with
    | passes goes stays same => exact ⟨[], enters_perm same (.of_same (.refl t)), leaves none_added⟩
    | @completes step s u t position value due same finishes =>
        obtain ⟨outcome, completes, enters⟩ := finishes
        have completed : step.Completed job seen position u value outcome :=
          ⟨⟨s, _, t, made, due, gives, enters.draft⟩, completes⟩
        refine ⟨_, enters_perm same enters, leaves (completed.told fun key => ?_)⟩
        rw [same.draft, story_elsewhere ?_]
        · exact fresh key
        · intro here
          have known := orderly.tidy.known _ List.mem_cons_self
          rw [show (Task.awake step).spot = _ from here] at known
          exact Nat.lt_irrefl _ known
    | skips skips same enters => exact ⟨[], enters_perm same enters, leaves none_added⟩
    | allocates state target enters =>
        exact ⟨[], enters_perm (.refl s) enters, leaves none_added⟩
    | @collects object s u t type node grouping below state grouped same launched left =>
        have gathered : object.Gathered job seen type node s grouping.groups below :=
          ⟨made, state, ⟨grouping, u, rfl, grouped⟩, launched⟩
        refine ⟨_, (Leaves.after_same same left).steps_perm, leaves (gathered.told fun key => ?_)⟩
        rw [story_quiet Step.act?_object]
        exact told node (ObjectStep.spot_of_node (by rw [state]; rfl)) key
    | fails target spot fails enters =>
        exact ⟨[], enters_perm (.refl s) enters, leaves none_added⟩

end Transitions

/-! ### Runs -/

/-- The story of a position, if anything has been done about it, goes as that of a field of the
object there, or of an item of the list. -/
def Tale.Lawful (job : Job σ) (seen : Sight σ → Prop) (tale : Tale σ) (node : NodeId) :
    PathSegment → Prop
  | .field key =>
    let spot : Spot := .slot node (.field key)
    tale spot ≠ [] → ∃ site : FieldSite σ, site.Launched job seen node key ∧ tale.IsOf spot site ∧
      FieldTells job seen site (site.guards job) (tale.acts spot)
  | .index n =>
    let spot : Spot := .slot node (.index n)
    tale spot ≠ [] → ∃ (site : FieldSite σ) (item : ResolvedValue σ),
      site.Lists job seen node n item ∧ tale.IsOf spot site ∧
      ItemTells seen (site.itemGuards job) item (tale.acts spot)

theorem Tale.Lawful.congr {tale tale' : Tale σ} {node : NodeId} {key : PathSegment}
    (lawful : tale.Lawful job seen node key)
    (same : tale' (.slot node key) = tale (.slot node key)) : tale'.Lawful job seen node key := by
  cases key with
  | field key =>
      simp only [Lawful, IsOf, acts, same]
      exact lawful
  | index n =>
      simp only [Lawful, IsOf, acts, same]
      exact lawful

/-- What is left to be done besides a step is not at a spot whose story the step carries on. -/
theorem Orderly.agreesAt {deeds : List (Step σ × Stage σ)} {step : Step σ} {rest : List (Task σ)}
    {s : Stage σ} (orderly : Orderly s.run.draft (.awake step :: rest)) {task : Task σ}
    (mem : task ∈ rest) :
    Task.AgreesAt task.spot (story job deeds) (story job (deeds ++ [(step, s)])) := by
  intro node key at_task
  have not_carried_on (lives : s.run.draft.Alive node) : step.spot ≠ .slot node key := by
    intro here
    have alone := orderly.tidy.alone here lives mem
    rcases at_task with there | there
    · exact alone.1 there
    · exact alone.2 there
  by_cases here : step.spot = .slot node key
  · cases alive : step.isAlive s.run.draft with
    | false => exact story_quiet (Step.act?_dead alive)
    | true =>
        cases step with
        | object step => exact story_quiet Step.act?_object
        | field step =>
            have same_node : step.parent = node := Spot.slot.inj here |>.1
            refine absurd here (not_carried_on (same_node ▸ ?_))
            simpa [Step.isAlive, Draft.Alive] using alive
        | item step =>
            have same_node : step.position.parent = node := Spot.slot.inj here |>.1
            refine absurd here (not_carried_on (same_node ▸ ?_))
            simpa [Step.isAlive, Draft.Alive] using alive
  · exact story_elsewhere here

namespace Weave

/-- The stories of a run go as they should, and all that is left to do is as far as they tell. -/
structure Told (job : Job σ) (seen : Sight σ → Prop) (deeds : List (Step σ × Stage σ))
    (weave : Weave σ) : Prop where
  lawful : ∀ node key, Tale.Lawful job seen (story job deeds) node key
  tasks : ∀ task ∈ weave.tasks, task.Told job seen (story job deeds)
  known : ∀ node key, story job deeds (.slot node key) ≠ [] → node < weave.run.draft.nodes.size

variable {first second last : Weave σ} {deeds : List (Step σ × Stage σ)}

/-- Whatever a step does next, it carries on the story of its position as it should. -/
theorem Told.lawful_next {step : Step σ} (told : second.Told job seen deeds)
    (itself : step.Told job seen (story job deeds)) (s : Stage σ) (node : NodeId)
    (key : PathSegment) :
    Tale.Lawful job seen (story job (deeds ++ [(step, s)])) node key := by
  have before := told.lawful node key
  by_cases here : step.spot = .slot node key
  · cases alive : step.isAlive s.run.draft with
    | false => exact before.congr (story_quiet (Step.act?_dead alive))
    | true =>
        cases step with
        | object step => exact before.congr (story_quiet Step.act?_object)
        | field step =>
            obtain ⟨rfl, rfl⟩ : step.parent = node ∧ .field step.key = key := by
              injection here with same_node same_key
              exact ⟨same_node, same_key⟩
            have tells := itself.2.2.tells_next s
            rw [← FieldStep.acts_alive alive] at tells
            exact fun _ => ⟨step.site, itself.1, itself.2.1.concat Step.act?_field, tells⟩
        | item step =>
            obtain ⟨rfl, rfl⟩ : step.position.parent = node ∧ step.position.key = key := by
              injection here with same_node same_key
              exact ⟨same_node, same_key⟩
            obtain ⟨n, item, at_n, lists, of_site, as_far⟩ := itself
            have tells := as_far.tells_next s
            rw [← ItemStep.acts_alive alive] at tells
            have of_site := of_site.concat (s := s) Step.act?_item
            have spot : (Step.item step).spot = .slot step.position.parent (.index n) := by
              rw [← at_n]
              rfl
            rw [spot] at tells of_site
            rw [at_n]
            exact fun _ => ⟨step.position.site, item, lists, of_site, tells⟩
  · exact before.congr (story_elsewhere here)

/-- A transition carries on the story of its position as it should, and what is left to be done then
is as far as the stories tell. -/
theorem Told.advance {step : Step σ} {ready : List (Step σ)} {progress : Progress σ} {s : Stage σ}
    (told : second.Told job seen deeds) (settled : second.Settled)
    (picked : second.run.ready.Perm (step :: ready))
    (made : seen (.advanced step ⟨{ second.run with ready }, second.world⟩))
    (gives : (step.advance job).Gives ⟨{ second.run with ready }, second.world⟩ progress s) :
    (place { second with run := s.run, world := s.world } progress).Told job seen
      (deeds ++ [(step, ⟨{ second.run with ready }, second.world⟩)]) := by
  have before := tasks_picked picked
  have mem : Task.awake step ∈ second.tasks := before.mem_iff.mpr List.mem_cons_self
  have orderly := settled.perm before
  have itself : step.Told job seen (story job deeds) := told.tasks _ mem
  have fresh : ∀ key, story job deeds (.slot second.run.draft.nodes.size key) = [] := fun key =>
    Classical.byContradiction fun some_story =>
      Nat.lt_irrefl _ (told.known second.run.draft.nodes.size key some_story)
  obtain ⟨steps, added, each⟩ := Step.advance_told itself made gives orderly fresh
  refine ⟨told.lawful_next itself _, fun task mem => ?_, fun node key some_story => ?_⟩
  · rcases List.mem_append.mp ((tasks_place added progress).mem_iff.mp mem) with own | kept
    · exact each task own
    · have as_far := told.tasks task (before.mem_iff.mpr (List.mem_cons_of_mem _ kept))
      exact as_far.congr (orderly.agreesAt kept)
  · have grows := (leads_advance settled picked made gives).1.grows
    refine Nat.lt_of_lt_of_le ?_ grows.size
    by_cases here : step.spot = .slot node key
    · have known := orderly.tidy.known _ List.mem_cons_self
      rwa [show (Task.awake step).spot = _ from here] at known
    · rw [story_elsewhere here] at some_story
      exact told.known node key some_story

/-- A task gives way to another one that is as far, and nothing is done about a position. -/
theorem Told.of_swaps {task other : Task σ} (told : first.Told job seen deeds)
    (swaps : Swaps first last task other) (draft : last.run.draft = first.run.draft)
    (passes : task.Told job seen (story job deeds) → other.Told job seen (story job deeds)) :
    last.Told job seen deeds := by
  refine ⟨told.lawful, fun t mem => ?_, fun node key some_story => ?_⟩
  · rcases swaps.left mem with rfl | mem
    · exact passes (told.tasks task swaps.mem.1)
    · exact told.tasks t mem
  · rw [draft]
    exact told.known node key some_story

/-- Whatever happens in a run besides the transitions of its steps carries on no story. -/
theorem Told.aside {sight : Sight σ} (told : first.Told job seen deeds)
    (move : Move job first sight last) (allowed : seen sight)
    (other : ∀ step s, sight ≠ .advanced step s) : last.Told job seen deeds := by
  cases move with
  | advance picked advanced => exact absurd rfl (other _ _)
  | @release step held idle top none_parked =>
      refine ⟨told.lawful, fun task mem => told.tasks task ?_, told.known⟩
      rwa [tasks_release idle top] at mem
  | @wait step wait rest others s picked polled =>
      have same := Wait.sameTree_of_poll polled
      exact told.of_swaps (swaps_wait picked same) same.draft fun waits =>
        ⟨waits.1, waits.2.polled allowed polled⟩
  | @answer step wait resumption others s picked polled =>
      have same := Wait.sameTree_of_poll polled
      exact told.of_swaps (swaps_answer picked same) same.draft fun waits =>
        ⟨waits.1, waits.2.answered allowed polled⟩
  | resume picked resumes =>
      exact told.of_swaps (swaps_resume picked) rfl fun called =>
        Step.resume_told called.1 called.2 resumes
  | change world => exact ⟨told.lawful, told.tasks, told.known⟩

theorem Told.aside_all (told : first.Told job seen deeds)
    (path : Path job (fun sight => seen sight ∧ ∀ step s, sight ≠ .advanced step s) first last) :
    last.Told job seen deeds := by
  induction path with
  | refl => exact told
  | step _ allowed move ih => exact ih.aside move allowed.1 allowed.2

end Weave

end GraphExec
