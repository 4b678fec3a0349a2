import GraphExec.Proofs.Pure.Owed

/-!
# What pure runs come to

Where tasks are in the end, what they come to in the course of a pure run is what the recursion
evaluates there. A run that has finished has come to what its request answers.
-/

namespace GraphExec

variable {σ : Type}

open Engine

/-! ### Where steps belong -/

/-- A position belongs to the object that owns its field. -/
def Position.Fits (draft : Draft) (position : Position σ) : Prop :=
  draft.owner? position.parent = some position.site.owner.value

/-- An object belongs where it is built. -/
def ObjectTarget.Fits (draft : Draft) (selections : List Selection) (value : AppValue) :
    ObjectTarget σ → Prop
  | root => draft.value? Draft.root = some value
  | child position => position.Fits draft ∧ selections = position.site.selections

/-- An object is built where it belongs, and its node is made from its value. -/
structure ObjectStep.Fits (draft : Draft) (step : ObjectStep σ) : Prop where
  target : step.target.Fits draft step.selections step.subject.value
  seated : (Step.object step).Seated draft
  made : ∀ node, step.state.node? = some node → draft.value? node = some step.subject.value

def Step.Fits (draft : Draft) : Step σ → Prop
  | .object step => step.Fits draft
  | .field step => draft.value? step.parent = some step.site.owner.value
  | .item step => step.position.Fits draft

def Task.Fits (draft : Draft) : Task σ → Prop
  | awake step => step.Fits draft
  | asleep step _ => step.Fits draft
  | called step _ => step.Fits draft
  | written _ _ _ _ => True

variable {setting : Setting σ} {good : ArgumentKey → ArgumentsResult → Prop} {job : Job σ}
  {draft now later : Draft} {s t : Stage σ} {progress : Progress σ} {v : Verdict}

/-- A field belongs to the object that it is a field of. -/
theorem FieldStep.fits_position {step : FieldStep σ} (fits : (Step.field step).Fits draft) :
    step.position.Fits draft := by
  show (draft.value? step.parent).or _ = _
  rw [show draft.value? step.parent = some step.site.owner.value from fits]
  rfl

theorem Step.Stays.fits {step next : Step σ} (stays : step.Stays job next)
    (fits : step.Fits draft) : next.Fits draft := by
  have seated : step.Seated draft → next.Seated draft := stays.seated
  cases stays with
  | field state => exact fits
  | item state => exact fits
  | object typed node =>
      exact ⟨fits.target, seated fits.seated, fun other here => fits.made other (node ▸ here)⟩
  | @root step type state target =>
      refine ⟨fits.target, seated fits.seated, fun other here => ?_⟩
      injection here with here
      subst here
      have made := fits.target
      rw [target] at made
      exact made

/-- A step rests where it is met. -/
theorem Step.rests {step : Step σ} (rooted : now.Rooted) (rooted' : later.Rooted)
    (grows : now.Grows later) (bound : step.spot.id < now.nodes.size) (fits : step.Fits later) :
    step.Rests now later := by
  have stays (id : Nat) (key : PathSegment) (bound : id < now.nodes.size) :
      now.pathTo id key = later.pathTo id key := by
    unfold Draft.pathTo
    rw [grows.path rooted rooted' id bound]
  cases step with
  | field step =>
      exact ⟨stays _ _ bound, (grows.parentValue? rooted rooted' _ bound).symm⟩
  | item step => exact stays _ _ bound
  | object step =>
      show step.target.path now = step.target.path later
      cases target : step.target with
      | root => rfl
      | child position =>
          refine stays _ _ ?_
          replace bound : step.spot.id < now.nodes.size := bound
          unfold ObjectStep.spot at bound
          rw [target] at bound
          cases here : step.state.node? with
          | none =>
              rw [here] at bound
              exact bound
          | some node =>
              rw [here] at bound
              have seat := fits.seated node here
              rw [target] at seat
              have less : (position.parent : Nat) < node := rooted'.above node _ _ seat
              exact Nat.lt_trans less bound

/-! ### Values that are due -/

/-- What an object gives way to is the result that stands instead of it. -/
theorem ObjectStep.Fails.settles (sound : setting.Sound good) {step : ObjectStep σ}
    {value : ResolvedValue σ} (pure : step.Pure setting.loads setting.job)
    (even : setting.Even good s) (rests : (Step.object step).Rests s.run.draft draft)
    (fails : step.Fails setting.job s value t) :
    setting.Even good t ∧ step.state.node? = none ∧
      ∃ result, step.state.built? setting step.subject.value = some (.error result) ∧
        setting.settled? (step.target.path draft) result = some value := by
  have rests : step.target.path s.run.draft = step.target.path draft := rests
  have settles {u : Stage σ} {result : FieldResult σ} (own : result.Pure setting.loads)
      (even : setting.Even good u)
      (settled : (Engine.settle setting.job (step.target.path s.run.draft) result).Gives u value t) :
      setting.Even good t ∧ setting.settled? (step.target.path draft) result = some value := by
    rw [rests] at settled
    exact ⟨(even.gives (agrees_settle sound.fine own) settled).2, sound.settle even settled⟩
  cases fails with
  | mistyped state settled =>
      obtain ⟨even', same⟩ := settles (FieldResult.pure_error _) (even.tell _) settled
      exact ⟨even', by rw [state]; rfl, _, by rw [state]; rfl, same⟩
  | refused state =>
      exact ⟨even.tell _, by rw [state]; rfl, _, by rw [state]; rfl, rfl⟩
  | unauthorized state settled =>
      obtain ⟨even', same⟩ := settles (FieldResult.pure_error _) (even.tell _) settled
      exact ⟨even', by rw [state]; rfl, _, by rw [state]; rfl, same⟩
  | replaced state settled =>
      have own := pure.state
      rw [state] at own
      obtain ⟨even', same⟩ := settles own even settled
      exact ⟨even', by rw [state]; rfl, _, by rw [state]; rfl, same⟩

/-- The value that a step completes its position with decides what it comes to. -/
theorem Step.Due.owes (sound : setting.Sound good) {step : Step σ} {position : Position σ}
    {value : ResolvedValue σ} (pure : step.Pure setting.loads setting.job)
    (even : setting.Even good s) (rests : step.Rests s.run.draft draft) (fits : step.Fits draft)
    (due : step.Due setting.job s position value t) :
    setting.Even good t ∧ position.Fits draft ∧
      ∀ v, Evaluates setting (.position (position.place draft) (some (.ok value))) v →
        step.Owes setting draft v := by
  cases due with
  | @field step result s t value state settled =>
      have own := pure.2
      rw [state] at own
      obtain ⟨-, even'⟩ := even.gives (agrees_settle sound.fine own) settled
      refine ⟨even', FieldStep.fits_position fits, fun v evaluates => ?_⟩
      rw [show step.position.path s.run.draft = step.position.path draft from rests.1] at settled
      show Evaluates _ (.position _ (step.state.result? _ _ _)) _
      rw [state]
      exact Evaluates.of_settled evaluates (sound.settle even settled)
  | item state =>
      refine ⟨even, fits, fun v evaluates => ?_⟩
      show Evaluates _ (.position _ (ItemState.result? _ _ _)) _
      rw [state]
      exact evaluates
  | @object step position s t value target fails =>
      obtain ⟨even', outside, result, built, settled⟩ := fails.settles sound pure even rests
      have belongs := fits.target
      rw [target] at belongs settled
      refine ⟨even', belongs.1, fun v evaluates => ?_⟩
      refine (ObjectStep.owes_iff outside).mpr ⟨_, built, ?_⟩
      rw [target]
      exact Evaluates.of_settled evaluates settled

/-! ### Objects and lists -/

/-- A position that an object is built for comes to what the object comes to. -/
theorem Evaluates.of_object {position : Position σ} {value : ResolvedValue σ}
    {declared : TypeDefinition σ} {subject : Subject}
    (read : setting.read? (position.place draft) value = some (.object declared subject.value))
    (owes : (⟨.child position, subject, position.site.selections, false,
      .ofType declared⟩ : ObjectStep σ).Owes setting draft v) :
    Evaluates setting (.position (position.place draft) (some (.ok value))) v := by
  have outside : (ObjectState.ofType declared).node? = none := by cases declared <;> rfl
  obtain ⟨built, made, owes⟩ := (ObjectStep.owes_iff outside).mp owes
  rw [ObjectState.built?_ofType] at made
  cases built with
  | error result => exact .replaced rfl read made owes
  | ok type =>
      obtain ⟨w, below, rfl⟩ := owes
      exact .object rfl read made below

theorem Task.grows_writes (below : List (Task σ)) :
    ∀ draft : Draft, draft.Grows (Task.writes below draft) := by
  induction below with
  | nil => exact fun draft => .refl draft
  | cons task rest ih =>
      intro draft
      cases task with
      | written node key value nonNull =>
          exact (Draft.grows_setLeaf _ _ _ _ _).trans (ih _)
      | _ => exact ih draft

/-- The items of a list belong where the list does, at places of the list. -/
theorem Outcome.items_at {position : Position σ} {outcome : Outcome σ} {size : Nat}
    (sized : outcome.size? = some size) (fits : position.Fits later) (rooted : later.Rooted)
    (grows : (outcome.draft position draft).Grows later) (itemType : TypeRef) (n : Nat) :
    (position.item draft.nodes.size itemType n).Fits later ∧
      (position.item draft.nodes.size itemType n).place later =
        (position.place later).item itemType n := by
  rw [(outcome.draft_eq position sized draft).1] at grows
  have grows := (Task.grows_writes _ _).trans grows
  have inside : draft.nodes.size <
      (draft.newList position.parent position.key size position.nonNull).2.nodes.size := by
    unfold Draft.newList
    rw [Draft.size_allocate]
    exact Nat.lt_succ_self _
  have up : later.parent? draft.nodes.size = some (position.parent, position.key) :=
    (grows.parent _ inside).trans Draft.parent?_allocated
  have none_there : later.value? draft.nodes.size = none :=
    (grows.value _ inside).trans (Draft.value?_allocate _ _ _ _ _ _)
  constructor
  · show (later.value? draft.nodes.size).or (later.parentValue? draft.nodes.size) = _
    rw [none_there, Draft.parentValue?_eq rooted up]
    exact fits
  · show FieldSite.placeAt _ (later.path draft.nodes.size ++ _) _ = _
    rw [Draft.path_eq rooted up]
    rfl

/-- What is launched for a list belongs at its places. -/
theorem Outcome.fits_below {position : Position σ} {outcome : Outcome σ} {size : Nat}
    (sized : outcome.size? = some size) (fits : position.Fits later) (rooted : later.Rooted)
    (grows : (outcome.draft position draft).Grows later) :
    ∀ task ∈ outcome.below position draft.nodes.size, task.Fits later := by
  intro task mem
  cases outcome with
  | refusals itemType count =>
      obtain ⟨n, -, rfl⟩ := List.mem_map.mp mem
      exact trivial
  | items itemType cursor values =>
      obtain ⟨step, there, rfl⟩ := List.mem_map.mp mem
      obtain ⟨n, bound, rfl⟩ := (position.mem_itemSteps values 0).mp there
      exact (items_at sized fits rooted grows itemType _).1
  | _ => cases mem

theorem DirectiveCursor.passage_new {hook? : DirectiveDefinition σ → Option (DirectiveHook σ)}
    {directives : List Directive} (object : AppValue) (path : Path) :
    (DirectiveCursor.new job.schema hook? directives).passage setting object path =
      setting.passage object path (DirectiveCursor.new job.schema hook? directives).uses := by
  unfold DirectiveCursor.passage
  generalize DirectiveCursor.uses _ = uses
  cases uses <;> rfl

/-- An item that is not begun owes what its place comes to with its result. -/
theorem ItemStep.owes_new {position : Position σ} {list : NodeId} {itemType : TypeRef} {n : Nat}
    {item : ResolvedValue σ}
    (there : (position.item list itemType n).place later = (position.place later).item itemType n)
    (owes : (Step.item ⟨position.item list itemType n, .runDirectives
      (.new setting.job.schema (·.resolveEach?) position.site.directives) item⟩).Owes setting
        later v) :
    Evaluates setting (.position ((position.place later).item itemType n)
      (setting.itemResult? ((position.place later).item itemType n) item)) v := by
  rw [← there]
  have same : ItemState.result? setting ((position.item list itemType n).place later)
      (.runDirectives (.new setting.job.schema (·.resolveEach?) position.site.directives) item) =
      setting.itemResult? ((position.item list itemType n).place later) item := by
    show (DirectiveCursor.passage _ _ _ _).result? _ = _
    rw [DirectiveCursor.passage_new]
    rfl
  rw [← same]
  exact owes

section Lists

variable {position : Position σ} {value : ResolvedValue σ} {outcome : Outcome σ} {size : Nat}

/-- A list comes to what is at its places. -/
theorem Setting.Sound.evaluates_list (sound : setting.Sound good) (even : setting.Even good s)
    (completes : position.Completes setting.job s value outcome) (sized : outcome.size? = some size)
    (fits : position.Fits later) (rooted : later.Rooted)
    (grows : (outcome.draft position s.run.draft).Grows later) (verdicts : PathSegment → Verdict)
    (each : ∀ task ∈ outcome.below position s.run.draft.nodes.size, ∀ id key,
      task.spot = .slot id key → task.Owes setting good later (verdicts key))
    (fine : ∀ task ∈ outcome.below position s.run.draft.nodes.size, ∀ id key,
      task.spot = .slot id key → verdicts key ≠ .invalid) :
    Evaluates setting (.position (position.place later) (some (.ok value)))
      (.raise position.nonNull (.shown ((Shape.list size).json verdicts))) := by
  obtain ⟨reading, read, reads⟩ := sound.reads (position.place later) even rfl completes
  cases outcome with
  | refusals itemType count =>
      injection sized with sized
      subst sized
      obtain ⟨rfl, declared, some_item⟩ := reads
      obtain ⟨allowed, nulls⟩ := Shape.json_nulls some_item
        (fun n bound => each _ (Outcome.written_below bound) _ (.index n) rfl)
        fun n bound => fine _ (Outcome.written_below bound) _ (.index n) rfl
      have same : (position.place later).refusals count =
          .raise position.nonNull (.shown ((Shape.list count).json verdicts)) := by
        unfold Place.refusals
        rw [declared, nulls]
        simp only [allowed]
        rfl
      exact same ▸ .done rfl read
  | items itemType cursor values =>
      injection sized with sized
      subst sized
      obtain ⟨rfl, rfl⟩ := reads
      have there (n : Nat) (item : ResolvedValue σ) (found : values[n]? = some item) :
          Task.awake (.item ⟨position.item s.run.draft.nodes.size itemType n, .runDirectives
            (.new setting.job.schema (·.resolveEach?) position.site.directives) item⟩) ∈
          (Outcome.items itemType (.new setting.job.schema (·.resolveEach?) position.site.directives)
            values).below position s.run.draft.nodes.size := by
        obtain ⟨bound, rfl⟩ := List.getElem?_eq_some_iff.mp found
        refine List.mem_map.mpr ⟨_, (position.mem_itemSteps values 0).mpr ⟨n, bound, ?_⟩, rfl⟩
        rw [Nat.zero_add]
      refine .list rfl read (fun n => verdicts (.index n)) (fun n item found => ?_) fun n bound => ?_
      · have place := (Outcome.items_at rfl fits rooted grows itemType n).2
        exact ItemStep.owes_new place (each _ (there n item found) _ (.index n) rfl)
      · exact fine _ (there n _ (List.getElem?_eq_getElem bound)) _ (.index n) rfl
  | _ => cases sized

/-- A list gives way if an item does that is not left out. -/
theorem Setting.Sound.evaluates_listNulled (sound : setting.Sound good)
    (even : setting.Even good s) (completes : position.Completes setting.job s value outcome)
    (sized : outcome.size? = some size) (fits : position.Fits later) (rooted : later.Rooted)
    (grows : (outcome.draft position s.run.draft).Grows later) {task : Task σ}
    (member : task ∈ outcome.below position s.run.draft.nodes.size)
    (invalid : task.Owes setting good later .invalid) :
    Evaluates setting (.position (position.place later) (some (.ok value)))
      (.raise position.nonNull .invalid) := by
  obtain ⟨reading, read, reads⟩ := sound.reads (position.place later) even rfl completes
  cases outcome with
  | refusals itemType count =>
      obtain ⟨rfl, declared, some_item⟩ := reads
      obtain ⟨n, -, rfl⟩ := List.mem_map.mp member
      have ruled : itemType.isNonNull = true := by
        cases ruled : itemType.isNonNull with
        | true => rfl
        | false => simp [Task.Owes, Verdict.ofLeaf, ruled] at invalid
      have same : (position.place later).refusals count = .raise position.nonNull .invalid := by
        unfold Place.refusals
        rw [declared]
        simp only [ruled]
        rfl
      exact same ▸ .done rfl read
  | items itemType cursor values =>
      obtain ⟨rfl, rfl⟩ := reads
      obtain ⟨step, there, rfl⟩ := List.mem_map.mp member
      obtain ⟨n, bound, rfl⟩ := (position.mem_itemSteps values 0).mp there
      have place := (Outcome.items_at rfl fits rooted grows itemType (0 + n)).2
      have owes := ItemStep.owes_new place invalid
      rw [Nat.zero_add] at owes
      exact .listNulled rfl read (List.getElem?_eq_getElem bound) owes
  | _ => cases sized

end Lists

section Objects

variable {step : ObjectStep σ} {type : ObjectType σ} {node : NodeId}

/-- The node of an object is where the object belongs. -/
theorem ObjectStep.Fits.node_at (fits : step.Fits later) (state : step.state = .collect type node)
    (rooted : later.Rooted) :
    later.path node = step.target.path later ∧
      later.parentValue? node = step.target.above? ∧
      later.value? node = some step.subject.value := by
  have seat := fits.seated node (by rw [state]; rfl)
  refine ⟨?_, ?_, fits.made node (by rw [state]; rfl)⟩
  · cases target : step.target with
    | root =>
        rw [target] at seat
        exact seat ▸ rooted.path_root
    | child position =>
        rw [target] at seat
        exact Draft.path_eq rooted seat
  · have belongs := fits.target
    cases target : step.target with
    | root =>
        rw [target] at seat
        exact seat ▸ rooted.parentValue?_root
    | child position =>
        rw [target] at seat belongs
        exact (Draft.parentValue?_eq rooted seat).trans belongs.1

/-- What is launched for an object belongs below its node. -/
theorem ObjectStep.Launched.fits {groups : Groups} {below : List (Task σ)}
    (launched : step.Launched job type node groups below)
    (made : later.value? node = some step.subject.value) : ∀ task ∈ below, task.Fits later := by
  intro task mem
  obtain ⟨entry, -, found⟩ := (launched_iff launched).2 task mem
  rcases launched?_eq found with ⟨-, rfl⟩ | ⟨-, field, -, rfl⟩
  · exact trivial
  · exact made

/-- The field nodes that are gathered for an object are those that count. -/
theorem ObjectStep.Gathered.counted (sound : setting.Sound good) {seen : Sight σ → Prop}
    {groups : Groups} {below : List (Task σ)}
    (gathered : step.Gathered setting.job seen type node s groups below)
    (pure : step.Pure setting.loads setting.job) (even : setting.Even good s) :
    ∃ nodes, setting.Gathers type.name (s.run.draft.path node) step.selections nodes ∧
      groups = Groups.of nodes := by
  obtain ⟨grouping, t, rfl, grouped⟩ := gathered.grouped
  have knowing : (step.grouper setting.job type (s.run.draft.path node)).Knowing
      (setting.Even good)
      (fun directives kept => setting.counts? (s.run.draft.path node) directives = some kept)
      setting.job.Has :=
    ⟨fun selection s inclusion t has even included =>
        let ⟨_, heard⟩ := Grouper.says_of_inclusion included
        sound.says has heard (fun _ mem => mem) even,
      fun condition directives inner has selection mem => .inline has mem⟩
  have fragments : ∀ fragment ∈ setting.job.fragments.values,
      ∀ selection ∈ fragment.selections, setting.job.Has selection :=
    fun fragment known selection mem => .fragment known mem
  obtain ⟨nodes, gathers, groups, -⟩ := Grouper.groupFrom_gathers knowing _ _ fragments
    pure.selections even grouped
  refine ⟨nodes, ?_, groups⟩
  unfold Setting.Gathers
  convert gathers using 2 with condition
  cases condition <;> rfl

/-- A field that is not begun owes what its place comes to with its result. -/
theorem FieldStep.owes_new {key : String} {field : FieldDefinition σ} {group : FieldGroup}
    {subject : Subject} {path : Path} (at_path : later.path node = path)
    (owes : (Step.field (FieldStep.new setting.job.schema node key
      { typeName := type.name, field, group, owner := subject })).Owes setting later v) :
    Evaluates setting (.position (type.place subject.value path key field group)
      (setting.fieldResult? (type.place subject.value path key field group)
        (later.parentValue? node))) v := by
  subst at_path
  let place := type.place subject.value (later.path node) key field group
  have same : FieldState.result? setting place (later.parentValue? node)
      (FieldStep.new setting.job.schema node key
        { typeName := type.name, field, group, owner := subject }).state =
      setting.fieldResult? place (later.parentValue? node) := by
    show (DirectiveCursor.passage _ _ _ _).result? _ = _
    rw [DirectiveCursor.passage_new]
    rfl
  show Evaluates setting (.position place _) v
  rw [← same]
  exact owes

/-- An object whose fields were gathered comes to what they come to. -/
theorem ObjectStep.Gathered.owes (sound : setting.Sound good) {seen : Sight σ → Prop}
    {groups : Groups} {below : List (Task σ)}
    (gathered : step.Gathered setting.job seen type node s groups below)
    (pure : step.Pure setting.loads setting.job) (even : setting.Even good s)
    (fits : step.Fits later) (rooted : later.Rooted)
    (stays : s.run.draft.path node = later.path node) (verdicts : PathSegment → Verdict)
    (each : ∀ task ∈ below, ∀ id key, task.spot = .slot id key →
      task.Owes setting good later (verdicts key))
    (fine : ∀ task ∈ below, ∀ id key, task.spot = .slot id key → verdicts key ≠ .invalid) :
    step.Owes setting later (.shown ((Shape.object groups.keys).json verdicts)) := by
  obtain ⟨nodes, gathers, rfl⟩ := gathered.counted sound pure even
  obtain ⟨at_path, above, -⟩ := fits.node_at gathered.state rooted
  rw [stays, at_path] at gathers
  have launched := (launched_iff gathered.launched).1
  unfold ObjectStep.Owes
  rw [gathered.state]
  refine .fields gathers (fun key => verdicts (.field key)) ?_ ?_ ?_ ?_
  · intro key group member named
    obtain ⟨task, mem, found⟩ := launched _ member
    rcases launched?_eq found with ⟨-, rfl⟩ | ⟨other, -⟩
    · exact each _ mem node (.field key) rfl
    · exact absurd named other
  · intro key group member other
    obtain ⟨task, mem, found⟩ := launched _ member
    rcases launched?_eq found with ⟨named, -⟩ | ⟨-, field, known, -⟩
    · exact absurd named other
    · exact ⟨field, known⟩
  · intro key group field member other known
    obtain ⟨task, mem, found⟩ := launched _ member
    rcases launched?_eq found with ⟨named, -⟩ | ⟨-, field', known', rfl⟩
    · exact absurd named other
    · obtain rfl := Option.some.inj (known.symm.trans known')
      rw [← above]
      exact FieldStep.owes_new at_path (each _ mem node (.field key) rfl)
  · intro key mem_keys
    obtain ⟨⟨key, group⟩, member, rfl⟩ := List.mem_map.mp mem_keys
    obtain ⟨task, mem, found⟩ := launched _ member
    rcases launched?_eq found with ⟨-, rfl⟩ | ⟨-, field, -, rfl⟩
    · exact fine _ mem node (.field key) rfl
    · exact fine _ mem node (.field key) rfl

/-- An object gives way if a field of it does. -/
theorem ObjectStep.Gathered.owes_invalid (sound : setting.Sound good) {seen : Sight σ → Prop}
    {groups : Groups} {below : List (Task σ)} {task : Task σ}
    (gathered : step.Gathered setting.job seen type node s groups below)
    (pure : step.Pure setting.loads setting.job) (even : setting.Even good s)
    (fits : step.Fits later) (rooted : later.Rooted)
    (stays : s.run.draft.path node = later.path node) (member : task ∈ below)
    (invalid : task.Owes setting good later .invalid) : step.Owes setting later .invalid := by
  obtain ⟨nodes, gathers, rfl⟩ := gathered.counted sound pure even
  obtain ⟨at_path, above, -⟩ := fits.node_at gathered.state rooted
  rw [stays, at_path] at gathers
  obtain ⟨⟨key, group⟩, there, found⟩ := (launched_iff gathered.launched).2 task member
  unfold ObjectStep.Owes
  rw [gathered.state]
  rcases launched?_eq found with ⟨-, rfl⟩ | ⟨other, field, known, rfl⟩
  · simp [Task.Owes, Verdict.ofLeaf] at invalid
  · refine .nulled gathers there other known ?_
    rw [← above]
    exact FieldStep.owes_new at_path invalid

end Objects

/-! ### Courses -/

/-- What is met in a pure run, on the way to a draft. -/
def Sight.Towards (setting : Setting σ) (good : ArgumentKey → ArgumentsResult → Prop)
    (later : Draft) (sight : Sight σ) : Prop :=
  sight.Pure setting.loads good setting.job ∧ sight.Within setting.job later

variable {seen : Sight σ → Prop} {step : Step σ}

/-- A step that is met rests where it is. -/
theorem Sight.Towards.rests (towards : (Sight.advanced step s).Towards setting good later)
    (rooted : later.Rooted) (fits : step.Fits later) : step.Rests s.run.draft later :=
  step.rests towards.2.1 rooted towards.2.2.2.1 towards.2.2.1 fits

/-- A step that has completed a position comes to what the position comes to. -/
theorem Step.Completed.owes (sound : setting.Sound good) (rooted : later.Rooted)
    (towards : ∀ sight, seen sight → sight.Towards setting good later) {position : Position σ}
    {value : ResolvedValue σ} {outcome : Outcome σ}
    (completed : step.Completed setting.job seen position s value outcome)
    (fits : step.Fits later) :
    setting.Even good s ∧ position.Fits later ∧
      (outcome.draft position s.run.draft).Grows later ∧
      ∀ v, Evaluates setting (.position (position.place later) (some (.ok value))) v →
        step.Owes setting later v := by
  obtain ⟨first, progress, t, made, due, gives, left⟩ := completed.due
  have met := towards _ made
  obtain ⟨even, belongs, owes⟩ := due.owes sound met.1.1 met.1.2 (met.rests rooted fits) fits
  exact ⟨even, belongs, left ▸ met.2.2.2.2 progress t gives, owes⟩

/-- The node of an object that is allocated is where the object belongs. -/
theorem ObjectStep.Fits.allocate {step : ObjectStep σ} {position : Position σ}
    (fits : step.Fits later) (target : step.target = .child position) (type : ObjectType σ)
    (grows : (draft.newObject position.parent position.key step.subject.value
      position.nonNull).2.Grows later) :
    ({ step with state := .collect type draft.nodes.size } : ObjectStep σ).Fits later := by
  have inside : draft.nodes.size < (draft.newObject position.parent position.key step.subject.value
      position.nonNull).2.nodes.size := by
    unfold Draft.newObject
    rw [Draft.size_allocate]
    exact Nat.lt_succ_self _
  refine ⟨fits.target, fun node here => ?_, fun node here => ?_⟩
  · injection here with here
    subst here
    show match step.target with
      | .root => draft.nodes.size = Draft.root
      | .child position => _ = some (position.parent, position.key)
    rw [target]
    exact (grows.parent _ inside).trans Draft.parent?_allocated
  · injection here with here
    subst here
    exact (grows.value _ inside).trans (Draft.value?_allocate _ _ _ _ _ _)

/-- The node whose fields are gathered is where it is. -/
theorem ObjectStep.Gathered.stays {step : ObjectStep σ} {type : ObjectType σ} {node : NodeId}
    {groups : Groups} {below : List (Task σ)}
    (gathered : step.Gathered job seen type node s groups below)
    (towards : (Sight.advanced (.object step) s).Towards setting good later)
    (rooted : later.Rooted) : s.run.draft.path node = later.path node := by
  obtain ⟨rooted', bound, grows, -⟩ := towards.2
  refine (grows.path rooted' rooted node ?_).symm
  replace bound : step.spot.id < s.run.draft.nodes.size := bound
  unfold ObjectStep.spot at bound
  rw [gathered.state] at bound
  exact bound

/-- A step that leaves its position out owes nothing. -/
theorem Step.Skips.owes (sound : setting.Sound good) {position : Position σ}
    (pure : step.Pure setting.loads setting.job) (even : setting.Even good s)
    (rests : step.Rests s.run.draft later) (skips : step.Skips setting.job s position t) :
    step.Owes setting later .omitted := by
  cases skips with
  | @field step cursor s t state skipped =>
      have own := pure.2
      rw [state] at own
      rw [show step.position.path s.run.draft = step.position.path later from rests.1] at skipped
      have told : cursor.passage setting step.site.owner.value (step.position.path later) =
        .skipped := sound.cursor own even skipped
      show Evaluates _ (.position _ (FieldState.result? _ _ _ _)) _
      rw [state]
      show Evaluates _ (.position _ (Passage.result? _ (cursor.passage _ _ _))) _
      exact told ▸ .skipped _
  | @item step cursor item s t state skipped =>
      have own := pure.2
      rw [state] at own
      rw [show step.position.path s.run.draft = step.position.path later from rests] at skipped
      have told : cursor.passage setting step.position.site.owner.value
        (step.position.path later) = .skipped := sound.cursor own.1 even skipped
      show Evaluates _ (.position _ (ItemState.result? _ _ _)) _
      rw [state]
      show Evaluates _ (.position _ (Passage.result? _ (cursor.passage _ _ _))) _
      exact told ▸ .skipped _

/-- Whatever a task comes to in the course of a pure run is what the recursion makes of it. -/
theorem Comes.owes (sound : setting.Sound good) (rooted : later.Rooted)
    (towards : ∀ sight, seen sight → sight.Towards setting good later) {task : Task σ}
    (comes : Comes setting.job seen task v) (fits : task.Fits later) :
    task.Owes setting good later v := by
  induction comes with
  | @passed step next s t progress task v made gives goes stays leaves after ih =>
      have met := towards _ made
      have fits' := stays.fits fits
      -- The next step is still at the position, and owes what this one does.
      refine step.passes sound met.1.1 met.1.2 (met.rests rooted fits) ?_ gives task v leaves
        (ih ?_)
      · intro other same
        obtain rfl := Option.some.inj (goes.symm.trans same)
        exact stays
      · cases progress with
        | again other =>
            injection goes with goes
            injection leaves with leaves
            subst goes leaves
            exact fits'
        | finished => cases goes
        | parked other depth wait =>
            injection goes with goes
            injection leaves with leaves
            subst goes leaves
            exact fits'
  | @skipped step s t position made skips =>
      have met := towards _ made
      exact skips.owes sound met.1.1 met.1.2 (met.rests rooted fits)
  | @leaf step s position value written checked completed
  | @omitted step s position value completed =>
      obtain ⟨even, -, -, owes⟩ := completed.owes sound rooted towards fits
      obtain ⟨reading, read, reads⟩ := sound.reads (position.place later) even rfl
        completed.completes
      subst reads
      exact owes _ (.done rfl read)
  | @object step s position value object v completed after ih =>
      obtain ⟨even, belongs, -, owes⟩ := completed.owes sound rooted towards fits
      obtain ⟨reading, read, declared, subject, rfl, rfl, -⟩ := sound.reads
        (position.place later) even rfl completed.completes
      -- An object that is begun has no node, so there is nothing yet for it to fit.
      have outside : (ObjectState.ofType declared).node? = none := by cases declared <;> rfl
      have none_there (node : NodeId) (here : (ObjectState.ofType declared).node? = some node) :
          False := by rw [outside] at here; cases here
      refine owes _ (.of_object read (ih ⟨⟨belongs, rfl⟩, fun node here => ?_, fun node here => ?_⟩))
      · exact (none_there node here).elim
      · exact (none_there node here).elim
  | listed completed sized verdicts each fine ih =>
      -- The list is as the value has it, and item by item it comes to what the recursion makes of
      -- the items.
      obtain ⟨even, belongs, grows, owes⟩ := completed.owes sound rooted towards fits
      refine owes _ (sound.evaluates_list even completed.completes sized belongs rooted grows
        verdicts (fun task member id key there => ih task member id key there ?_) fine)
      exact Outcome.fits_below sized belongs rooted grows task member
  | listNulled completed sized member invalid ih =>
      obtain ⟨even, belongs, grows, owes⟩ := completed.owes sound rooted towards fits
      exact owes _ (sound.evaluates_listNulled even completed.completes sized belongs rooted grows
        member (ih (Outcome.fits_below sized belongs rooted grows _ member)))
  | @allocated step s t type position progress v made state target gives left after ih =>
      have met := towards _ made
      have grows := met.2.2.2.2 progress t gives
      rw [left] at grows
      have owes := ih (fits.allocate target type grows)
      refine (ObjectStep.owes_iff (by rw [state]; rfl)).mpr ⟨.ok type, by rw [state]; rfl, ?_⟩
      have owes : step.target.OwesFields setting later step.selections step.subject.value type v :=
        owes
      rw [target] at owes ⊢
      exact ⟨v, owes, rfl⟩
  | @gathered step s type node groups below gathered verdicts each fine ih =>
      -- The fields of the groups come to what they owe, name by name.
      have met := towards _ gathered.made
      have made := (fits.node_at gathered.state rooted).2.2
      exact gathered.owes sound met.1.1 met.1.2 fits rooted (gathered.stays met rooted) verdicts
        (fun task member id key there => ih task member id key there
          (gathered.launched.fits made task member)) fine
  | @gatheredNulled step s type node groups below task gathered member invalid ih =>
      have met := towards _ gathered.made
      have made := (fits.node_at gathered.state rooted).2.2
      exact gathered.owes_invalid sound met.1.1 met.1.2 fits rooted (gathered.stays met rooted)
        member (ih (gathered.launched.fits made task member))
  | @rootFailed step s t value made target fails =>
      have met := towards _ made
      obtain ⟨-, outside, result, built, settled⟩ :=
        fails.settles sound met.1.1 met.1.2 (met.rests rooted fits)
      refine (ObjectStep.owes_iff outside).mpr ⟨_, built, ?_⟩
      rw [target] at settled ⊢
      exact ⟨rfl, value, settled⟩
  | @waited step wait rest s t v heard polled after ih =>
      obtain ⟨⟨own, even⟩, -⟩ := towards _ heard
      obtain ⟨resumption, next, answers, resumes, owes⟩ := ih fits
      have polls := Wait.polls own even
      exact ⟨resumption, next, (polls.rest rest (by rw [polled])).2 _ answers, resumes, owes⟩
  | @answered step wait resumption s t v heard polled after ih =>
      obtain ⟨⟨own, even⟩, -⟩ := towards _ heard
      obtain ⟨next, resumes, owes⟩ := ih fits
      have polls := Wait.polls own even
      exact ⟨resumption, next, polls.answer resumption (by rw [polled]), resumes, owes⟩
  | @resumed step next resumption v resumes after ih =>
      have stays : step.Stays setting.job next := Step.resume_stays resumes
      exact ⟨next, resumes, ih (stays.fits fits)⟩
  | written node key value nonNull => exact rfl

/-! ### Offsets -/

/-- Offsets tell the field nodes of a job apart, and its directives. -/
structure Job.Apart (job : Job σ) : Prop where
  nodes : ∀ node other, job.Has (.field node) → job.Has (.field other) →
    node.offset = other.offset → node = other
  directives : ∀ selection directive other_selection other, job.Has selection →
    directive ∈ selection.directives → job.Has other_selection →
    other ∈ other_selection.directives → directive.offset = other.offset → directive = other

/-- Different bags are asked for under different keys. -/
theorem Job.Apart.asks (apart : job.Apart) {key : ArgumentKey}
    {coerce other : Action σ (Coercion σ)} (asks : job.Asks key coerce)
    (asks' : job.Asks key other) : coerce = other := by
  cases asks with
  | @field node type field has known found parent =>
      generalize same : ArgumentKey.new node.offset (.field type.name field.name) field.arguments
        parent = key at asks'
      cases asks' with
      | @field node' type' field' has' known' found' parent' =>
          injection same with offset owner
          injection owner with type_name field_name
          obtain rfl := apart.nodes _ _ has has' offset
          rw [← type_name] at known'
          obtain rfl := Option.some.inj (known.symm.trans known')
          obtain rfl := Option.some.inj (found.symm.trans found')
          rfl
      | directive has' written' found' parent' =>
          injection same with offset owner
          cases owner
  | @directive selection directive definition has written found parent =>
      generalize same : ArgumentKey.new directive.offset (.directive definition.name)
        definition.arguments parent = key at asks'
      cases asks' with
      | field has' known' found' parent' =>
          injection same with offset owner
          cases owner
      | @directive selection' directive' definition' has' written' found' parent' =>
          injection same with offset owner
          obtain rfl := apart.directives _ _ _ _ has written has' written' offset
          obtain rfl := Option.some.inj (found.symm.trans found')
          rfl

/-- What is known of the bag under a key is what is asked for there. -/
def Job.Tells (job : Job σ) (loads : Loads) (key : ArgumentKey) (result : ArgumentsResult) : Prop :=
  ∃ coerce, job.Asks key coerce ∧ Coerces loads coerce result

/-- A job of pure application code. -/
theorem Job.fine {loads : Loads} (pure : job.schema.Pure loads)
    (named : SchemaBuilder.Named job.schema.types) : job.Fine loads (job.Tells loads) :=
  ⟨pure, named, fun _ coerce _ asks coerces => ⟨coerce, asks, coerces⟩⟩

theorem Setting.sound (pure : setting.job.schema.Pure setting.loads)
    (named : SchemaBuilder.Named setting.job.schema.types) (apart : setting.job.Apart) :
    setting.Sound (setting.job.Tells setting.loads) where
  fine := Job.fine pure named
  right := by
    rintro key coerce result asks ⟨coerce', asks', coercion, answers, comes⟩
    obtain rfl := apart.asks asks asks'
    rw [answers.answer setting.state]
    cases coercion with
    | ready result' => exact comes
    | pending lazy => exact Lazy.Answers.answer comes setting.state

/-! ### Runs -/

namespace Weave

/-- A pure run that has finished has come to what its request answers, in whatever order its moves
were made. -/
theorem Path.answers (sound : setting.Sound good) {type : ObjectType σ} {world : World σ}
    {last : Weave σ} (path : Path setting.job seen (start setting.job type world) last)
    (known : setting.job.schema.rootType? setting.job.operation.kind = some type)
    (keywise : world.Keywise setting.loads)
    (changes : ∀ world, seen (.changed world) → world.Keywise setting.loads)
    (finished : last.Finished) :
    ∃ verdict, setting.Answers verdict ∧ last.run.draft.toJson = verdict.data := by
  have settled := settled_start setting.job type world
  obtain ⟨pure_path, -⟩ := path.pure sound.fine (pure_start sound.fine known keywise) changes
  obtain ⟨subject, verdict, root, comes, data, -⟩ := (pure_path.within settled).toJson_eq finished
  obtain ⟨reaches, orderly⟩ := path.leads settled
  have rooted := orderly.tidy.wf_draft.rooted
  have made : last.run.draft.value? Draft.root = some setting.job.root := by
    have start_draft : (start setting.job type world).plan.draft = .new setting.job.root := by
      obtain ⟨_, -, plan_eq⟩ := plan_start setting.job type world
      rw [plan_eq]
      rfl
    have grows := reaches.grows
    rw [start_draft] at grows
    exact grows.value Draft.root Nat.one_pos
  have fits : (Task.awake (.object (.root setting.job type subject))).Fits last.run.draft := by
    refine ⟨?_, fun node none_yet => (nomatch none_yet), fun node none_yet => (nomatch none_yet)⟩
    show last.run.draft.value? Draft.root = some subject.value
    rw [made, root]
  refine ⟨verdict, ?_, data⟩
  obtain ⟨built, authorized, owes⟩ :=
    comes.owes sound rooted (fun sight met => ⟨met.1.2, met.2⟩) fits
  have authorized : some (setting.shownAs subject.value type) = some built := authorized
  have owes : (ObjectTarget.root : ObjectTarget σ).Owes setting last.run.draft
    setting.job.operation.selections subject.value verdict built := owes
  obtain rfl := Option.some.inj authorized
  unfold Setting.shownAs at owes
  rw [root] at owes
  cases refused : setting.refused? type setting.job.root with
  | none =>
      rw [refused] at owes
      exact .shown known refused owes
  | some result =>
      rw [refused] at owes
      obtain ⟨rfl, value, settled⟩ := owes
      exact .refused known refused settled

end Weave

end GraphExec
