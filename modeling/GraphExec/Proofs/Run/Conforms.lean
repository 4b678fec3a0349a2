import GraphExec.Proofs.Run.Course
import GraphExec.Proofs.Schema.Possible

/-!
# Data that conform to the schema

`Conforms` and `Builds` say what the data at a position and of an object may be: what the declared
type allows, put together from what the run has met there, and nothing else. A verdict of the run on
its root conforms.
-/

namespace GraphExec

variable {σ : Type}

/-! ### What a run has met -/

/-- In the course of a run, a position was completed with a value at a stage. -/
def Position.Met (job : Job σ) (seen : Sight σ → Prop) (position : Position σ)
    (value : ResolvedValue σ) (stage : Stage σ) : Prop :=
  ∃ step s, seen (.advanced step s) ∧ step.Due job s position value stage

/-- A position is left out by a directive, or by the value that it has come to. -/
def Position.LeftOut (job : Job σ) (seen : Sight σ → Prop) (position : Position σ) : Prop :=
  (∃ step s t, seen (.advanced step s) ∧ step.Skips job s position t) ∨
    ∃ stage, position.Met job seen .skip stage

/-- What is selected of an object. -/
def ObjectTarget.selections (job : Job σ) : ObjectTarget σ → List Selection
  | root => job.operation.selections
  | child position => position.site.selections

/-- Objects of a type may stand where an object is built. -/
def ObjectTarget.Allows (job : Job σ) (target : ObjectTarget σ) (type : ObjectType σ) : Prop :=
  match target with
  | .root => job.schema.rootType? job.operation.kind = some type
  | .child position => ∃ name, position.type.nullable = .named name ∧
      job.schema.isPossibleType name type.name = true

/-- In the course of a run, the selections of an object of a type led to field nodes. -/
structure ObjectStep.Gathers (job : Job σ) (seen : Sight σ → Prop) (step : ObjectStep σ)
    (type : ObjectType σ) (node : NodeId) (nodes : List FieldNode) : Prop where
  state : step.state = .collect type node
  made : ∃ stage, seen (.advanced (.object step) stage) ∧
    GraphExec.Gathers ((step.grouper job type (stage.run.draft.path node)).Keeps fun _ => True)
      (step.grouper job type (stage.run.draft.path node)).satisfies job.fragments
      (step.target.selections job) nodes
  allows : step.target.Allows job type

/-- The position of a field of an object, under a response key. -/
def ObjectType.slot (type : ObjectType σ) (node : NodeId) (subject : Subject) (key : String)
    (field : FieldDefinition σ) (group : FieldGroup) : Position σ :=
  { parent := node, key := .field key, type := field.type
    site := { typeName := type.name, field, group, owner := subject } }

/-! ### What may stand where -/

mutual

/-- What may stand at a position. Only raw output is not asked to conform. -/
inductive Conforms (job : Job σ) (seen : Sight σ → Prop) : Position σ → Verdict → Prop
  | omitted {position : Position σ} (left : position.LeftOut job seen) :
      Conforms job seen position .omitted
  | raw {position : Position σ} {value : Value} {stage : Stage σ}
      (met : position.Met job seen (.raw value) stage) :
      Conforms job seen position (.shown value.toJson)
  | null {position : Position σ} {value : ResolvedValue σ} {stage : Stage σ}
      (met : position.Met job seen value stage)
      (completes : position.Completes job stage value (.leaf .null true))
      (allowed : position.nonNull = false) : Conforms job seen position (.shown .null)
  | ruledOut {position : Position σ} {value : ResolvedValue σ} {stage : Stage σ}
      (met : position.Met job seen value stage)
      (completes : position.Completes job stage value (.leaf .null true))
      (ruled : position.nonNull = true) : Conforms job seen position .invalid
  | leaf {position : Position σ} {value written : Value} {stage : Stage σ} {name : String}
      {type : TypeDefinition σ} {coerce : Value → Action σ (Except String Value)}
      (met : position.Met job seen (.value value) stage)
      (declared : position.type.nullable = .named name)
      (known : job.schema.type? name = some type) (leaf : type.leafCoercion? = some coerce)
      (accepted : ((coerce value).run stage.world).1 = .ok written) (some_value : written ≠ .null) :
      Conforms job seen position (.shown written.toJson)
  | list {position : Position σ} {value : ResolvedValue σ} {items : List (ResolvedValue σ)}
      {stage : Stage σ} {itemType : TypeRef} (met : position.Met job seen value stage)
      (declared : position.type.nullable = .list itemType) (made_of : value.items? = some items)
      (node : NodeId) (verdicts : Nat → Verdict)
      (each : ∀ n < items.length,
        Conforms job seen (position.item node itemType n) (verdicts n))
      (fine : ∀ n < items.length, verdicts n ≠ .invalid) :
      Conforms job seen position
        (.shown (.array ((List.range items.length).filterMap fun n => (verdicts n).json?)))
  | listNulled {position : Position σ} {value : ResolvedValue σ}
      {items : List (ResolvedValue σ)} {stage : Stage σ} {itemType : TypeRef}
      (met : position.Met job seen value stage)
      (declared : position.type.nullable = .list itemType) (made_of : value.items? = some items)
      (node : NodeId) (n : Nat) (bound : n < items.length)
      (invalid : Conforms job seen (position.item node itemType n) .invalid) :
      Conforms job seen position (.raise position.nonNull .invalid)
  | refusals {position : Position σ} {items : List (ResolvedValue σ)} {stage : Stage σ}
      {itemType : TypeRef} (met : position.Met job seen (.list items) stage)
      (declared : position.type.nullable = .list itemType)
      (errors : items.all (·.isError) = true) (allowed : itemType.isNonNull = false) :
      Conforms job seen position (.shown (.array (items.map fun _ => .null)))
  | refusalsNulled {position : Position σ} {items : List (ResolvedValue σ)} {stage : Stage σ}
      {itemType : TypeRef} (met : position.Met job seen (.list items) stage)
      (declared : position.type.nullable = .list itemType)
      (errors : items.all (·.isError) = true) (ruled : itemType.isNonNull = true) :
      Conforms job seen position (.raise position.nonNull .invalid)
  | object {position : Position σ} {json : Json}
      (builds : Builds job seen (.child position) (.shown json)) :
      Conforms job seen position (.shown json)
  | objectNulled {position : Position σ} (builds : Builds job seen (.child position) .invalid) :
      Conforms job seen position (.raise position.nonNull .invalid)

/-- What an object may be that is built somewhere. -/
inductive Builds (job : Job σ) (seen : Sight σ → Prop) : ObjectTarget σ → Verdict → Prop
  | object {step : ObjectStep σ} {type : ObjectType σ} {node : NodeId} {nodes : List FieldNode}
      (gathers : step.Gathers job seen type node nodes) (verdicts : String → Verdict)
      (typename : ∀ key group, (key, group) ∈ Groups.of nodes → group.first.name = "__typename" →
        verdicts key = .shown (.string type.name))
      (known : ∀ key group, (key, group) ∈ Groups.of nodes → group.first.name ≠ "__typename" →
        ∃ field, Fields.get? type.fields group.first.name = some field)
      (each : ∀ key group field, (key, group) ∈ Groups.of nodes →
        group.first.name ≠ "__typename" → Fields.get? type.fields group.first.name = some field →
        Conforms job seen (type.slot node step.subject key field group) (verdicts key))
      (fine : ∀ key ∈ (Groups.of nodes).keys, verdicts key ≠ .invalid) :
      Builds job seen step.target (.shown (.object ((Groups.of nodes).keys.filterMap fun key =>
        (verdicts key).json?.map fun json => (key, json))))
  | nulled {step : ObjectStep σ} {type : ObjectType σ} {node : NodeId} {nodes : List FieldNode}
      (gathers : step.Gathers job seen type node nodes) {key : String} {group : FieldGroup}
      {field : FieldDefinition σ} (member : (key, group) ∈ Groups.of nodes)
      (known : Fields.get? type.fields group.first.name = some field)
      (invalid : Conforms job seen (type.slot node step.subject key field group) .invalid) :
      Builds job seen step.target .invalid
  | rootFailed {step : ObjectStep σ} {s t : Stage σ} {value : ResolvedValue σ}
      (made : seen (.advanced (.object step) s)) (target : step.target = .root)
      (fails : step.Fails job s value t) : Builds job seen .root .invalid

end

variable {job : Job σ} {seen : Sight σ → Prop}

theorem toJson_eq_null {value : Value} (null : value.toJson = .null) : value = .null := by
  cases value with
  | null => rfl
  | bool b => cases null
  | number n => cases null
  | string s => cases null
  | enum name => cases null
  | binary bytes => cases null
  | list items => cases null
  | object fields => cases null

theorem Verdict.raise_invalid_shown {nonNull : Bool} {json : Json}
    (shown : Verdict.raise nonNull .invalid = .shown json) : nonNull = false ∧ json = .null := by
  cases nonNull with
  | true => cases shown
  | false =>
      injection shown with same
      exact ⟨rfl, same.symm⟩

/-- An object that is shown is no null. -/
theorem Builds.ne_null {target : ObjectTarget σ} : ¬ Builds job seen target (.shown .null) := by
  intro builds
  cases builds

/-- A null that is shown stands where null is allowed, or is raw output. -/
theorem Conforms.null_allowed {position : Position σ}
    (conforms : Conforms job seen position (.shown .null)) :
    position.nonNull = false ∨ ∃ stage, position.Met job seen (.raw .null) stage := by
  generalize shown : Verdict.shown .null = verdict at conforms
  cases conforms with
  | omitted left => cases shown
  | raw met =>
      injection shown with null
      exact .inr ⟨_, toJson_eq_null null.symm ▸ met⟩
  | null met completes allowed => exact .inl allowed
  | ruledOut met completes ruled => cases shown
  | leaf met declared known leaf accepted some_value =>
      injection shown with null
      exact absurd (toJson_eq_null null.symm) some_value
  | list met declared made_of node verdicts each fine => cases shown
  | listNulled met declared made_of node n bound invalid =>
      exact .inl (Verdict.raise_invalid_shown shown.symm).1
  | refusals met declared errors allowed => cases shown
  | refusalsNulled met declared errors ruled =>
      exact .inl (Verdict.raise_invalid_shown shown.symm).1
  | object builds =>
      injection shown with null
      exact absurd (null ▸ builds) Builds.ne_null
  | objectNulled builds => exact .inl (Verdict.raise_invalid_shown shown.symm).1
/-! ### Tasks -/

/-- What a step comes to may stand where it is. -/
def Step.Suited (job : Job σ) (seen : Sight σ → Prop) (v : Verdict) : Step σ → Prop
  | .field step => Conforms job seen step.position v
  | .item step => Conforms job seen step.position v
  | .object step =>
    match step.state.node?, step.target with
    | none, .child position => Conforms job seen position v
    | _, target => Builds job seen target v

/-- What a task comes to may stand where it is. -/
def Task.Suited (job : Job σ) (seen : Sight σ → Prop) (v : Verdict) : Task σ → Prop
  | awake step => step.Suited job seen v
  | asleep step _ => step.Suited job seen v
  | called step _ => step.Suited job seen v
  | written _ _ value nonNull => v = .ofLeaf value nonNull

/-- A step builds an object of a suitable type, from what is selected of it. -/
def Step.Sound (job : Job σ) : Step σ → Prop
  | .object step =>
    step.state.Typed job step.target ∧ step.selections = step.target.selections job
  | _ => True

def Task.Sound (job : Job σ) : Task σ → Prop
  | awake step => step.Sound job
  | asleep step _ => step.Sound job
  | called step _ => step.Sound job
  | written _ _ _ _ => True

namespace Step

variable {step next : Step σ} {position : Position σ} {s t : Stage σ} {value : ResolvedValue σ}
  {v : Verdict}

theorem Stays.sound (stays : step.Stays job next) (sound : step.Sound job) : next.Sound job := by
  cases stays with
  | field _ => trivial
  | item _ => trivial
  | object typed _ => exact ⟨typed sound.1, sound.2⟩
  | @root step type state target =>
      obtain ⟨typed, selected⟩ := sound
      rw [state] at typed
      exact ⟨typed, selected⟩

theorem Stays.suited (stays : step.Stays job next) (suited : next.Suited job seen v) :
    step.Suited job seen v := by
  cases stays with
  | field _ => exact suited
  | item _ => exact suited
  | object _ node =>
      simp only [Suited] at suited ⊢
      rwa [node] at suited
  | root state target =>
      simp only [Suited, state, target, ObjectState.node?] at suited ⊢
      exact suited

theorem Due.suited (due : step.Due job s position value t)
    (conforms : Conforms job seen position v) : step.Suited job seen v := by
  cases due with
  | field _ _ => exact conforms
  | item _ => exact conforms
  | @object step position s t value target fails =>
      have none_yet : step.state.node? = none := by
        cases fails with
        | mistyped state _ => rw [state]; rfl
        | refused state => rw [state]; rfl
        | unauthorized state _ => rw [state]; rfl
        | replaced state _ => rw [state]; rfl
      simp only [Suited, none_yet, target]
      exact conforms

theorem Skips.suited (skips : step.Skips job s position t)
    (conforms : Conforms job seen position v) : step.Suited job seen v := by
  cases skips with
  | field _ _ => exact conforms
  | item _ _ => exact conforms

end Step

/-! ### Values -/

/-- A finished value that completes a position may stand there. -/
theorem Position.Completes.conforms_leaf {position : Position σ} {stage : Stage σ}
    {value : ResolvedValue σ} {written : Value} {checked : Bool}
    (met : position.Met job seen value stage)
    (completes : position.Completes job stage value (.leaf written checked)) :
    Conforms job seen position (.ofLeaf written (checked && position.nonNull)) := by
  have null : ∀ {value : ResolvedValue σ}, position.Met job seen value stage →
      position.Completes job stage value (.leaf .null true) →
      Conforms job seen position (.ofLeaf .null (true && position.nonNull)) := by
    intro value met completes
    cases ruled : position.nonNull with
    | true => exact .ruledOut met completes ruled
    | false => exact .null met completes ruled
  cases completes with
  | null => exact null met .null
  | error error => exact null met (.error error)
  | raw =>
      have shown : Verdict.ofLeaf written (false && position.nonNull) = .shown written.toJson := by
        simp [Verdict.ofLeaf]
      exact shown ▸ .raw met
  | refused some_item errors type => exact null met (.refused some_item errors type)
  | misfit other not_plain named known leaf =>
      exact null met (.misfit other not_plain named known leaf)
  | @leaf value name type coerce coerced other named known leaf answer =>
      have completes : position.Completes job stage (.value value)
          (.leaf (coercedLeaf coerced) true) := .leaf other named known leaf answer
      cases coerced with
      | error message => exact null met completes
      | ok written =>
          cases empty : written.isNull with
          | true =>
              have is_null : written = .null := by
                cases written <;> first | rfl | cases empty
              subst is_null
              exact null met completes
          | false =>
              have some_value : written ≠ .null := by
                rintro rfl
                cases empty
              have shown : Verdict.ofLeaf written (true && position.nonNull) =
                  .shown written.toJson := by
                simp [Verdict.ofLeaf, empty]
              show Conforms job seen position (.ofLeaf written (true && position.nonNull))
              exact shown ▸ .leaf met named known leaf answer some_value

/-! ### Verdicts -/

/-- A type that suits in a finished schema is allowed. -/
theorem ObjectTarget.Suits.allows {target : ObjectTarget σ} {type : ObjectType σ}
    (finished : job.schema.Finished) (suits : target.Suits job type) : target.Allows job type := by
  cases target with
  | root => exact suits
  | child position =>
      rcases suits with ⟨_, name, same, declared, known⟩ | ⟨_, ⟨_, name, same, declared, known⟩, possible⟩
      · injection same with same
        subst same
        exact ⟨name, declared, finished.isPossibleType_self known⟩
      · injection same with same
        subst same
        have own := finished.named.own name _ known
        exact ⟨name, declared, own ▸ possible⟩

theorem ObjectStep.Gathered.gathers {step : ObjectStep σ} {type : ObjectType σ} {node : NodeId}
    {stage : Stage σ} {groups : Groups} {below : List (Task σ)} (finished : job.schema.Finished)
    (gathered : step.Gathered job seen type node stage groups below)
    (sound : (Step.object step).Sound job) :
    ∃ nodes, step.Gathers job seen type node nodes ∧ groups = Groups.of nodes := by
  obtain ⟨grouping, t, rfl, grouped⟩ := gathered.grouped
  have any : ∀ (directives : List Directive) (s : Stage σ) (inclusion : Inclusion) (t : Stage σ),
      True → ((step.grouper job type (stage.run.draft.path node)).inclusion directives).Gives s
        inclusion t → True := fun _ _ _ _ _ _ => trivial
  obtain ⟨nodes, gathers, same⟩ := Grouper.group_gathers any trivial grouped
  obtain ⟨typed, selected⟩ := sound
  rw [gathered.state] at typed
  rw [selected] at gathers
  exact ⟨nodes, ⟨gathered.state, ⟨stage, gathered.made, gathers⟩,
    ObjectTarget.Suits.allows finished typed⟩, same⟩

variable {step : Step σ} {s : Stage σ} {position : Position σ} {value : ResolvedValue σ}
  {outcome : Outcome σ} {size : Nat}

theorem Step.Completed.conforms_list (completed : step.Completed job seen position s value outcome)
    (sized : outcome.size? = some size) (verdicts : PathSegment → Verdict)
    (each : ∀ task ∈ outcome.below position s.run.draft.nodes.size, ∀ id key,
      task.spot = .slot id key → task.Suited job seen (verdicts key))
    (fine : ∀ task ∈ outcome.below position s.run.draft.nodes.size, ∀ id key,
      task.spot = .slot id key → verdicts key ≠ .invalid) :
    Conforms job seen position (.shown ((Shape.list size).json verdicts)) := by
  obtain ⟨⟨first, -, -, made, due, -⟩, completes⟩ := completed
  have met : position.Met job seen value s := ⟨step, first, made, due⟩
  cases completes with
  | @refusals items itemType some_item errors declared =>
      injection sized with sized
      subst sized
      obtain ⟨allowed, nulls⟩ := Shape.json_nulls
        (Nat.pos_iff_ne_zero.mp (List.length_pos_iff.mpr some_item))
        (fun n bound => each _ (Outcome.written_below bound) _ (.index n) rfl)
        fun n bound => fine _ (Outcome.written_below bound) _ (.index n) rfl
      rw [nulls, ← List.map_const']
      exact .refusals met declared errors allowed
  | @items _ items itemType other declared made_of =>
      injection sized with sized
      subst sized
      have there : ∀ (n : Nat) (bound : n < items.length),
          Task.awake (.item ⟨position.item s.run.draft.nodes.size itemType n, .runDirectives
            (.new job.schema (·.resolveEach?) position.site.directives) items[n]⟩) ∈
          (Outcome.items itemType (.new job.schema (·.resolveEach?) position.site.directives)
            items).below position s.run.draft.nodes.size := by
        intro n bound
        refine List.mem_map.mpr ⟨_, (position.mem_itemSteps items 0).mpr ⟨n, bound, ?_⟩, rfl⟩
        rw [Nat.zero_add]
      refine .list met declared made_of s.run.draft.nodes.size (fun n => verdicts (.index n)) ?_ ?_
      · exact fun n bound => each _ (there n bound) _ (.index n) rfl
      · exact fun n bound => fine _ (there n bound) _ (.index n) rfl
  | _ => cases sized

theorem Step.Completed.conforms_listNulled {task : Task σ}
    (completed : step.Completed job seen position s value outcome)
    (sized : outcome.size? = some size)
    (member : task ∈ outcome.below position s.run.draft.nodes.size)
    (invalid : task.Suited job seen .invalid) :
    Conforms job seen position (.raise position.nonNull .invalid) := by
  obtain ⟨⟨first, -, -, made, due, -⟩, completes⟩ := completed
  have met : position.Met job seen value s := ⟨step, first, made, due⟩
  cases completes with
  | @refusals items itemType some_item errors declared =>
      obtain ⟨n, -, rfl⟩ := List.mem_map.mp member
      have ruled : itemType.isNonNull = true := by
        cases ruled : itemType.isNonNull with
        | true => rfl
        | false =>
            simp [Task.Suited, Verdict.ofLeaf, ruled] at invalid
      exact .refusalsNulled met declared errors ruled
  | @items _ items itemType other declared made_of =>
      obtain ⟨step, there, rfl⟩ := List.mem_map.mp member
      obtain ⟨n, bound, rfl⟩ := (position.mem_itemSteps items 0).mp there
      exact .listNulled met declared made_of _ _ bound (Nat.zero_add n ▸ invalid)
  | _ => cases sized

theorem ObjectStep.Gathered.builds {step : ObjectStep σ} {type : ObjectType σ} {node : NodeId}
    {groups : Groups} {below : List (Task σ)} (finished : job.schema.Finished)
    (gathered : step.Gathered job seen type node s groups below)
    (sound : (Step.object step).Sound job) (verdicts : PathSegment → Verdict)
    (each : ∀ task ∈ below, ∀ id key, task.spot = .slot id key →
      task.Suited job seen (verdicts key))
    (fine : ∀ task ∈ below, ∀ id key, task.spot = .slot id key → verdicts key ≠ .invalid) :
    Builds job seen step.target (.shown ((Shape.object groups.keys).json verdicts)) := by
  obtain ⟨nodes, gathers, rfl⟩ := gathered.gathers finished sound
  obtain ⟨forward, -⟩ := launched_iff gathered.launched
  refine .object gathers (fun key => verdicts (.field key)) ?_ ?_ ?_ ?_
  · intro key group member typename
    obtain ⟨task, there, found⟩ := forward _ member
    rcases launched?_eq found with ⟨-, rfl⟩ | ⟨other, -⟩
    · exact each _ there node (.field key) rfl
    · exact absurd typename other
  · intro key group member other
    obtain ⟨task, there, found⟩ := forward _ member
    rcases launched?_eq found with ⟨typename, -⟩ | ⟨-, field, known, -⟩
    · exact absurd typename other
    · exact ⟨field, known⟩
  · intro key group field member other known
    obtain ⟨task, there, found⟩ := forward _ member
    rcases launched?_eq found with ⟨typename, -⟩ | ⟨-, field', known', rfl⟩
    · exact absurd typename other
    · rw [known] at known'
      injection known' with same
      subst same
      exact each _ there node (.field key) rfl
  · intro key member
    obtain ⟨group, entry⟩ := Fields.get?_of_mem_keys member
    obtain ⟨task, there, found⟩ := forward _ (Fields.mem_of_get? entry)
    rcases launched?_eq found with ⟨-, rfl⟩ | ⟨-, field, -, rfl⟩
    · exact fine _ there node (.field key) rfl
    · exact fine _ there node (.field key) rfl

theorem ObjectStep.Gathered.nulled {step : ObjectStep σ} {type : ObjectType σ} {node : NodeId}
    {groups : Groups} {below : List (Task σ)} {task : Task σ} (finished : job.schema.Finished)
    (gathered : step.Gathered job seen type node s groups below)
    (sound : (Step.object step).Sound job) (member : task ∈ below)
    (invalid : task.Suited job seen .invalid) : Builds job seen step.target .invalid := by
  obtain ⟨nodes, gathers, rfl⟩ := gathered.gathers finished sound
  obtain ⟨-, backward⟩ := launched_iff gathered.launched
  obtain ⟨⟨key, group⟩, there, found⟩ := backward task member
  rcases launched?_eq found with ⟨-, rfl⟩ | ⟨-, field, known, rfl⟩
  · cases invalid
  · exact .nulled gathers there known invalid

/-- A step for the object that a value is made into is sound. -/
theorem Position.Completes.object_sound {object : ObjectStep σ}
    (completes : position.Completes job s value (.object object)) :
    (Step.object object).Sound job := by
  cases completes with
  | @object value name type v subject other named known composite output made same =>
      have declares : (ObjectTarget.child position).Declares job type :=
        ⟨position, name, rfl, named, known⟩
      cases type with
      | object t => exact ⟨.inl declares, rfl⟩
      | scalar t => cases composite
      | enum t => cases composite
      | interface t => exact ⟨declares, rfl⟩
      | union t => exact ⟨declares, rfl⟩
      | inputObject t => exact absurd rfl (output t)

theorem Position.Completes.object_conforms {object : ObjectStep σ}
    (completes : position.Completes job s value (.object object)) (v : Verdict)
    (suited : (Step.object object).Suited job seen v) : Conforms job seen position v := by
  cases completes with
  | @object value name type v subject other named known composite output made same =>
      cases type <;> exact suited

/-- An object is not left out of its position. -/
theorem Builds.ne_omitted {target : ObjectTarget σ} : ¬ Builds job seen target .omitted := by
  intro builds
  cases builds

theorem Builds.conforms {v : Verdict} (builds : Builds job seen (.child position) v) :
    Conforms job seen position (v.raise position.nonNull) := by
  cases v with
  | shown json => exact .object builds
  | omitted => exact absurd builds Builds.ne_omitted
  | invalid => exact .objectNulled builds

theorem Outcome.sound_below {list : NodeId} :
    ∀ task ∈ outcome.below position list, task.Sound job := by
  intro task mem
  cases outcome with
  | refusals itemType size =>
      obtain ⟨n, -, rfl⟩ := List.mem_map.mp mem
      exact trivial
  | items itemType cursor values =>
      obtain ⟨step, there, rfl⟩ := List.mem_map.mp mem
      obtain ⟨n, bound, rfl⟩ := (position.mem_itemSteps values 0).mp there
      exact trivial
  | _ => cases mem

theorem ObjectStep.Launched.sound {step : ObjectStep σ} {type : ObjectType σ} {node : NodeId}
    {groups : Groups} {below : List (Task σ)} (launched : step.Launched job type node groups below) :
    ∀ task ∈ below, task.Sound job := by
  intro task mem
  obtain ⟨entry, -, found⟩ := (launched_iff launched).2 task mem
  rcases launched?_eq found with ⟨-, rfl⟩ | ⟨-, field, -, rfl⟩
  · exact trivial
  · exact trivial

/-- What a task comes to may stand where it is. -/
theorem Comes.suited {task : Task σ} {v : Verdict} (finished : job.schema.Finished)
    (comes : Comes job seen task v) (sound : task.Sound job) : task.Suited job seen v := by
  induction comes with
  | @passed step next s t progress task v made gives goes stays leaves after ih =>
      refine stays.suited ?_
      have sound := stays.sound sound
      cases progress with
      | again next' =>
          injection leaves with leaves
          injection goes with goes
          subst leaves goes
          exact ih sound
      | finished => cases goes
      | parked next' depth wait =>
          injection leaves with leaves
          injection goes with goes
          subst leaves goes
          exact ih sound
  | skipped made skips => exact skips.suited (.omitted (.inl ⟨_, _, _, made, skips⟩))
  | leaf completed =>
      obtain ⟨⟨first, -, -, made, due, -⟩, completes⟩ := completed
      exact due.suited (completes.conforms_leaf ⟨_, first, made, due⟩)
  | omitted completed =>
      obtain ⟨⟨first, -, -, made, due, -⟩, completes⟩ := completed
      cases completes with
      | skip => exact due.suited (.omitted (.inr ⟨_, _, first, made, due⟩))
  | object completed after ih =>
      obtain ⟨⟨first, -, -, made, due, -⟩, completes⟩ := completed
      exact due.suited (completes.object_conforms _ (ih completes.object_sound))
  | listed completed sized verdicts each fine ih =>
      obtain ⟨first, -, -, made, due, -⟩ := completed.due
      refine due.suited (completed.conforms_list sized verdicts ?_ fine)
      intro task member id key there
      exact ih task member id key there (Outcome.sound_below task member)
  | listNulled completed sized member invalid ih =>
      obtain ⟨first, -, -, made, due, -⟩ := completed.due
      exact due.suited (completed.conforms_listNulled sized member
        (ih (Outcome.sound_below _ member)))
  | @allocated step s t type position progress v made state target gives left after ih =>
      obtain ⟨typed, selected⟩ := sound
      rw [state] at typed
      have builds : Builds job seen step.target v := ih ⟨typed, selected⟩
      rw [target] at builds
      simp only [Task.Suited, Step.Suited, state, target, ObjectState.node?]
      exact builds.conforms
  | gathered gathered verdicts each fine ih =>
      simp only [Task.Suited, Step.Suited, gathered.state, ObjectState.node?]
      refine gathered.builds finished sound verdicts ?_ fine
      intro task member id key there
      exact ih task member id key there (gathered.launched.sound task member)
  | gatheredNulled gathered member invalid ih =>
      simp only [Task.Suited, Step.Suited, gathered.state, ObjectState.node?]
      exact gathered.nulled finished sound member (ih (gathered.launched.sound _ member))
  | @rootFailed step s t value made target fails =>
      have builds : Builds job seen .root .invalid := .rootFailed made target fails
      simp only [Task.Suited, Step.Suited, target]
      split
      · rename_i same
        cases same
      · exact builds
  | waited heard polled after ih => exact ih sound
  | answered heard polled after ih => exact ih sound
  | resumed resumes after ih =>
      have stays : Step.Stays job _ _ := Step.resume_stays resumes
      exact stays.suited (ih (stays.sound sound))
  | written node key value nonNull => rfl

end GraphExec
