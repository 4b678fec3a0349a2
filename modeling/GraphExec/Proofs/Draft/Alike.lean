import GraphExec.Proofs.Draft.Written

/-!
# Drafts that read alike

An object whose keys are in order is read in this order, whenever its entries have come; of a list
it does not matter in which order its places were left out. So drafts are read alike if their nodes
are in the same places, the same of them are dead, and the others have the same at each slot.
-/

namespace GraphExec

namespace Content

variable {content one other : Content} {key : PathSegment}

/-! ### Contents -/

/-- Two contents have the same slots, and the same at each of them. -/
structure Alike (one other : Content) : Prop where
  shape : other.shape = one.shape
  held : ∀ key, other.held? key = one.held? key
  skips : ∀ key, other.Skips key ↔ one.Skips key

theorem Alike.refl (content : Content) : content.Alike content :=
  ⟨rfl, fun _ => rfl, fun _ => .rfl⟩

theorem Alike.symm (alike : one.Alike other) : other.Alike one :=
  ⟨alike.shape.symm, fun key => (alike.held key).symm, fun key => (alike.skips key).symm⟩

theorem Alike.trans {last : Content} (first : one.Alike other) (second : other.Alike last) :
    one.Alike last where
  shape := second.shape.trans first.shape
  held key := (second.held key).trans (first.held key)
  skips key := (second.skips key).trans (first.skips key)

/-- A name of an object is recorded if it is among the keys of the object in order. -/
def Records : Content → PathSegment → Prop
  | .object _ keys, .field name => name ∈ keys
  | _, _ => True

/-- What is recorded depends on the slots only. -/
theorem records_congr (same : other.shape = one.shape) : other.Records key ↔ one.Records key := by
  cases one <;> cases other <;> cases key <;> simp_all [Content.shape, Records]

/-- Lists with the same places are the same. -/
theorem items_eq {items items' : List (Option Entry)} {skipped skipped' : List Nat}
    (alike : (Content.list items skipped).Alike (.list items' skipped')) : items' = items := by
  have length : items'.length = items.length := by
    have same := alike.shape
    simpa [Content.shape] using same
  refine List.ext_getElem length fun n bound bound' => ?_
  have same := alike.held (.index n)
  simpa [held?, bound, bound'] using same

/-- Contents that are alike are read alike, provided that all entries of objects are recorded. -/
theorem contentJson_alike (alike : one.Alike other)
    (recorded : ∀ key entry, one.held? key = some entry → one.Records key) (f : NodeId → Json) :
    Draft.contentJson f other = Draft.contentJson f one := by
  obtain ⟨shape, held, skips⟩ := alike
  cases one with
  | object entries keys =>
      cases other with
      | list items skipped => cases shape
      | object entries' keys' =>
          have order : keys' = keys := by simpa [Content.shape] using shape
          subst order
          have found (name : String) : Fields.get? entries' name = Fields.get? entries name :=
            held (.field name)
          by_cases bare : keys' = []
          · -- without keys in order there are no entries that could be in different orders
            subst bare
            have none_there (name : String) : Fields.get? entries name = none := by
              cases there : Fields.get? entries name with
              | none => rfl
              | some entry => exact absurd (recorded (.field name) entry there) List.not_mem_nil
            have none_there' (name : String) : Fields.get? entries' name = none :=
              (found name).trans (none_there name)
            rw [Fields.eq_nil_of_get? none_there, Fields.eq_nil_of_get? none_there']
          · have ordered : keys'.isEmpty = false := by simpa using bare
            simp only [Draft.contentJson, ordered, found, Bool.false_eq_true, if_false]
  | list items skipped =>
      cases other with
      | object entries keys => cases shape
      | list items' skipped' =>
          have same : items' = items := items_eq ⟨shape, held, skips⟩
          subst same
          have left_out (n : Nat) : skipped'.contains n = skipped.contains n := by
            have iff : n ∈ skipped' ↔ n ∈ skipped := skips (.index n)
            rw [Bool.eq_iff_iff]
            simpa using iff
          simp only [Draft.contentJson, left_out]

/-! ### Changes of one slot -/

/-- A change that concerns one slot: whatever stands elsewhere stays, and what comes to stand there
depends on what stood there. -/
structure LocalAt (key : PathSegment) (change : Content → Content) : Prop where
  shape : ∀ content, (change content).shape = content.shape
  plain : ∀ {content : Content}, content.Plain → (change content).Plain
  held : ∀ content other, other ≠ key → (change content).held? other = content.held? other
  skips : ∀ content other, other ≠ key → ((change content).Skips other ↔ content.Skips other)
  here : ∀ {one other : Content}, one.Plain → other.Plain → other.shape = one.shape →
    other.held? key = one.held? key → (other.Skips key ↔ one.Skips key) →
    (change other).held? key = (change one).held? key ∧
      ((change other).Skips key ↔ (change one).Skips key)

/-- Contents of one shape are two objects with the same keys, or two lists of the same length. -/
theorem shape_cases {one other : Content} (shape : other.shape = one.shape) :
    (∃ entries entries' keys, one = .object entries keys ∧ other = .object entries' keys) ∨
      ∃ items items' skipped skipped', one = .list items skipped ∧ other = .list items' skipped' ∧
        items'.length = items.length := by
  cases one with
  | object entries keys =>
      cases other with
      | object entries' keys' =>
          injection shape with same
          exact .inl ⟨entries, entries', keys, rfl, same ▸ rfl⟩
      | list items skipped => cases shape
  | list items skipped =>
      cases other with
      | object entries keys => cases shape
      | list items' skipped' =>
          injection shape with length
          exact .inr ⟨items, items', skipped, skipped', rfl, rfl, length⟩

theorem localAt_put (key : PathSegment) (entry : Entry) :
    LocalAt key fun content => content.put key entry where
  shape content := shape_put content key entry
  plain plain := plain.put key entry
  held content other apart := held?_put_of_ne apart entry
  skips content other _ := skips_put content key other entry
  here := by
    intro one other _ _ shape held skips
    rw [skips_put, skips_put]
    refine ⟨?_, skips⟩
    rcases shape_cases shape with ⟨entries, entries', keys, rfl, rfl⟩ |
      ⟨items, items', skipped, skipped', rfl, rfl, length⟩
    · cases key with
      | field name => simp [put, held?, Fields.get?_insert]
      | index n => rfl
    · cases key with
      | field name => rfl
      | index n => simp only [put, held?, List.getElem?_set, if_true, length]

theorem localAt_skip (key : PathSegment) : LocalAt key fun content => content.skip key where
  shape content := shape_skip content key
  plain plain := plain.skip key
  held := by
    intro content other apart
    cases content with
    | object entries keys =>
        cases key with
        | index n => rfl
        | field name =>
            cases other with
            | index n => rfl
            | field name' =>
                have differs : name' ≠ name := fun same => apart (congrArg _ same)
                exact Fields.get?_erase_of_ne differs
    | list items skipped => cases key <;> cases other <;> rfl
  skips := by
    intro content other apart
    cases content <;> cases key <;> cases other <;> simp_all [skip, Skips]
  here := by
    intro one other plain plain' shape held skips
    rcases shape_cases shape with ⟨entries, entries', keys, rfl, rfl⟩ |
      ⟨items, items', skipped, skipped', rfl, rfl, length⟩
    · cases key with
      | field name =>
          simp only [skip, held?]
          rw [Fields.get?_erase_self plain, Fields.get?_erase_self plain']
          exact ⟨rfl, .rfl⟩
      | index n => exact ⟨rfl, .rfl⟩
    · cases key with
      | field name => exact ⟨rfl, .rfl⟩
      | index n =>
          refine ⟨held, ?_⟩
          simp [skip, Skips]

/-- Contents that are alike stay so under the same change of a slot. -/
theorem LocalAt.alike {change : Content → Content} (isLocal : LocalAt key change)
    (alike : one.Alike other) (plain : one.Plain) (plain' : other.Plain) :
    (change one).Alike (change other) := by
  have here := isLocal.here plain plain' alike.shape (alike.held key) (alike.skips key)
  refine ⟨?_, fun slot => ?_, fun slot => ?_⟩
  · rw [isLocal.shape, isLocal.shape, alike.shape]
  · by_cases same : slot = key
    · exact same ▸ here.1
    · rw [isLocal.held _ _ same, isLocal.held _ _ same, alike.held]
  · by_cases same : slot = key
    · exact same ▸ here.2
    · rw [isLocal.skips _ _ same, isLocal.skips _ _ same, alike.skips]

/-- Changes of different slots may be made in either order. -/
theorem LocalAt.commute {key' : PathSegment} {change change' : Content → Content}
    (first : LocalAt key change) (second : LocalAt key' change') (apart : key ≠ key')
    (plain : content.Plain) : (change' (change content)).Alike (change (change' content)) := by
  have at_first := first.here plain (second.plain plain) (second.shape content)
    (second.held content key apart) (second.skips content key apart)
  have at_second := second.here plain (first.plain plain) (first.shape content)
    (first.held content key' apart.symm) (first.skips content key' apart.symm)
  refine ⟨?_, fun slot => ?_, fun slot => ?_⟩
  · rw [first.shape, second.shape, second.shape, first.shape]
  · by_cases one : slot = key
    · subst one
      rw [second.held _ _ apart, at_first.1]
    · by_cases other : slot = key'
      · subst other
        rw [first.held _ _ one, at_second.1]
      · rw [first.held _ _ one, second.held _ _ other, second.held _ _ other, first.held _ _ one]
  · by_cases one : slot = key
    · subst one
      rw [second.skips _ _ apart, at_first.2]
    · by_cases other : slot = key'
      · subst other
        rw [first.skips _ _ one, at_second.2]
      · rw [first.skips _ _ one, second.skips _ _ other, second.skips _ _ other,
          first.skips _ _ one]

end Content

/-! ### Drafts -/

namespace Draft

variable {one other : Draft}

/-- The nodes of two drafts are in the same places, the same of them are dead, and the contents of
the others are alike. -/
structure Alike (one other : Draft) : Prop where
  size : other.nodes.size = one.nodes.size
  parent : ∀ id, other.parent? id = one.parent? id
  nonNull : ∀ id, other.nonNull id = one.nonNull id
  alive : ∀ id, other.Alive id ↔ one.Alive id
  null : other.dataIsNull = one.dataIsNull
  content : ∀ id content content', one.Alive id → one.content? id = some content →
    other.content? id = some content' → content.Alike content'

theorem Alike.refl (draft : Draft) : draft.Alike draft where
  size := rfl
  parent _ := rfl
  nonNull _ := rfl
  alive _ := .rfl
  null := rfl
  content id content content' _ here here' := by
    have same : content = content' := Option.some.inj (here.symm.trans here')
    exact same ▸ .refl content

theorem Alike.symm (alike : one.Alike other) : other.Alike one where
  size := alike.size.symm
  parent id := (alike.parent id).symm
  nonNull id := (alike.nonNull id).symm
  alive id := (alike.alive id).symm
  null := alike.null.symm
  content id content content' alive here here' :=
    (alike.content id content' content ((alike.alive id).mp alive) here' here).symm

theorem Alike.trans {last : Draft} (first : one.Alike other) (second : other.Alike last) :
    one.Alike last where
  size := second.size.trans first.size
  parent id := (second.parent id).trans (first.parent id)
  nonNull id := (second.nonNull id).trans (first.nonNull id)
  alive id := (second.alive id).trans (first.alive id)
  null := second.null.trans first.null
  content id content content' alive here here' := by
    have alive' := (first.alive id).mpr alive
    obtain ⟨middle, between⟩ := alive'.content
    exact (first.content id content middle alive here between).trans
      (second.content id middle content' alive' between here')

/-- A key of a node is recorded: if the node is an object and lives, it is among the keys in
order. -/
def Records (draft : Draft) (id : NodeId) (key : PathSegment) : Prop :=
  draft.Alive id → ∀ content, draft.content? id = some content → content.Records key

/-- Every key of a live object is among its keys in order, be it that of an entry or one that a node
was allocated at. -/
structure Recorded (draft : Draft) : Prop where
  entries : ∀ id key entry, draft.held? id key = some entry → draft.Records id key
  nodes : ∀ id parent slot, draft.parent? id = some (parent, slot) → draft.Records parent slot

/-- Drafts that are alike are read alike. -/
theorem Alike.toJson_eq (alike : one.Alike other) (lawful : one.Lawful) (recorded : one.Recorded) :
    other.toJson = one.toJson := by
  refine lawful.toJson_congr (fun id content alive found => ?_) (Nat.le_of_eq alike.size.symm)
    alike.null
  obtain ⟨content', found'⟩ := ((alike.alive id).mpr alive).content
  refine ⟨content', found', ?_⟩
  refine Content.contentJson_alike (alike.content id content content' alive found found') ?_
  intro key entry held
  have there : one.held? id key = some entry := by
    rw [held?, found]
    exact held
  exact recorded.entries id key entry there alive content found

end Draft

end GraphExec
