import GraphExec.Proofs.Draft.Walk

/-!
# Drafts written in any order

The operations on a draft are applied one after another, in any order and as often as one likes to
one slot. The main statement: nothing lives below a dead node, what is dead stays so, and unless all
is null no dead node can be reached from the root, so that what is written to a dead node is not seen.
-/

namespace GraphExec

namespace Draft

variable {draft : Draft}

/-- An operation on a draft. -/
inductive Op where
  /-- Allocates an object. -/
  | newObject (parent : NodeId) (key : PathSegment) (value : AppValue) (nonNull : Bool)
  /-- Allocates a list with a number of places. -/
  | newList (parent : NodeId) (key : PathSegment) (size : Nat) (nonNull : Bool)
  /-- Fixes the keys of an object. -/
  | setKeys (id : NodeId) (keys : List String)
  /-- Writes a finished value. -/
  | setLeaf (id : NodeId) (key : PathSegment) (value : Value) (nonNull : Bool)
  /-- Writes an entry. -/
  | setEntry (id : NodeId) (key : PathSegment) (entry : Entry) (nonNull : Bool)
  /-- Leaves a key out. -/
  | skip (id : NodeId) (key : PathSegment)
  /-- Makes the whole of the data null. -/
  | nullData

namespace Op

/-- What an operation makes of a draft. -/
def apply (draft : Draft) : Op → Draft
  | newObject parent key value nonNull => (draft.newObject parent key value nonNull).2
  | newList parent key size nonNull => (draft.newList parent key size nonNull).2
  | setKeys id keys => draft.setKeys id keys
  | setLeaf id key value nonNull => draft.setLeaf id key value nonNull
  | setEntry id key entry nonNull => draft.setEntry id key entry nonNull
  | skip id key => draft.skip id key
  | nullData => draft.nullData

/-- The node that an operation is aimed at. -/
def target? : Op → Option NodeId
  | newObject parent _ _ _ => some parent
  | newList parent _ _ _ => some parent
  | setKeys id _ => some id
  | setLeaf id _ _ _ => some id
  | setEntry id _ _ _ => some id
  | skip id _ => some id
  | nullData => none

/-- A node that is written as an entry of a live one was allocated there, and lives: nodes stand
nowhere else. -/
def Own (draft : Draft) : Op → Prop
  | setEntry id key (.node child) _ =>
    draft.Alive id → draft.parent? child = some (id, key) ∧ draft.Alive child
  | _ => True

/-- An operation refers to nodes that there are. -/
structure Valid (draft : Draft) (op : Op) : Prop where
  known : ∀ id, op.target? = some id → id < draft.nodes.size
  own : op.Own draft

theorem known_of_lt {op : Op} {id : NodeId} (target : op.target? = some id)
    (bound : id < draft.nodes.size) :
    ∀ other, op.target? = some other → other < draft.nodes.size := by
  intro other target'
  rw [target] at target'
  injection target' with same
  exact same ▸ bound

end Op

/-- A draft comes from another one by operations, one after another. -/
inductive Written (first : Draft) : Draft → Prop
  | nothing : Written first first
  | next {draft : Draft} (written : Written first draft) (op : Op) (valid : op.Valid draft) :
      Written first (op.apply draft)

/-! ### What every operation keeps -/

theorem Lawful.apply (lawful : draft.Lawful) {op : Op} (valid : op.Valid draft) :
    (op.apply draft).Lawful := by
  cases op with
  | newObject parent key value nonNull =>
      have blank : ∀ key, Content.emptyObject.held? key = none := by
        intro key
        cases key <;> rfl
      exact lawful.allocate (valid.known parent rfl) key Content.plain_emptyObject blank _ _
  | newList parent key size nonNull =>
      exact lawful.allocate (valid.known parent rfl) key (Content.plain_emptyList size)
        (Content.held?_emptyList size) _ _
  | setKeys id keys => exact lawful.setKeys id keys
  | setLeaf id key value nonNull => exact lawful.setEntry id key nonNull nofun
  | setEntry id key entry nonNull =>
      refine lawful.setEntry id key nonNull fun child same alive => ?_
      subst same
      exact valid.own alive
  | skip id key => exact lawful.skip id key
  | nullData => exact lawful.nullData

theorem Written.lawful {first : Draft} (lawful : first.Lawful) (written : Written first draft) :
    draft.Lawful := by
  induction written with
  | nothing => exact lawful
  | next _ op valid ih => exact ih.apply valid

/-- The nodes that there are stay, and stay dead if they are. -/
theorem Op.stays_dead (op : Op) :
    draft.nodes.size ≤ (op.apply draft).nodes.size ∧
      ∀ id, id < draft.nodes.size → draft.isDead id = true → (op.apply draft).isDead id = true := by
  have of_fixes : ∀ {after : Draft}, Fixes (fun _ => True) draft after →
      draft.nodes.size ≤ after.nodes.size ∧
        ∀ id, id < draft.nodes.size → draft.isDead id = true → after.isDead id = true :=
    fun fixes => ⟨fixes.size, fixes.dead⟩
  have of_allocation : ∀ parent key content value? nonNull,
      draft.nodes.size ≤ (draft.allocate parent key content value? nonNull).2.nodes.size ∧
        ∀ id, id < draft.nodes.size → draft.isDead id = true →
          (draft.allocate parent key content value? nonNull).2.isDead id = true := by
    intro parent key content value? nonNull
    refine ⟨by rw [size_allocate]; omega, fun id inside dead => ?_⟩
    rw [isDead_allocate_of_lt inside]
    exact dead
  cases op with
  | newObject parent key value nonNull => exact of_allocation _ _ _ _ _
  | newList parent key size nonNull => exact of_allocation _ _ _ _ _
  | setKeys id keys =>
      refine ⟨Nat.le_of_eq (size_setKeys draft id keys).symm, fun other _ dead => ?_⟩
      rw [apply, setKeys_eq_edit, isDead_edit]
      exact dead
  | setLeaf id key value nonNull => exact of_fixes (fixes_setLeaf draft id key value nonNull)
  | setEntry id key entry nonNull => exact of_fixes (fixes_setEntry draft id key entry nonNull)
  | skip id key => exact of_fixes (fixes_skip draft id key)
  | nullData => exact of_fixes (fixes_nullData draft root)

theorem Written.stays_dead {after : Draft} (written : Written draft after) :
    draft.nodes.size ≤ after.nodes.size ∧
      ∀ id, id < draft.nodes.size → draft.isDead id = true → after.isDead id = true := by
  induction written with
  | nothing => exact ⟨Nat.le_refl _, fun _ _ dead => dead⟩
  | next _ op _ ih =>
      obtain ⟨size, dead⟩ := op.stays_dead
      refine ⟨Nat.le_trans ih.1 size, fun id inside was_dead => ?_⟩
      exact dead id (Nat.lt_of_lt_of_le inside ih.1) (ih.2 id inside was_dead)

/-- A draft that is written on from one that has been written has been written. -/
theorem Written.trans {middle after : Draft} (first : Written draft middle)
    (second : Written middle after) : Written draft after := by
  induction second with
  | nothing => exact first
  | next _ op valid ih => exact ih.next op valid

end Draft

namespace Plan

variable {T : Type} {spot : T → Spot} {comes : T → Verdict → Prop}

/-- A task that is done writes the draft by one operation at most. -/
theorem Move.written {before after : Plan T} (move : Move spot comes before after)
    (tidy : Tidy spot before) : Draft.Written before.draft after.draft := by
  have known {draft : Draft} {task : T} {rest : List T} {at_spot : Spot}
      (tidy : Tidy spot ⟨draft, task :: rest⟩) (here : spot task = at_spot) :
      at_spot.id < draft.nodes.size := here ▸ tidy.known task List.mem_cons_self
  cases move with
  | sort same => exact .nothing
  | pass same backward => exact .nothing
  | lose dead => exact .nothing
  | @write draft task rest id key value nonNull here verdict =>
      have bound : id < draft.nodes.size := known tidy here
      exact Draft.Written.nothing.next (.setLeaf id key value nonNull)
        ⟨Draft.Op.known_of_lt rfl bound, trivial⟩
  | @leaveOut draft task rest id key here verdict =>
      have bound : id < draft.nodes.size := known tidy here
      exact Draft.Written.nothing.next (.skip id key) ⟨Draft.Op.known_of_lt rfl bound, trivial⟩
  | @openList draft task below rest id key size nonNull here alive slots assembles =>
      have bound : id < draft.nodes.size := known tidy here
      exact Draft.Written.nothing.next (.newList id key size nonNull)
        ⟨Draft.Op.known_of_lt rfl bound, trivial⟩
  | @openObject draft task other rest id key value nonNull here alive there backward =>
      have bound : id < draft.nodes.size := known tidy here
      exact Draft.Written.nothing.next (.newObject id key value nonNull)
        ⟨Draft.Op.known_of_lt rfl bound, trivial⟩
  | @fill draft task below rest id keys here alive distinct slots assembles =>
      have bound : id < draft.nodes.size := known tidy here
      exact Draft.Written.nothing.next (.setKeys id keys) ⟨Draft.Op.known_of_lt rfl bound, trivial⟩
  | nullRoot here verdict =>
      refine Draft.Written.nothing.next .nullData ⟨fun id target => ?_, trivial⟩
      cases target

theorem Reaches.written {first last : Plan T} (reaches : Reaches spot comes first last)
    (tidy : Tidy spot first) : Draft.Written first.draft last.draft := by
  induction reaches with
  | refl => exact .nothing
  | step move rest ih => exact (move.written tidy).trans (ih (move.tidy tidy))

end Plan

namespace Draft

variable {draft : Draft}

/-! ### What is seen -/

/-- The JSON of a content depends on that of the nodes in it only. -/
theorem contentJson_congr {f g : NodeId → Json} {content : Content}
    (same : ∀ key child, content.held? key = some (.node child) → f child = g child) :
    contentJson f content = contentJson g content := by
  have entryJson_eq : ∀ key entry, content.held? key = some entry →
      entryJson f entry = entryJson g entry := by
    intro key entry held
    cases entry with
    | leaf value => rfl
    | node child => exact same key child held
  cases content with
  | object entries keys =>
      have read : (fun key => (Fields.get? entries key).map fun entry => (key, entryJson f entry)) =
          fun key => (Fields.get? entries key).map fun entry => (key, entryJson g entry) := by
        funext key
        cases found : Fields.get? entries key with
        | none => rfl
        | some entry =>
            rw [Option.map_some, Option.map_some, entryJson_eq (.field key) entry found]
      simp only [contentJson, read]
  | list items skipped =>
      simp only [contentJson, Json.array.injEq]
      refine List.map_congr_left fun place mem => ?_
      obtain ⟨item, n⟩ := place
      cases item with
      | none => rfl
      | some entry =>
          have here : items[n]? = some (some entry) :=
            List.mem_zipIdx_iff_getElem?.mp (List.mem_filter.mp mem).1
          have held : (Content.list items skipped).held? (.index n) = some entry := by
            simp [Content.held?, here]
          rw [Option.map_some, Option.map_some, entryJson_eq (.index n) entry held]

/-- A draft in which the contents of the live nodes read the same reads the same, however much fuel
there is. -/
theorem Lawful.nodeJson_congr (lawful : draft.Lawful) {other : Draft}
    (reads : ∀ id content, draft.Alive id → draft.content? id = some content →
      ∃ content', other.content? id = some content' ∧
        ∀ f, contentJson f content' = contentJson f content) (fuel : Nat) :
    ∀ (fuel' id : Nat), draft.Alive id → draft.nodes.size ≤ id + fuel →
      draft.nodes.size ≤ id + fuel' → other.nodeJson fuel' id = draft.nodeJson fuel id := by
  induction fuel with
  | zero =>
      intro fuel' id alive bound
      have known : id < draft.nodes.size := alive.lt_size
      omega
  | succ fuel ih =>
      intro fuel' id alive bound bound'
      have known : id < draft.nodes.size := alive.lt_size
      cases fuel' with
      | zero => omega
      | succ fuel' =>
          obtain ⟨node, found, -⟩ := alive.node
          have content : draft.content? id = some node.content := by simp [content?, found]
          obtain ⟨content', there, same⟩ := reads id node.content alive content
          obtain ⟨node', found', rfl⟩ := Option.map_eq_some_iff.mp there
          simp only [nodeJson, found, found', same]
          refine contentJson_congr fun key child held => ?_
          have there : draft.held? id key = some (.node child) := by
            rw [held?, content]
            exact held
          have less := lawful.rooted.above child id key (lawful.entry id key child there)
          exact ih fuel' child (lawful.lives id key child alive there) (by omega) (by omega)

theorem Lawful.toJson_congr (lawful : draft.Lawful) {other : Draft}
    (reads : ∀ id content, draft.Alive id → draft.content? id = some content →
      ∃ content', other.content? id = some content' ∧
        ∀ f, contentJson f content' = contentJson f content)
    (size : draft.nodes.size ≤ other.nodes.size) (null : other.dataIsNull = draft.dataIsNull) :
    other.toJson = draft.toJson := by
  unfold toJson
  rw [null]
  cases whole : draft.dataIsNull with
  | true => rfl
  | false =>
      have alive : draft.Alive root := lawful.null.trans whole
      rw [if_neg (by decide), if_neg (by decide)]
      exact lawful.nodeJson_congr reads _ _ root alive (by omega) (by omega)

/-- A draft in which the live nodes hold the same reads the same. -/
theorem Lawful.toJson_eq (lawful : draft.Lawful) {other : Draft}
    (same : ∀ id, draft.Alive id → other.content? id = draft.content? id)
    (size : draft.nodes.size ≤ other.nodes.size) (null : other.dataIsNull = draft.dataIsNull) :
    other.toJson = draft.toJson :=
  lawful.toJson_congr
    (fun id content alive found => ⟨content, (same id alive).trans found, fun _ => rfl⟩) size null

end Draft

end GraphExec
