import GraphExec.Proofs.Draft.Written

/-!
# What a null does where it is ruled out

A null that is written where null is ruled out comes to stand at the first node upwards that may be
null, and takes the place of that node: the node and all nodes below it die, and nothing else changes.
If there is no such node, all is null. Any other entry changes the slot that it is written to.
-/

namespace GraphExec

/-- Whether a key is one of a content: any name of an object, a place that a list has. -/
def Content.Fits : Content → PathSegment → Prop
  | .object _ _, .field _ => True
  | .list items _, .index n => n < items.length
  | _, _ => False

theorem Content.held?_put_of_fits {content : Content} {key : PathSegment} (fits : content.Fits key)
    (entry : Entry) : (content.put key entry).held? key = some entry := by
  cases content with
  | object entries keys =>
      cases key with
      | field name => simp only [put, held?, Fields.get?_insert, if_true]
      | index n => exact fits.elim
  | list items skipped =>
      cases key with
      | field name => exact fits.elim
      | index n =>
          have bound : n < items.length := fits
          simp [put, held?, bound]

namespace Draft

variable {draft after : Draft}

/-- Nodes are allocated at keys that fit their parents. -/
def Fitting (draft : Draft) : Prop :=
  ∀ id parent slot, draft.parent? id = some (parent, slot) →
    ∃ content, draft.content? parent = some content ∧ content.Fits slot

/-- Whether a place of a list of the draft is left out. -/
def Skips (draft : Draft) (id : NodeId) (key : PathSegment) : Prop :=
  ∃ content, draft.content? id = some content ∧ content.Skips key

/-- The keys of an object, or the number of places of a list. -/
def shape? (draft : Draft) (id : NodeId) : Option Shape :=
  (draft.content? id).map (·.shape)

/-- All nodes are where they were and hold what they held, but for some slots. -/
structure SameBut (slots : NodeId → PathSegment → Prop) (before after : Draft) : Prop where
  size : after.nodes.size = before.nodes.size
  parent : ∀ id, after.parent? id = before.parent? id
  nonNull : ∀ id, after.nonNull id = before.nonNull id
  value : ∀ id, after.value? id = before.value? id
  depth : ∀ id, after.depth id = before.depth id
  shape : ∀ id, after.shape? id = before.shape? id
  skips : ∀ id key, after.Skips id key ↔ before.Skips id key
  held : ∀ id key, ¬ slots id key → after.held? id key = before.held? id key

theorem SameBut.trans {slots : NodeId → PathSegment → Prop} {before middle after : Draft}
    (first : SameBut slots before middle) (second : SameBut slots middle after) :
    SameBut slots before after where
  size := second.size.trans first.size
  parent id := (second.parent id).trans (first.parent id)
  nonNull id := (second.nonNull id).trans (first.nonNull id)
  value id := (second.value id).trans (first.value id)
  depth id := (second.depth id).trans (first.depth id)
  shape id := (second.shape id).trans (first.shape id)
  skips id key := (second.skips id key).trans (first.skips id key)
  held id key other := (second.held id key other).trans (first.held id key other)

theorem sameBut_put (draft : Draft) (id : NodeId) (key : PathSegment) (entry : Entry) :
    SameBut (fun other slot => other = id ∧ slot = key) draft (draft.put id key entry) where
  size := size_put draft id key entry
  parent other := parent?_edit draft id other fun content => content.put key entry
  nonNull other := nonNull_edit draft id other fun content => content.put key entry
  value other := value?_edit draft id other fun content => content.put key entry
  depth other := depth_edit draft id other fun content => content.put key entry
  shape other := by
    unfold shape?
    rw [put_eq_edit, content?_edit]
    split
    · cases draft.content? other <;> simp
    · rfl
  skips other slot := by
    unfold Draft.Skips
    rw [put_eq_edit, content?_edit]
    split
    · cases draft.content? other <;> simp
    · rfl
  held other slot elsewhere := by
    rw [put_eq_edit, held?_edit]
    by_cases here : other = id
    · have apart : slot ≠ key := fun same => elsewhere ⟨here, same⟩
      rw [if_pos here, held?]
      cases draft.content? other with
      | none => rfl
      | some content => exact Content.held?_put_of_ne apart entry
    · rw [if_neg here]

theorem sameBut_kill {slots : NodeId → PathSegment → Prop} (draft : Draft) (top : NodeId) :
    SameBut slots draft (draft.kill top) where
  size := size_kill draft top
  parent id := parent?_kill draft top id
  nonNull id := nonNull_kill draft top id
  value id := value?_kill draft top id
  depth id := depth_kill draft top id
  shape id := by rw [shape?, shape?, content?_kill]
  skips id key := by simp only [Draft.Skips, content?_kill]
  held id key _ := by rw [held?, held?, content?_kill]

/-! ### The first node that may be null -/

/-- A null rises along one line. -/
theorem Rises.linear {id one other : NodeId} (rises : draft.Rises id one)
    (rises' : draft.Rises id other) : draft.Rises one other ∨ draft.Rises other one := by
  induction rises with
  | here id => exact .inl rises'
  | up nonNull step below ih =>
      cases rises' with
      | here => exact .inr (.up nonNull step below)
      | up _ step' rises' =>
          rw [step] at step'
          injection step' with step'
          injection step' with same
          subst same
          exact ih rises'

/-- A null rises no further than to a node that may be null. -/
theorem Rises.eq_of_nullable {id top : NodeId} (nullable : draft.nonNull id = false)
    (rises : draft.Rises id top) : top = id := by
  cases rises with
  | here => rfl
  | up nonNull _ _ =>
      rw [nullable] at nonNull
      cases nonNull

theorem Rises.first_unique {id one other : NodeId} (rises : draft.Rises id one)
    (nullable : draft.nonNull one = false) (rises' : draft.Rises id other)
    (nullable' : draft.nonNull other = false) : one = other := by
  rcases rises.linear rises' with onward | onward
  · exact (onward.eq_of_nullable nullable).symm
  · exact onward.eq_of_nullable nullable'

/-! ### Main statement -/

theorem setLeaf_null_eq {id : NodeId} (alive : draft.Alive id) (key : PathSegment) :
    draft.setLeaf id key .null true = draft.replaceByNull id (draft.ancestors id) := by
  have living : draft.isDead id = false := alive
  simp [setLeaf, setEntry, living, Entry.isNull]

/-- A null where it is ruled out takes the place of the first node upwards that may be null. -/
theorem setLeaf_null_of_rises (lawful : draft.Lawful) {id top parent : NodeId}
    {key slot : PathSegment} (alive : draft.Alive id) (rises : draft.Rises id top)
    (nullable : draft.nonNull top = false) (up : draft.parent? top = some (parent, slot)) :
    draft.setLeaf id key .null true = (draft.put parent slot (.leaf .null)).kill top := by
  rw [setLeaf_null_eq alive]
  obtain ⟨reached, rises', ⟨is_root, -⟩ | ⟨above, place, up', nullable', same⟩⟩ :=
    replaceByNull_cases lawful.rooted lawful.closed id alive
  · -- The null would have passed by a node that may be null.
    subst is_root
    rcases rises.linear rises' with onward | onward
    · obtain rfl := onward.eq_of_nullable nullable
      rw [lawful.rooted.parent?_root] at up
      cases up
    · cases onward with
      | here =>
          rw [lawful.rooted.parent?_root] at up
          cases up
      | up _ step _ =>
          rw [lawful.rooted.parent?_root] at step
          cases step
  · obtain rfl := rises.first_unique nullable rises' nullable'
    rw [up] at up'
    injection up' with up'
    injection up' with first second
    subst first second
    exact same

/-- A null where it is ruled out everywhere upwards makes all null. -/
theorem setLeaf_null_of_nonNull (lawful : draft.Lawful) {id : NodeId} {key : PathSegment}
    (alive : draft.Alive id)
    (ruled_out : ∀ top, draft.Rises id top → top ≠ root → draft.nonNull top = true) :
    draft.setLeaf id key .null true = draft.nullData := by
  rw [setLeaf_null_eq alive]
  obtain ⟨reached, rises, ⟨-, same⟩ | ⟨above, place, up, nullable, -⟩⟩ :=
    replaceByNull_cases lawful.rooted lawful.closed id alive
  · exact same
  · have other : reached ≠ root := by
      rintro rfl
      rw [lawful.rooted.parent?_root] at up
      cases up
    rw [ruled_out reached rises other] at nullable
    cases nullable

/-- In a draft that has been written in any order, the nodes at keys that fit their parents, what is
written to a live node has the following effect. A null where it is ruled out comes to stand at the
first node upwards that may be null; this node and those below it die, and nothing else changes. If
there is no such node below the root, all is null and every node dies. Any other entry changes the
slot that it is written to. All this is what writing level by level leads to, with a walk over the
registered nodes at each level. -/
theorem null_rises {value : AppValue} (written : Written (Draft.new value) draft)
    (fitting : draft.Fitting) {id : NodeId} (alive : draft.Alive id) :
    (∀ key top parent slot, draft.Rises id top → draft.nonNull top = false →
      draft.parent? top = some (parent, slot) →
      (draft.setLeaf id key .null true).held? parent slot = some (.leaf .null) ∧
      (∀ other, (draft.setLeaf id key .null true).Alive other ↔
        draft.Alive other ∧ ¬ draft.Below top other) ∧
      (draft.setLeaf id key .null true).dataIsNull = draft.dataIsNull ∧
      SameBut (fun other place => other = parent ∧ place = slot) draft
        (draft.setLeaf id key .null true)) ∧
    (∀ key, (∀ top, draft.Rises id top → top ≠ root → draft.nonNull top = true) →
      (draft.setLeaf id key .null true).dataIsNull = true ∧
      (∀ other, ¬ (draft.setLeaf id key .null true).Alive other) ∧
      SameBut (fun _ _ => False) draft (draft.setLeaf id key .null true)) ∧
    (∀ key entry nonNull, (entry.isNull && nonNull) = false →
      (∀ content, draft.content? id = some content → content.Fits key →
        (draft.setEntry id key entry nonNull).held? id key = some entry) ∧
      (∀ other, (draft.setEntry id key entry nonNull).Alive other ↔ draft.Alive other) ∧
      (draft.setEntry id key entry nonNull).dataIsNull = draft.dataIsNull ∧
      SameBut (fun other place => other = id ∧ place = key) draft
        (draft.setEntry id key entry nonNull)) ∧
    (∀ key entry nonNull, Lands draft id key entry nonNull (draft.setEntry id key entry nonNull)) := by
  have lawful := written.lawful (lawful_new value)
  refine ⟨?_, ?_, ?_, lands_setEntry lawful id⟩
  · intro key top parent slot rises nullable up
    rw [setLeaf_null_of_rises lawful alive rises nullable up]
    refine ⟨?_, ?_, rfl, (sameBut_put draft parent slot _).trans (sameBut_kill _ top)⟩
    · obtain ⟨content, found, fits⟩ := fitting top parent slot up
      rw [held?, content?_replace, if_pos rfl, found]
      exact Content.held?_put_of_fits fits _
    · exact fun other => alive_replace lawful.rooted
  · intro key ruled_out
    rw [setLeaf_null_of_nonNull lawful alive ruled_out]
    refine ⟨rfl, not_alive_nullData lawful.rooted, ?_⟩
    have flagged : SameBut (fun _ _ => False) draft { draft with dataIsNull := true } :=
      ⟨rfl, fun _ => rfl, fun _ => rfl, fun _ => rfl, fun _ => rfl, fun _ => rfl, fun _ _ => .rfl,
        fun _ _ _ => rfl⟩
    exact flagged.trans (sameBut_kill _ root)
  · intro key entry nonNull allowed
    have living : draft.isDead id = false := alive
    have same : draft.setEntry id key entry nonNull = draft.put id key entry := by
      simp [setEntry, living, allowed]
    rw [same]
    refine ⟨?_, fun other => alive_put draft id other key entry, rfl, sameBut_put draft id key entry⟩
    intro content found fits
    rw [put_eq_edit, held?_edit, if_pos rfl, found]
    exact Content.held?_put_of_fits fits entry

/-- A list that may be null with an object that may not, beside a finished value. -/
def shelf : Draft :=
  let list := ((Draft.new .null).newList 0 (.field "items") 2 false).2
  (list.newObject 1 (.index 1) .null true).2.setLeaf 0 (.field "other") (.string "here") false

theorem shelf_written : Written (Draft.new .null) shelf := by
  have first := (Written.nothing : Written (Draft.new .null) (Draft.new .null)).next
    (.newList 0 (.field "items") 2 false) ⟨Op.known_of_lt rfl (by decide), trivial⟩
  have second := first.next (.newObject 1 (.index 1) .null true)
    ⟨Op.known_of_lt rfl (by decide), trivial⟩
  exact second.next (.setLeaf 0 (.field "other") (.string "here") false)
    ⟨Op.known_of_lt rfl (by decide), trivial⟩

theorem shelf_fitting : shelf.Fitting := by
  intro (id : Nat) parent slot up
  have known : id < 3 := lt_size_of_parent? up
  rcases id with _ | _ | _ | id
  · cases up
  · cases up
    exact ⟨_, rfl, trivial⟩
  · cases up
    exact ⟨_, rfl, show (1 : Nat) < 2 by decide⟩
  · omega

/-- A null in the object takes the place of the list, and what stands beside it stays. -/
theorem null_rises_shelf :
    shelf.Alive 2 ∧
      (shelf.setLeaf 2 (.field "name") .null true).held? 0 (.field "items") =
        some (.leaf .null) ∧
      ¬ (shelf.setLeaf 2 (.field "name") .null true).Alive 2 ∧
      (shelf.setLeaf 2 (.field "name") .null true).held? 0 (.field "other") =
        some (.leaf (.string "here")) := by
  have alive : shelf.Alive 2 := rfl
  have rises : shelf.Rises 2 1 := .up rfl (rfl : shelf.parent? 2 = some (1, .index 1)) (.here 1)
  obtain ⟨slot, lives, -, same⟩ := (null_rises shelf_written shelf_fitting alive).1
    (.field "name") 1 0 (.field "items") rises rfl rfl
  refine ⟨alive, slot, fun stays => ((lives 2).mp stays).2 rises.stands_below, ?_⟩
  exact same.held 0 (.field "other") (by decide)

end Draft

end GraphExec
