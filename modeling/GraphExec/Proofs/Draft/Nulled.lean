import GraphExec.Proofs.Draft.Growth
import GraphExec.Proofs.Draft.Reading

/-!
# Where nulls stand

A position that is null stays null, unless the node that holds it dies; and where a node has died
whose parent has not, a null stands in its place. So whoever goes down a draft to a position that was
nulled comes upon a null, there or on the way.
-/

namespace GraphExec

namespace Draft

variable {draft before middle after : Draft}

/-- A null stands at a position, unless the node that holds it is dead. -/
def Nulled (draft : Draft) (id : NodeId) (key : PathSegment) : Prop :=
  draft.Alive id → draft.held? id key = some (.leaf .null)

/-- Where a node is dead and its parent is not, a null stands in its place. -/
def Buried (draft : Draft) : Prop :=
  ∀ id parent key, draft.parent? id = some (parent, key) → ¬ draft.Alive id →
    draft.Nulled parent key

theorem lt_of_parent? {id : NodeId} {above : NodeId × PathSegment}
    (up : draft.parent? id = some above) : id < draft.nodes.size := by
  obtain ⟨node, found, -⟩ := Option.bind_eq_some_iff.mp up
  exact (Array.getElem?_eq_some_iff.mp found).1

/-- The dead stay dead, what is written at a node that lives stays written, and the nodes that fall
leave a null behind. -/
structure Stands (before after : Draft) : Prop where
  size : before.nodes.size ≤ after.nodes.size
  alive : ∀ id : Nat, id < before.nodes.size → after.Alive id → before.Alive id
  leaf : ∀ (id : Nat) key value, id < before.nodes.size → after.Alive id →
    before.held? id key = some (.leaf value) → after.held? id key = some (.leaf value)
  fallen : ∀ (id : Nat) parent key, after.parent? id = some (parent, key) → ¬ after.Alive id →
    (id < before.nodes.size → before.Alive id) → after.Nulled parent key

theorem Stands.nulled (stands : Stands before after) {id : Nat} {key : PathSegment}
    (known : id < before.nodes.size) (nulled : before.Nulled id key) : after.Nulled id key :=
  fun alive => stands.leaf id key .null known alive (nulled (stands.alive id known alive))

theorem Stands.buried (stands : Stands before after) (grows : Grows before after)
    (rooted : before.Rooted) (buried : before.Buried) : after.Buried := by
  intro id parent key up dead
  by_cases known : id < before.nodes.size ∧ ¬ before.Alive id
  · have up' := (grows.parent id known.1).symm.trans up
    have above := rooted.above id parent key up'
    exact stands.nulled (Nat.lt_trans above known.1) (buried id parent key up' known.2)
  · exact stands.fallen id parent key up dead fun bound =>
      Classical.byContradiction fun fell => known ⟨bound, fell⟩

theorem Stands.refl (draft : Draft) : Stands draft draft :=
  ⟨Nat.le_refl _, fun _ _ alive => alive, fun _ _ _ _ _ held => held,
    fun _ _ _ up dead lived => absurd (lived (lt_of_parent? up)) dead⟩

/-- A change of the content of a node that keeps what is written there. -/
theorem stands_edit (draft : Draft) {id : NodeId} {content : Content} {f : Content → Content}
    (found : draft.content? id = some content)
    (keeps : ∀ key value, content.held? key = some (.leaf value) →
      (f content).held? key = some (.leaf value)) : Stands draft (draft.edit id f) where
  size := Nat.le_of_eq (size_edit _ _ _).symm
  alive other _ alive := (alive_edit _ _ _ _).mp alive
  leaf other key value _ _ held := by
    rw [held?_edit]
    split
    · rename_i same
      subst same
      rw [held?, found] at held
      rw [found]
      exact keeps key value held
    · exact held
  fallen other parent key up dead lived := by
    rw [parent?_edit] at up
    exact absurd ((alive_edit _ _ _ _).mpr (lived (lt_of_parent? up))) dead

theorem stands_nullData (rooted : draft.Rooted) : Stands draft draft.nullData where
  size := Nat.le_of_eq (size_nullData draft).symm
  alive id _ alive := absurd alive (not_alive_nullData rooted id)
  leaf id _ _ _ alive _ := absurd alive (not_alive_nullData rooted id)
  fallen _ parent _ _ _ _ alive := absurd alive (not_alive_nullData rooted parent)

/-- A null takes the place of a node, which dies with the nodes below it. -/
theorem stands_replace (wf : draft.Wf) {top parent : Nat} {key : PathSegment}
    (alive : draft.Alive top) (up : draft.parent? top = some (parent, key)) :
    Stands draft ((draft.put parent key (.leaf .null)).kill top) := by
  have lives : ∀ id, ((draft.put parent key (.leaf .null)).kill top).Alive id ↔
      draft.Alive id ∧ ¬ draft.Below top id := fun id => alive_replace wf.rooted
  obtain ⟨-, content, found, stood, slot, -⟩ := wf.slot_of_parent? alive up
  have heir : ((draft.put parent key (.leaf .null)).kill top).Nulled parent key := by
    intro _
    rw [held?, content?_replace, if_pos rfl, found]
    exact Content.held?_put_self slot _
  constructor
  case size => exact Nat.le_of_eq (by rw [size_kill, size_put])
  case alive => exact fun id _ alive => ((lives id).mp alive).1
  case leaf =>
    intro id other value _ alive' held
    rw [Draft.held?, content?_replace]
    split
    · rename_i same
      subst same
      rw [Draft.held?, found] at held
      rw [found]
      have differs : other ≠ key := by
        rintro rfl
        cases held.symm.trans stood
      exact (Content.held?_put_of_ne differs _).trans held
    · exact held
  case fallen =>
    intro id above other up' dead lived
    rw [parent?_replace] at up'
    have lived := lived (lt_of_parent? up')
    have below : draft.Below top id :=
      Classical.byContradiction fun aside => dead ((lives id).mpr ⟨lived, aside⟩)
    cases below with
    | refl =>
        obtain ⟨rfl, rfl⟩ := Prod.mk.inj (Option.some.inj (up'.symm.trans up))
        exact heir
    | up step below =>
        obtain ⟨rfl, rfl⟩ := Prod.mk.inj (Option.some.inj (up'.symm.trans step))
        exact fun alive' => absurd below ((lives above).mp alive').2

theorem stands_replaceByNull (wf : draft.Wf) {id : NodeId} (alive : draft.Alive id) :
    Stands draft (draft.replaceByNull id (draft.ancestors id)) := by
  obtain ⟨top, rises, placed⟩ := replaceByNull_eq wf id alive
  rcases placed with ⟨-, same⟩ | ⟨parent, key, up, -, same⟩
  · rw [same]
    exact stands_nullData wf.rooted
  · rw [same]
    exact stands_replace wf (rises.alive wf alive) up

/-- The node that a null replaces is dead. -/
theorem not_alive_replaceByNull (wf : draft.Wf) {id : NodeId} (alive : draft.Alive id) :
    ¬ (draft.replaceByNull id (draft.ancestors id)).Alive id := by
  obtain ⟨top, rises, placed⟩ := replaceByNull_eq wf id alive
  rcases placed with ⟨-, same⟩ | ⟨parent, key, up, -, same⟩
  · rw [same]
    exact not_alive_nullData wf.rooted id
  · rw [same]
    exact fun alive => ((alive_replace wf.rooted).mp alive).2 rises.stands_below

theorem stands_allocate {parent : NodeId} {key : PathSegment} {held content : Content}
    (alive : draft.Alive parent) (found : draft.content? parent = some held)
    (vacant : held.Vacant key) (blank : ∀ key, content.held? key = none)
    (value? : Option AppValue) (nonNull : Bool) :
    Stands draft (draft.allocate parent key content value? nonNull).2 where
  size := by
    rw [size_allocate]
    exact Nat.le_succ _
  alive id known lives := by
    rcases (alive_allocate alive id).mp lives with rfl | lives
    · exact absurd known (Nat.lt_irrefl _)
    · exact lives
  leaf id other value known _ stood := by
    rw [held?_allocate alive found vacant.1 blank, if_neg (Nat.ne_of_lt known)]
    split
    · rename_i same
      obtain ⟨rfl, rfl⟩ := same
      rw [Draft.held?, found] at stood
      cases vacant.2.1.symm.trans stood
    · exact stood
  fallen id above other up dead lived := by
    have bound := lt_of_parent? up
    rw [size_allocate] at bound
    have fell := mt (alive_allocate alive id).mpr dead
    rcases Nat.lt_or_ge id draft.nodes.size with known | fresh
    · exact absurd (.inr (lived known)) fell
    · exact absurd (.inl (Nat.le_antisymm (Nat.le_of_lt_succ bound) fresh)) fell

/-- The null that is written at a free position stands there, unless it replaces the node. -/
theorem nulled_setLeaf (wf : draft.Wf) {id : NodeId} {key : PathSegment}
    (free : draft.Alive id → ∃ content, draft.content? id = some content ∧ content.Vacant key)
    (nonNull : Bool) : (draft.setLeaf id key .null nonNull).Nulled id key := by
  intro alive
  rcases draft.setLeaf_cases id key .null nonNull with
    ⟨dead, same⟩ | ⟨lives, -, same⟩ | ⟨lives, -, same⟩
  · rw [same, Draft.Alive, dead] at alive
    cases alive
  · exact absurd (same ▸ alive) (not_alive_replaceByNull wf lives)
  · obtain ⟨content, found, vacant⟩ := free lives
    rw [same, held?, put_eq_edit, content?_edit, if_pos rfl, found]
    exact Content.held?_put_self vacant.1 _

end Draft

namespace Plan

variable {T : Type} {spot : T → Spot} {comes : T → Verdict → Prop}

/-- Every move of a plan keeps the nulls that stand. -/
theorem Move.stands {first last : Plan T} (move : Move spot comes first last)
    (tidy : Tidy spot first) : Draft.Stands first.draft last.draft := by
  cases move with
  | sort same => exact .refl _
  | pass same backward => exact .refl _
  | lose dead => exact .refl _
  | @write draft task rest id key value nonNull here verdict =>
      show Draft.Stands draft (draft.setLeaf id key value nonNull)
      rcases draft.setLeaf_cases id key value nonNull with
        ⟨-, same⟩ | ⟨alive, -, same⟩ | ⟨alive, -, same⟩ <;> rw [same]
      · exact .refl _
      · exact Draft.stands_replaceByNull tidy.wf_draft alive
      · obtain ⟨content, found, vacant⟩ := tidy.vacant here alive
        rw [Draft.put_eq_edit]
        refine Draft.stands_edit draft found fun other value stood => ?_
        have differs : other ≠ key := by
          rintro rfl
          cases vacant.2.1.symm.trans stood
        exact (Content.held?_put_of_ne differs _).trans stood
  | @leaveOut draft task rest id key here verdict =>
      show Draft.Stands draft (draft.skip id key)
      by_cases alive : draft.Alive id
      · obtain ⟨content, found, vacant⟩ := tidy.vacant here alive
        rw [Draft.skip_eq_edit alive]
        exact Draft.stands_edit draft found fun other value stood =>
          (Content.held?_skip vacant other).trans stood
      · have dead : draft.isDead id = true := by simpa [Draft.Alive] using alive
        unfold Draft.skip
        rw [if_pos dead]
        exact .refl _
  | @openList draft task below rest id key size nonNull here alive slots assembles =>
      obtain ⟨content, found, vacant⟩ := tidy.vacant here alive
      exact Draft.stands_allocate alive found vacant (Content.held?_emptyList size) _ _
  | @openObject draft task other rest id key value nonNull here alive there backward =>
      obtain ⟨content, found, vacant⟩ := tidy.vacant here alive
      refine Draft.stands_allocate alive found vacant (fun key => ?_) _ _
      cases key <;> rfl
  | @fill draft task below rest id keys here alive distinct slots assembles =>
      have free := tidy.free task List.mem_cons_self (by rw [here]; exact alive)
      rw [here] at free
      show Draft.Stands draft (draft.setKeys id keys)
      rw [Draft.setKeys_eq_edit]
      exact Draft.stands_edit draft free fun key value stood => by cases key <;> cases stood
  | nullRoot here verdict => exact Draft.stands_nullData tidy.wf_draft.rooted

theorem Reaches.nulled {first last : Plan T} (reaches : Reaches spot comes first last)
    (tidy : Tidy spot first) {id : Nat} {key : PathSegment} (known : id < first.draft.nodes.size)
    (nulled : first.draft.Nulled id key) : last.draft.Nulled id key := by
  induction reaches with
  | refl => exact nulled
  | step move _ ih =>
      have stands := move.stands tidy
      exact ih (move.tidy tidy) (Nat.lt_of_lt_of_le known stands.size) (stands.nulled known nulled)

theorem Reaches.buried {first last : Plan T} (reaches : Reaches spot comes first last)
    (tidy : Tidy spot first) (buried : first.draft.Buried) : last.draft.Buried := by
  induction reaches with
  | refl => exact buried
  | step move _ ih =>
      exact ih (move.tidy tidy) ((move.stands tidy).buried move.grows tidy.wf.rooted buried)

end Plan

end GraphExec
