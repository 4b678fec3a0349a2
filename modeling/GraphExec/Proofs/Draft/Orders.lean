import GraphExec.Proofs.Draft.Effects

/-!
# Writes in any order

Finished values and keys that are left out may be written in any order, provided that no position is
above another one: the draft is read the same in the end. A null that rises may kill the node that
another write is aimed at, and the other way round; then the null that rises further takes the place
of both, and if each of the nodes would die of the other's null, it is the same null.
-/

namespace GraphExec

namespace Draft

variable {draft other : Draft}

/-- A finished value at a key of a node, or a key that is left out. -/
inductive Write where
  | leaf (id : NodeId) (key : PathSegment) (value : Value) (nonNull : Bool)
  | skip (id : NodeId) (key : PathSegment)

namespace Write

variable {write one two : Write} {effect first second : Effect}

/-- The node that is written to. -/
def node : Write → NodeId
  | leaf id _ _ _ | skip id _ => id

def key : Write → PathSegment
  | leaf _ key _ _ | skip _ key => key

/-- A draft after a write. -/
def apply (draft : Draft) : Write → Draft
  | leaf id key value nonNull => draft.setLeaf id key value nonNull
  | skip id key => draft.skip id key

/-- The position of a write, from the root. -/
def path (draft : Draft) (write : Write) : Path :=
  draft.pathTo write.node write.key

/-- What a write makes of the content of its node, if the slot is its own. -/
def change : Write → Content → Content
  | leaf _ key value _, content => content.put key (.leaf value)
  | skip _ key, content => content.skip key

/-- Whether a null is written where it is ruled out. -/
def RuledOut : Write → Prop
  | leaf _ _ value nonNull => value = .null ∧ nonNull = true
  | skip _ _ => False

theorem localAt_change (write : Write) : Content.LocalAt write.key write.change := by
  cases write with
  | leaf id key value nonNull => exact Content.localAt_put key (.leaf value)
  | skip id key => exact Content.localAt_skip key

/-- The effect of a write that is not ruled out. -/
def direct (write : Write) : Effect where
  slot? := some (write.node, write.key)
  change := write.change
  top? := none
  isLocal := by
    rintro id key ⟨⟩
    exact write.localAt_change

/-- What a write comes to in a draft. -/
inductive Comes (draft : Draft) (write : Write) : Effect → Prop
  | lost (dead : ¬ draft.Alive write.node) : Comes draft write .nothing
  | direct (alive : draft.Alive write.node) (allowed : ¬ write.RuledOut) :
      Comes draft write write.direct
  | null {top parent : NodeId} {slot : PathSegment} (alive : draft.Alive write.node)
      (ruled_out : write.RuledOut) (rises : draft.Rises write.node top)
      (nullable : draft.nonNull top = false) (up : draft.parent? top = some (parent, slot)) :
      Comes draft write (.null top parent slot)
  | all (alive : draft.Alive write.node) (ruled_out : write.RuledOut)
      (rises : draft.Rises write.node root)
      (ruled_out_above : ∀ top, draft.Rises write.node top → top ≠ root →
        draft.nonNull top = true) : Comes draft write .all

theorem apply_of_dead (dead : ¬ draft.Alive write.node) : write.apply draft = draft := by
  have dead : draft.isDead write.node = true := by simpa [Alive] using dead
  cases write with
  | leaf id key value nonNull => exact if_pos dead
  | skip id key => exact if_pos dead

theorem apply_direct (alive : draft.Alive write.node) (allowed : ¬ write.RuledOut) :
    write.apply draft = write.direct.apply draft := by
  cases write with
  | leaf id key value nonNull =>
      rcases draft.setLeaf_cases id key value nonNull with
        ⟨dead, -⟩ | ⟨-, ruled_out, -⟩ | ⟨-, -, same⟩
      · exact absurd dead (Bool.eq_false_iff.mp alive)
      · exact absurd ruled_out allowed
      · exact same
  | skip id key => exact skip_eq_edit alive key

/-- A write is what it comes to. -/
theorem Comes.apply_eq (comes : Comes draft write effect) (lawful : draft.Lawful) :
    write.apply draft = effect.apply draft := by
  cases comes with
  | lost dead => exact apply_of_dead dead
  | direct alive allowed => exact apply_direct alive allowed
  | null alive ruled_out rises nullable up =>
      cases write with
      | skip id key => exact ruled_out.elim
      | leaf id key value nonNull =>
          obtain ⟨rfl, rfl⟩ := ruled_out
          refine (setLeaf_null_of_rises lawful alive rises nullable up).trans ?_
          exact (Effect.apply_null (fun same => lawful.rooted.not_below_root up (same ▸ .refl))).symm
  | all alive ruled_out rises ruled_out_above =>
      cases write with
      | skip id key => exact ruled_out.elim
      | leaf id key value nonNull =>
          obtain ⟨rfl, rfl⟩ := ruled_out
          exact (setLeaf_null_of_nonNull lawful alive ruled_out_above).trans Effect.apply_all.symm

/-- Every write comes to something. -/
theorem exists_comes (lawful : draft.Lawful) (write : Write) :
    ∃ effect, Comes draft write effect := by
  by_cases alive : draft.Alive write.node
  · by_cases ruled_out : write.RuledOut
    · obtain ⟨top, rises, ⟨rfl, -⟩ | ⟨parent, slot, up, nullable, -⟩⟩ :=
        replaceByNull_cases lawful.rooted lawful.closed write.node alive
      · refine ⟨_, .all alive ruled_out rises fun top rises' other => ?_⟩
        -- on its way to the root the null passes by the node
        rcases rises.linear rises' with onward | onward
        · cases onward with
          | here => exact absurd rfl other
          | up _ step _ =>
              rw [lawful.rooted.parent?_root] at step
              cases step
        · cases onward with
          | here => exact absurd rfl other
          | up nonNull _ _ => exact nonNull
      · exact ⟨_, .null alive ruled_out rises nullable up⟩
    · exact ⟨_, .direct alive ruled_out⟩
  · exact ⟨_, .lost alive⟩

/-- What a write comes to depends on the tree and on whether its node lives. -/
theorem Comes.congr (comes : Comes draft write effect)
    (parent : ∀ id, other.parent? id = draft.parent? id)
    (nonNull : ∀ id, other.nonNull id = draft.nonNull id)
    (alive : other.Alive write.node ↔ draft.Alive write.node) : Comes other write effect := by
  have back {top : NodeId} (rises : other.Rises write.node top) : draft.Rises write.node top :=
    rises.congr (fun id => (parent id).symm) (fun id => (nonNull id).symm)
  cases comes with
  | lost dead => exact .lost (mt alive.mp dead)
  | direct lives allowed => exact .direct (alive.mpr lives) allowed
  | null lives ruled_out rises nullable up =>
      exact .null (alive.mpr lives) ruled_out (rises.congr parent nonNull)
        ((nonNull _).trans nullable) ((parent _).trans up)
  | all lives ruled_out rises above =>
      refine .all (alive.mpr lives) ruled_out (rises.congr parent nonNull) fun top rises' other => ?_
      rw [nonNull]
      exact above top (back rises') other

/-- A node that dies of a write is one that a null rises to, and the first that may be null or the
root. -/
theorem Comes.kills_cases (comes : Comes draft write effect) {top : NodeId}
    (at_top : effect.top? = some top) : draft.Rises write.node top ∧
      ((top = root ∧ effect = .all) ∨ ∃ parent slot, draft.nonNull top = false ∧
        draft.parent? top = some (parent, slot) ∧ effect = .null top parent slot) := by
  cases comes with
  | lost _ => cases at_top
  | direct _ _ => cases at_top
  | null _ _ rises nullable up =>
      cases at_top
      exact ⟨rises, .inr ⟨_, _, nullable, up, rfl⟩⟩
  | all _ _ rises _ =>
      cases at_top
      exact ⟨rises, .inl ⟨rfl, rfl⟩⟩

/-- The slot that a write changes is its own, or that of the node that dies. -/
theorem Comes.slot (comes : Comes draft write effect) {id : NodeId} {key : PathSegment}
    (slot : effect.slot? = some (id, key)) :
    (effect = write.direct ∧ id = write.node ∧ key = write.key) ∨
      ∃ top, effect = .null top id key ∧ draft.Rises write.node top ∧
        draft.parent? top = some (id, key) := by
  cases comes with
  | lost _ => cases slot
  | direct _ _ =>
      cases slot
      exact .inl ⟨rfl, rfl, rfl⟩
  | null _ _ rises _ up =>
      cases slot
      exact .inr ⟨_, rfl, rises, up⟩
  | all _ _ _ _ => cases slot

/-- What a write comes to stays so under an effect that spares its node. -/
theorem Comes.after (comes : Comes draft two second) (lawful : draft.Lawful)
    (spares : ¬ first.Kills draft two.node) : Comes (first.apply draft) two second := by
  refine comes.congr (first.parent?_apply draft) (first.nonNull_apply draft) ?_
  rw [first.alive_apply lawful.rooted]
  exact ⟨And.left, fun alive => ⟨alive, spares⟩⟩

theorem apply_of_kills (lawful : draft.Lawful) (kills : first.Kills draft two.node) :
    two.apply (first.apply draft) = first.apply draft := by
  apply apply_of_dead
  rw [first.alive_apply lawful.rooted]
  exact fun alive => alive.2 kills

theorem lawful_apply (lawful : draft.Lawful) (write : Write) : (write.apply draft).Lawful := by
  cases write with
  | leaf id key value nonNull => exact lawful.setEntry id key nonNull nofun
  | skip id key => exact lawful.skip id key

/-! ### Two writes -/

/-- If each of two writes kills the node of the other one, they come to the same. -/
theorem Comes.same_of_kills (lawful : draft.Lawful) (comes : Comes draft one first)
    (comes' : Comes draft two second) (kills : first.Kills draft two.node)
    (kills' : second.Kills draft one.node) : first = second := by
  obtain ⟨top, at_top, below⟩ := kills
  obtain ⟨top', at_top', below'⟩ := kills'
  obtain ⟨rises, ends⟩ := comes.kills_cases at_top
  obtain ⟨rises', ends'⟩ := comes'.kills_cases at_top'
  have no_further {id : NodeId} (onward : draft.Rises root id) : id = root := by
    cases onward with
    | here => rfl
    | up _ step _ =>
        rw [lawful.rooted.parent?_root] at step
        cases step
  -- no null rises further than to either of the nodes
  have stops {id : NodeId} (onward : draft.Rises top id) : id = top := by
    rcases ends with ⟨rfl, -⟩ | ⟨_, _, nullable, -, -⟩
    · exact no_further onward
    · exact onward.eq_of_nullable nullable
  have stops' {id : NodeId} (onward : draft.Rises top' id) : id = top' := by
    rcases ends' with ⟨rfl, -⟩ | ⟨_, _, nullable, -, -⟩
    · exact no_further onward
    · exact onward.eq_of_nullable nullable
  have meet {id : NodeId} (to_top : draft.Rises id top) (to_top' : draft.Rises id top') :
      top' = top := by
    rcases to_top.linear to_top' with onward | onward
    · exact stops onward
    · exact (stops' onward).symm
  have same : top' = top := by
    rcases rises.stands_below.linear below' with down | up
    · exact meet rises (rises.through lawful.rooted below' down)
    · exact meet (rises'.through lawful.rooted below up) rises'
  subst same
  rcases ends with ⟨rfl, whole⟩ | ⟨parent, slot, -, up, replaced⟩
  · rcases ends' with ⟨-, whole'⟩ | ⟨_, _, -, up', -⟩
    · exact whole.trans whole'.symm
    · exact absurd .refl (lawful.rooted.not_below_root up')
  · rcases ends' with ⟨rfl, -⟩ | ⟨parent', slot', -, up', replaced'⟩
    · exact absurd .refl (lawful.rooted.not_below_root up)
    · rw [up] at up'
      injection up' with up'
      injection up' with parents slots
      rw [replaced, replaced', parents, slots]

/-- If a write kills the node of another one, which does not kill its own, it covers it. -/
theorem Comes.covers (lawful : draft.Lawful) (comes : Comes draft one first)
    (comes' : Comes draft two second) (kills : first.Kills draft two.node)
    (spares : ¬ second.Kills draft one.node) : Effect.Covers draft first second := by
  have killed := kills
  obtain ⟨top, at_top, below⟩ := kills
  have above := (comes.kills_cases at_top).1.stands_below
  -- what the other write kills is below the node that dies here
  have lower {top' : NodeId} (at_top' : second.top? = some top') : draft.Below top top' := by
    rcases below.linear (comes'.kills_cases at_top').1.stands_below with down | up
    · exact down
    · exact absurd ⟨top', at_top', up.trans above⟩ spares
  refine ⟨?_, ?_, ?_⟩
  · rintro id ⟨top', at_top', under⟩
    exact ⟨top, at_top, (lower at_top').trans under⟩
  · intro id key slot
    rcases comes'.slot slot with ⟨-, rfl, -⟩ | ⟨top', rfl, -, up⟩
    · exact killed
    · refine ⟨top, at_top, ?_⟩
      cases lower rfl with
      | refl => exact absurd ⟨top, rfl, above⟩ spares
      | up step under =>
          rw [up] at step
          injection step with step
          injection step with step
          exact step ▸ under
  · intro whole
    cases lower whole with
    | refl => exact at_top
    | up step _ =>
        rw [lawful.rooted.parent?_root] at step
        cases step

/-- Neither of two writes is at a position above that of the other, or at the same. -/
def Independent (draft : Draft) (one two : Write) : Prop :=
  ¬ one.path draft <+: two.path draft ∧ ¬ two.path draft <+: one.path draft

theorem Independent.symm (independent : Independent draft one two) : Independent draft two one :=
  ⟨independent.2, independent.1⟩

/-- A slot that a null comes to stand at is no slot of an independent write. -/
theorem path_above (lawful : draft.Lawful) {top id : NodeId} {key : PathSegment}
    (up : draft.parent? top = some (id, key)) (rises : draft.Rises write.node top) :
    draft.pathTo id key <+: write.path draft := by
  rw [← path_eq lawful.rooted up]
  exact (rises.stands_below.path_above lawful.rooted).trans (List.prefix_append _ _)

/-- Independent writes that change the same slot both bring a null there. -/
theorem Comes.agree (lawful : draft.Lawful) (comes : Comes draft one first)
    (comes' : Comes draft two second) (independent : Independent draft one two) :
    first.Agree second := by
  rintro ⟨id, key⟩ slot slot'
  rcases comes.slot slot with ⟨-, rfl, rfl⟩ | ⟨top, rfl, rises, up⟩
  · rcases comes'.slot slot' with ⟨-, nodes, keys⟩ | ⟨top', -, rises', up'⟩
    · have same : one.path draft = two.path draft := by rw [path, path, nodes, keys]
      refine absurd ?_ independent.1
      exact same ▸ List.prefix_refl _
    · exact absurd (path_above lawful up' rises') independent.1
  · rcases comes'.slot slot' with ⟨-, rfl, rfl⟩ | ⟨top', rfl, -, -⟩
    · exact absurd (path_above lawful up rises) independent.2
    · rfl

/-- Independent writes may come in either order. -/
theorem Independent.commute (independent : Independent draft one two) (lawful : draft.Lawful) :
    (two.apply (one.apply draft)).Alike (one.apply (two.apply draft)) := by
  obtain ⟨first, comes⟩ := exists_comes lawful one
  obtain ⟨second, comes'⟩ := exists_comes lawful two
  have lawful_first := lawful_apply lawful one
  have lawful_second := lawful_apply lawful two
  rw [comes.apply_eq lawful] at lawful_first ⊢
  rw [comes'.apply_eq lawful] at lawful_second ⊢
  by_cases kills : first.Kills draft two.node
  · rw [apply_of_kills lawful kills]
    by_cases kills' : second.Kills draft one.node
    · rw [apply_of_kills lawful kills', comes.same_of_kills lawful comes' kills kills']
      exact .refl _
    · rw [(comes.after lawful kills').apply_eq lawful_second]
      exact (comes.covers lawful comes' kills kills').alike lawful
  · rw [(comes'.after lawful kills).apply_eq lawful_first]
    by_cases kills' : second.Kills draft one.node
    · rw [apply_of_kills lawful kills']
      exact ((comes'.covers lawful comes kills' kills).alike lawful).symm
    · rw [(comes.after lawful kills').apply_eq lawful_second]
      exact (comes.agree lawful comes' independent).commute lawful

/-! ### Many writes -/

/-- Drafts that are alike stay so under the same write. -/
theorem alike_apply (alike : draft.Alike other) (lawful : draft.Lawful) (lawful' : other.Lawful)
    (write : Write) : (write.apply draft).Alike (write.apply other) := by
  obtain ⟨effect, comes⟩ := exists_comes lawful write
  have comes' := comes.congr alike.parent alike.nonNull (alike.alive write.node)
  rw [comes.apply_eq lawful, comes'.apply_eq lawful']
  exact effect.alike_apply alike lawful lawful'

theorem lawful_foldl (writes : List Write) (lawful : draft.Lawful) :
    (writes.foldl apply draft).Lawful := by
  induction writes generalizing draft with
  | nil => exact lawful
  | cons write rest ih => exact ih (lawful_apply lawful write)

theorem alike_foldl (writes : List Write) (alike : draft.Alike other) (lawful : draft.Lawful)
    (lawful' : other.Lawful) : (writes.foldl apply draft).Alike (writes.foldl apply other) := by
  induction writes generalizing draft other with
  | nil => exact alike
  | cons write rest ih =>
      exact ih (alike_apply alike lawful lawful' write) (lawful_apply lawful write)
        (lawful_apply lawful' write)

/-- A write moves no node. -/
theorem parent?_apply (write : Write) (lawful : draft.Lawful) (id : NodeId) :
    (write.apply draft).parent? id = draft.parent? id := by
  obtain ⟨effect, comes⟩ := exists_comes lawful write
  rw [comes.apply_eq lawful, effect.parent?_apply]

theorem Independent.after (independent : Independent draft one two) (write : Write)
    (lawful : draft.Lawful) : Independent (write.apply draft) one two := by
  unfold Independent path
  simp only [pathTo_congr (write.parent?_apply lawful)]
  exact independent

/-- Writes that are independent of each other may come in any order. -/
theorem alike_of_perm {writes writes' : List Write} (perm : writes.Perm writes')
    (lawful : draft.Lawful) (independent : writes.Pairwise (Independent draft)) :
    (writes.foldl apply draft).Alike (writes'.foldl apply draft) := by
  induction perm generalizing draft with
  | nil => exact .refl draft
  | cons write perm ih =>
      apply ih (lawful_apply lawful write)
      exact (List.pairwise_cons.mp independent).2.imp fun both => both.after write lawful
  | swap one two rest =>
      have both : Independent draft two one :=
        (List.pairwise_cons.mp independent).1 one List.mem_cons_self
      exact alike_foldl rest (both.commute lawful) (lawful_apply (lawful_apply lawful two) one)
        (lawful_apply (lawful_apply lawful one) two)
  | trans perm perm' ih ih' =>
      refine (ih lawful independent).trans (ih' lawful ?_)
      exact (perm.pairwise_iff fun both => both.symm).mp independent

/-! ### What is recorded -/

/-- A finished value is written at a key that is recorded. -/
def Recorded (draft : Draft) : Write → Prop
  | leaf id key _ _ => draft.Records id key
  | skip _ _ => True

/-- What is recorded stays so. -/
theorem records_apply (lawful : draft.Lawful) (write : Write) {id : NodeId} {key : PathSegment}
    (records : draft.Records id key) : (write.apply draft).Records id key := by
  obtain ⟨effect, comes⟩ := exists_comes lawful write
  rw [comes.apply_eq lawful]
  intro alive content found
  rw [effect.content?_apply] at found
  obtain ⟨before, there, rfl⟩ := Option.map_eq_some_iff.mp found
  have lived := ((effect.alive_apply lawful.rooted id).mp alive).1
  exact (Content.records_congr (effect.shape_changeAt id before)).mpr (records lived before there)

/-- What stands at a slot after a write was there before, was written or is the null of a node. -/
theorem held?_apply_cases (lawful : draft.Lawful) {id : NodeId} {key : PathSegment} {entry : Entry}
    (held : (write.apply draft).held? id key = some entry) :
    draft.held? id key = some entry ∨ (∃ value nonNull, write = .leaf id key value nonNull) ∨
      ∃ top, draft.parent? top = some (id, key) := by
  obtain ⟨effect, comes⟩ := exists_comes lawful write
  rw [comes.apply_eq lawful] at held
  obtain ⟨content, found, stands⟩ := Option.bind_eq_some_iff.mp held
  rw [effect.content?_apply] at found
  obtain ⟨before, there, rfl⟩ := Option.map_eq_some_iff.mp found
  have stood (at_slot : before.held? key = some entry) : draft.held? id key = some entry := by
    rw [held?, there]
    exact at_slot
  by_cases here : effect.slot?.map (·.1) = some id
  · rw [Effect.changeAt, if_pos here] at stands
    obtain ⟨⟨node, slot⟩, at_slot, rfl⟩ := Option.map_eq_some_iff.mp here
    by_cases same : key = slot
    · subst same
      rcases comes.slot at_slot with ⟨rfl, rfl, rfl⟩ | ⟨top, -, -, up⟩
      · cases write with
        | leaf id key value nonNull => exact .inr (.inl ⟨value, nonNull, rfl⟩)
        | skip id key =>
            -- nothing comes to stand at a key that is left out
            have plain := lawful.plain id before there
            have kept : before.held? key = some entry := Content.held?_of_skip plain stands
            exact .inl (stood kept)
      · exact .inr (.inr ⟨top, up⟩)
    · rw [(effect.isLocal node slot at_slot).held before key same] at stands
      exact .inl (stood stands)
  · rw [Effect.changeAt, if_neg here] at stands
    exact .inl (stood stands)

/-- Every key stays recorded. -/
theorem recorded_apply (lawful : draft.Lawful) (recorded : draft.Recorded)
    (fits : write.Recorded draft) : (write.apply draft).Recorded where
  entries := by
    intro id key entry held
    apply records_apply lawful
    rcases held?_apply_cases lawful held with before | ⟨value, nonNull, rfl⟩ | ⟨top, up⟩
    · exact recorded.entries id key entry before
    · exact fits
    · exact recorded.nodes top id key up
  nodes := by
    intro id parent slot up
    rw [parent?_apply write lawful] at up
    exact records_apply lawful write (recorded.nodes id parent slot up)

theorem recorded_foldl {writes : List Write} (lawful : draft.Lawful) (recorded : draft.Recorded)
    (fit : ∀ write ∈ writes, write.Recorded draft) : (writes.foldl apply draft).Recorded := by
  induction writes generalizing draft with
  | nil => exact recorded
  | cons write rest ih =>
      have fits := fit write List.mem_cons_self
      apply ih (lawful_apply lawful write) (recorded_apply lawful recorded fits)
      intro later mem
      have before := fit later (List.mem_cons_of_mem _ mem)
      cases later with
      | leaf id key value nonNull => exact records_apply lawful write before
      | skip id key => trivial

end Write

/-! ### Main statement -/

/-- In a draft that has been written in any way, the keys of its objects recorded, two writes at
positions of which neither is above the other may come in either order, whatever nodes die of the
nulls among them; so any number of them may come in any order. -/
theorem writes_commute {value : AppValue} (written : Written (Draft.new value) draft)
    (recorded : draft.Recorded) :
    (∀ one two : Write, one.Recorded draft → two.Recorded draft → one.Independent draft two →
      (two.apply (one.apply draft)).toJson = (one.apply (two.apply draft)).toJson) ∧
    (∀ writes writes' : List Write, writes.Perm writes' →
      (∀ write ∈ writes, write.Recorded draft) → writes.Pairwise (Write.Independent draft) →
      (writes.foldl Write.apply draft).toJson = (writes'.foldl Write.apply draft).toJson) := by
  have lawful := written.lawful (lawful_new value)
  have in_any_order (writes writes' : List Write) (perm : writes.Perm writes')
      (fit : ∀ write ∈ writes, write.Recorded draft)
      (independent : writes.Pairwise (Write.Independent draft)) :
      (writes.foldl Write.apply draft).toJson = (writes'.foldl Write.apply draft).toJson :=
    ((Write.alike_of_perm perm lawful independent).toJson_eq (Write.lawful_foldl writes lawful)
      (Write.recorded_foldl lawful recorded fit)).symm
  refine ⟨fun one two fits fits' independent => ?_, in_any_order⟩
  apply in_any_order [one, two] [two, one] (.swap two one [])
  · simp [fits, fits']
  · simp [independent]

/-- The shelf with its keys in order, and those of the object in its list. -/
def labelled : Draft :=
  (shelf.setKeys 0 ["items", "other"]).setKeys 2 ["name"]

theorem labelled_written : Written (Draft.new .null) labelled := by
  have first := shelf_written.next (.setKeys 0 ["items", "other"])
    ⟨Op.known_of_lt rfl (by decide), trivial⟩
  exact first.next (.setKeys 2 ["name"]) ⟨Op.known_of_lt rfl (by decide), trivial⟩

theorem labelled_root : labelled.content? 0 = some (.object
    [("items", .node 1), ("other", .leaf (.string "here"))] ["items", "other"]) := rfl

theorem labelled_recorded : labelled.Recorded where
  entries := by
    intro (id : Nat) key entry held alive content found
    have known : id < 3 := alive.lt_size
    rcases id with _ | _ | _ | id
    · rw [labelled_root] at found
      injection found with found
      subst found
      cases key with
      | index n => trivial
      | field name =>
          rw [held?, labelled_root] at held
          exact Fields.mem_keys_of_get? held
    · cases found
      trivial
    · cases found
      cases key <;> cases held
    · omega
  nodes := by
    intro (id : Nat) parent slot up
    have known : id < 3 := lt_size_of_parent? up
    rcases id with _ | _ | _ | id
    · cases up
    · cases up
      intro _ content found
      rw [labelled_root] at found
      injection found with found
      subst found
      exact List.mem_cons_self
    · cases up
      rintro - content ⟨⟩
      trivial
    · omega

/-- A null in the object takes the place of the list, be it before something is written to the list
or after that. -/
theorem writes_commute_labelled :
    ((labelled.setLeaf 2 (.field "name") .null true).setLeaf 1 (.index 0) (.string "here")
        false).toJson =
      ((labelled.setLeaf 1 (.index 0) (.string "here") false).setLeaf 2 (.field "name") .null
        true).toJson := by
  have rise : Write.Recorded labelled (.leaf 2 (.field "name") .null true) := by
    intro _ content found
    have object : labelled.content? 2 = some (.object [] ["name"]) := rfl
    rw [object] at found
    injection found with found
    subst found
    exact List.mem_cons_self
  have fill : Write.Recorded labelled (.leaf 1 (.index 0) (.string "here") false) := by
    rintro - content ⟨⟩
    trivial
  exact (writes_commute labelled_written labelled_recorded).1
    (.leaf 2 (.field "name") .null true) (.leaf 1 (.index 0) (.string "here") false) rise fill
    (by unfold Write.Independent; decide)

end Draft

end GraphExec
