import GraphExec.Proofs.Draft.Fixed
import GraphExec.Proofs.Run.Shares

/-!
# The order of root fields

Each step of a run but that of the root object is on the way from a root field, which is the first
key of its path; what a step leads to is on the same way. In a mutation the root fields are held
back, and one of them is released when nothing else is left to do. So all steps that are not held
back are on the way from one root field, and those that are held back are fields behind it.
-/

namespace GraphExec

variable {σ : Type}

namespace Draft

variable {draft before after : Draft}

/-- The first key on the way from the root to a spot. -/
def firstKey? (draft : Draft) : Spot → Option PathSegment
  | .slot id key => (draft.pathTo id key).head?
  | .node id => (draft.path id).head?

/-- A slot of the root is at its key. -/
theorem Rooted.firstKey?_root (rooted : draft.Rooted) (key : PathSegment) :
    draft.firstKey? (.slot Draft.root key) = some key := by
  simp [firstKey?, pathTo, rooted.path_root]

/-- A slot of another node is on the same way as the node. -/
theorem Rooted.firstKey?_slot (rooted : draft.Rooted) {id : NodeId}
    (bound : id < draft.nodes.size) (elsewhere : id ≠ Draft.root) (key : PathSegment) :
    draft.firstKey? (.slot id key) = draft.firstKey? (.node id) := by
  obtain ⟨parent, above, up⟩ := rooted.others id bound elsewhere
  simp only [firstKey?, pathTo, path_eq rooted up]
  rw [List.head?_append_of_ne_nil]
  simp

/-- A node is on the same way as the slot that it hangs at. -/
theorem Rooted.firstKey?_node (rooted : draft.Rooted) {id parent : NodeId} {key : PathSegment}
    (up : draft.parent? id = some (parent, key)) :
    draft.firstKey? (.node id) = draft.firstKey? (.slot parent key) := by
  simp only [firstKey?, path_eq rooted up]

/-- A spot stays on its way. -/
theorem Grows.firstKey? (grows : Grows before after) (rooted : before.Rooted)
    (rooted' : after.Rooted) {spot : Spot} (bound : spot.id < before.nodes.size) :
    after.firstKey? spot = before.firstKey? spot := by
  cases spot with
  | slot id key => simp only [Draft.firstKey?, pathTo, grows.path rooted rooted' id bound]
  | node id => simp only [Draft.firstKey?, grows.path rooted rooted' id bound]

theorem fixes_writes {but : NodeId → Prop} (below : List (Task σ)) :
    ∀ draft, Fixes but draft (Task.writes below draft) := by
  induction below with
  | nil => exact .refl
  | cons task rest ih =>
      intro draft
      rw [Task.writes_cons]
      refine Fixes.trans ?_ (ih _)
      cases task with
      | written node key value nonNull => exact fixes_setLeaf draft node key value nonNull
      | awake step => exact .refl draft
      | asleep step wait => exact .refl draft
      | called step resumption => exact .refl draft

end Draft

namespace Step

/-- The key of the root field that a step is on the way from. -/
def firstKey? (draft : Draft) (step : Step σ) : Option PathSegment := draft.firstKey? step.spot

/-- The root object of a mutation holds its fields back, and no other object does. -/
def Serial : Step σ → Prop
  | .object step => step.serial = true ↔ step.target = .root
  | _ => True

/-- A root field that has not been begun. -/
def IsRootField (job : Job σ) (step : Step σ) : Prop :=
  ∃ key site, step = .field (FieldStep.new job.schema Draft.root key site)

/-- A step is on the way from a root field that comes before that of another one. -/
def ComesBefore (draft : Draft) (one other : Step σ) : Prop :=
  ∃ key key', one.firstKey? draft = some (.field key) ∧
    other.firstKey? draft = some (.field key') ∧ [key, key'].Sublist (draft.keys Draft.root)

variable {job : Job σ} {step next : Step σ} {s t : Stage σ} {progress : Progress σ}

theorem Stays.serial (stays : step.Stays job next) (serial : step.Serial) : next.Serial := by
  cases stays with
  | field state => exact trivial
  | item state => exact trivial
  | object typed node => exact serial
  | root state target => exact serial

/-- A step is at the root exactly if it is to build the root object. -/
theorem target_of_spot {object : ObjectStep σ} {draft : Draft} (rooted : draft.Rooted)
    (seated : (Step.object object).Seated draft) :
    (Step.object object).spot = .node Draft.root ↔ object.target = .root := by
  obtain ⟨first, here, top⟩ := rooted.root
  have no_parent : draft.parent? Draft.root = none := by
    unfold Draft.parent?
    rw [show draft.node? Draft.root = some first from here]
    exact top
  cases found : object.state.node? with
  | none =>
      cases target : object.target with
      | root => simp [Step.spot, ObjectStep.spot, found, target]
      | child position => simp [Step.spot, ObjectStep.spot, found, target]
  | some node =>
      have seat := seated node found
      cases target : object.target with
      | root =>
          simp only [target] at seat
          simp [Step.spot, ObjectStep.spot, found, seat]
      | child position =>
          simp only [target] at seat
          simp only [Step.spot, ObjectStep.spot, found, Spot.node.injEq, reduceCtorEq, iff_false]
          rintro rfl
          rw [no_parent] at seat
          cases seat

theorem firstKey?_itemSteps {draft : Draft} {position : Position σ} {list : NodeId}
    {itemType : TypeRef} {cursor : DirectiveCursor σ} (rooted : draft.Rooted)
    (up : draft.parent? list = some (position.parent, position.key))
    (bound : list < draft.nodes.size) (values : List (ResolvedValue σ)) :
    ∀ n, ∀ next ∈ position.itemSteps list itemType cursor n values,
      next.firstKey? draft = draft.firstKey? (.slot position.parent position.key) ∧
        next.Serial ∧ next.spot ≠ .node Draft.root := by
  have elsewhere : list ≠ Draft.root := by
    rintro rfl
    exact absurd (rooted.above _ _ _ up) (Nat.not_lt_zero _)
  induction values with
  | nil => exact fun _ _ mem => absurd mem List.not_mem_nil
  | cons value rest ih =>
      intro n next mem
      rcases List.mem_cons.mp mem with rfl | mem
      · refine ⟨?_, trivial, by intro same; cases same⟩
        exact (rooted.firstKey?_slot bound elsewhere _).trans (rooted.firstKey?_node up)
      · exact ih _ next mem

/-- The steps that an outcome of a position leads to are on the way of the position. -/
theorem completes_within {position : Position σ} {u : Stage σ} {value : ResolvedValue σ}
    {outcome : Outcome σ} (completes : position.Completes job u value outcome)
    (rooted : (outcome.draft position u.run.draft).Rooted) :
    ∀ next ∈ outcome.steps position u.run.draft,
      next.firstKey? (outcome.draft position u.run.draft) =
          (outcome.draft position u.run.draft).firstKey? (.slot position.parent position.key) ∧
        next.Serial ∧ next.spot ≠ .node Draft.root := by
  intro next mem
  cases completes with
  | @object _ _ type _ subject _ _ _ _ _ _ _ =>
      rw [Outcome.steps, List.mem_singleton] at mem
      subst mem
      have there : (Step.object (⟨.child position, subject, position.site.selections, false,
          .ofType type⟩ : ObjectStep σ)).spot = .slot position.parent position.key := by
        cases type <;> rfl
      refine ⟨?_, by simp [Step.Serial], by rw [there]; intro same; cases same⟩
      unfold Step.firstKey?
      rw [there]
  | items _ _ _ =>
      refine firstKey?_itemSteps rooted Draft.parent?_allocated ?_ _ 0 next mem
      exact Nat.lt_of_lt_of_le (Nat.lt_succ_self _) (Nat.le_of_eq Draft.size_allocate.symm)
  | _ => cases mem

/-- The key of a field. -/
def fieldKey : Step σ → String
  | .field step => step.key
  | _ => ""

/-- The steps that are launched for groups of field nodes are fields, in the order of the groups. -/
theorem launched_fields {object : ObjectStep σ} {type : ObjectType σ} {node : NodeId}
    {groups : Groups} {below : List (Task σ)}
    (launched : object.Launched job type node groups below) :
    ((below.filterMap Task.step?).map fieldKey).Sublist groups.keys ∧
      ∀ step ∈ below.filterMap Task.step?, ∃ key site,
        step = .field (FieldStep.new job.schema node key site) := by
  induction launched with
  | nil => exact ⟨.slnil, fun _ mem => absurd mem List.not_mem_nil⟩
  | @cons entry task groups below found _ ih =>
      obtain ⟨order, fields⟩ := ih
      rcases ObjectStep.launched?_eq found with ⟨-, rfl⟩ | ⟨-, field, -, rfl⟩
      · exact ⟨order.cons entry.1, fields⟩
      · refine ⟨order.cons_cons entry.1, fun step mem => ?_⟩
        rcases List.mem_cons.mp mem with rfl | mem
        · exact ⟨_, _, rfl⟩
        · exact fields step mem

/-- What a step leads to is on the same way, as long as it is not the root object. -/
theorem Moves.within (moves : step.Moves job s progress t) (seated : step.Seated s.run.draft)
    (serial : step.Serial) (bound : step.spot.id < s.run.draft.nodes.size)
    (elsewhere : step.spot ≠ .node Draft.root) (rooted : s.run.draft.Rooted)
    (rooted' : t.run.draft.Rooted) (grows : s.run.draft.Grows t.run.draft) :
    t.run.held = s.run.held ∧ ∃ more, t.run.ready = s.run.ready ++ more ∧
      ∀ next ∈ progress.next?.toList ++ more,
        next.firstKey? t.run.draft = step.firstKey? s.run.draft ∧ next.Serial ∧
          next.spot ≠ .node Draft.root := by
  have same_way : t.run.draft.firstKey? step.spot = s.run.draft.firstKey? step.spot :=
    grows.firstKey? rooted rooted' bound
  cases moves with
  | @passes _ next _ _ _ goes stays same =>
      refine ⟨same.held, [], by simpa using same.ready, fun other mem => ?_⟩
      rw [goes, List.append_nil, Option.toList_some, List.mem_singleton] at mem
      subst mem
      refine ⟨?_, stays.serial serial, stays.spot ▸ elsewhere⟩
      unfold Step.firstKey?
      rw [stays.spot, same_way]
  | @completes _ _ u _ position value due same finishes =>
      obtain ⟨outcome, completes, enters⟩ := finishes
      have here := due.spot
      refine ⟨enters.held.trans same.held, outcome.steps position u.run.draft, ?_, ?_⟩
      · rw [enters.ready, same.ready]
      · intro next mem
        rw [Progress.next?, Option.toList_none, List.nil_append] at mem
        obtain ⟨way, fine⟩ := completes_within completes (enters.draft ▸ rooted') next mem
        refine ⟨?_, fine⟩
        rw [enters.draft, way, ← enters.draft, ← here, same_way]
        rfl
  | @skips _ _ u _ position skips same enters =>
      refine ⟨enters.held.trans same.held, [], ?_, fun next mem => by cases mem⟩
      rw [enters.ready, same.ready]
  | @allocates step _ _ type position state target enters =>
      refine ⟨enters.held, [], enters.ready, fun next mem => ?_⟩
      rw [List.append_nil, Progress.next?, Option.toList_some, List.mem_singleton] at mem
      subst mem
      have here : (Step.object step).spot = .slot position.parent position.key := by
        simp [Step.spot, ObjectStep.spot, state, target, ObjectState.node?]
      have up : t.run.draft.parent? s.run.draft.nodes.size =
          some (position.parent, position.key) := by
        rw [enters.draft]
        exact Draft.parent?_allocated
      refine ⟨?_, serial, fun same => ?_⟩
      · show t.run.draft.firstKey? (.node s.run.draft.nodes.size) = _
        rw [rooted'.firstKey?_node up, ← here, same_way]
        rfl
      · injection same with same
        exact absurd (same ▸ bound) (Nat.not_lt_zero _)
  | @collects step _ u _ type node grouping below state grouped same launched leaves =>
      have here : (Step.object step).spot = .node node := by
        simp [Step.spot, ObjectStep.spot, state, ObjectState.node?]
      have inner : node ≠ Draft.root := fun same => elsewhere (same ▸ here)
      have bound' : node < s.run.draft.nodes.size := by rwa [here] at bound
      -- Only the root object of a mutation leaves its fields held back.
      have parallel : step.serial = false := by
        refine Bool.eq_false_iff.mpr fun held => elsewhere ?_
        exact (target_of_spot rooted seated).mpr (serial.mp held)
      rw [parallel] at leaves
      refine ⟨?_, below.filterMap Task.step?, ?_, fun next mem => ?_⟩
      · simpa [same.held] using leaves.held
      · simpa [same.ready] using leaves.ready
      · rw [Progress.next?, Option.toList_none, List.nil_append] at mem
        obtain ⟨key, site, rfl⟩ := (launched_fields launched).2 next mem
        refine ⟨?_, trivial, by intro same; cases same⟩
        show t.run.draft.firstKey? (.slot node (.field key)) = _
        rw [rooted'.firstKey?_slot (Nat.lt_of_lt_of_le bound' grows.size) inner, ← here, same_way]
        rfl
  | fails target spot fails enters => exact absurd spot elsewhere

/-- Steps that are launched at the root come one before the other. -/
theorem pairwise_launched {object : ObjectStep σ} {type : ObjectType σ} {groups : Groups}
    {below : List (Task σ)} {draft : Draft} (rooted : draft.Rooted)
    (launched : object.Launched job type Draft.root groups below)
    (keys : draft.keys Draft.root = groups.keys) :
    (below.filterMap Task.step?).Pairwise (ComesBefore draft) := by
  obtain ⟨order, fields⟩ := launched_fields launched
  have way : ∀ step ∈ below.filterMap Task.step?,
      step.firstKey? draft = some (.field step.fieldKey) := by
    intro step mem
    obtain ⟨key, site, rfl⟩ := fields step mem
    exact rooted.firstKey?_root _
  refine List.pairwise_iff_forall_sublist.mpr fun {one other} pair => ?_
  exact ⟨one.fieldKey, other.fieldKey, way one (pair.subset (by simp)),
    way other (pair.subset (by simp)), keys ▸ (pair.map fieldKey).trans order⟩

/-- The root object goes on, is given up, or holds its fields back in the order of their keys. -/
theorem Moves.opens {rest : List (Task σ)} (moves : step.Moves job s progress t)
    (orderly : Orderly s.run.draft (.awake step :: rest)) (serial : step.Serial)
    (here : step.spot = .node Draft.root) (rooted' : t.run.draft.Rooted) :
    t.run.ready = s.run.ready ∧
      ((∃ next, progress.next? = some next ∧ next.spot = .node Draft.root ∧ next.Serial ∧
          t.run.held = s.run.held ∧ t.run.draft = s.run.draft) ∨
        (progress.next? = none ∧ ∃ fields, t.run.held = s.run.held ++ fields ∧
          fields.Pairwise (ComesBefore t.run.draft) ∧
          (∀ field ∈ fields, field.IsRootField job) ∧
          ((t.run.draft.keys Draft.root).Nodup ∨
            t.run.draft.keys Draft.root = s.run.draft.keys Draft.root))) := by
  have rooted := orderly.tidy.wf.rooted
  have seated : step.Seated s.run.draft := orderly.seated _ List.mem_cons_self
  cases moves with
  | @passes _ next _ _ _ goes stays same =>
      exact ⟨same.ready, .inl ⟨next, goes, stays.spot.trans here, stays.serial serial, same.held,
        same.draft⟩⟩
  | completes due same finishes => exact absurd (due.spot.symm.trans here) nofun
  | skips skips same enters => exact absurd (skips.spot.symm.trans here) nofun
  | @allocates step _ _ type position state target enters =>
      have there : (Step.object step).spot = .slot position.parent position.key := by
        simp [Step.spot, ObjectStep.spot, state, target, ObjectState.node?]
      exact absurd (there.symm.trans here) nofun
  | @collects step _ u _ type node grouping below state grouped same launched leaves =>
      have there : (Step.object step).spot = .node node := by
        simp [Step.spot, ObjectStep.spot, state, ObjectState.node?]
      have at_root : node = Draft.root := by
        injection there.symm.trans here
      subst at_root
      have held_back : step.serial = true := serial.mpr ((target_of_spot rooted seated).mp here)
      rw [held_back] at leaves
      -- The root is empty until its fields are gathered.
      have alive : s.run.draft.Alive Draft.root :=
        orderly.anchored.root_alive orderly.tidy List.mem_cons_self here
      have empty : s.run.draft.content? Draft.root = some .emptyObject := by
        have free := orderly.tidy.free (.awake (.object step)) List.mem_cons_self
          (by rw [show Task.spot (.awake (.object step)) = _ from here]; exact alive)
        rwa [show Task.spot (.awake (.object step)) = _ from here] at free
      have keys : t.run.draft.keys Draft.root = grouping.groups.keys := by
        rw [leaves.draft, same.draft]
        have bound : Draft.root <
            (s.run.draft.setKeys Draft.root grouping.groups.keys).nodes.size := by
          rw [Draft.size_setKeys]
          exact alive.lt_size
        have written : Draft.Fixes (fun _ => False)
            (s.run.draft.setKeys Draft.root grouping.groups.keys) _ := Draft.fixes_writes below _
        exact (written.keys Draft.root bound id).trans (Draft.keys_setKeys empty _)
      refine ⟨?_, .inr ⟨rfl, below.filterMap Task.step?, ?_, ?_, ?_, .inl ?_⟩⟩
      · simpa [same.ready] using leaves.ready
      · simpa [same.held] using leaves.held
      · exact pairwise_launched rooted' launched keys
      · exact (launched_fields launched).2
      · exact keys ▸ Grouper.nodup_keys grouped
  | fails target spot fails enters =>
      refine ⟨by simpa using enters.ready, .inr ⟨rfl, [], by simpa using enters.held, .nil,
        fun _ mem => absurd mem List.not_mem_nil, .inr ?_⟩⟩
      rw [enters.draft]
      have alive : s.run.draft.Alive Draft.root :=
        orderly.anchored.root_alive orderly.tidy List.mem_cons_self here
      have nulled : Draft.Fixes (fun _ => False) s.run.draft s.run.draft.nullData :=
        Draft.fixes_nullData s.run.draft Draft.root
      exact nulled.keys Draft.root alive.lt_size id

end Step

end GraphExec
