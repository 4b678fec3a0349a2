import GraphExec.Proofs.Run.Origins

/-!
# No node falls unreported

A node of the response dies when a null takes its place, or the place of a node above it. The
transition in which that happens has reported the failure that the null has risen from, unless the
root object has given way as a whole.
-/

namespace GraphExec

variable {σ : Type} {job : Job σ} {seen : Sight σ → Prop}

/-- No node dies, and none is dead from the beginning. -/
def Draft.Spares (before after : Draft) : Prop :=
  ∀ id : Nat, id < after.nodes.size → (id < before.nodes.size → before.Alive id) → after.Alive id

namespace Draft

variable {before after draft : Draft}

theorem Spares.refl (draft : Draft) : Spares draft draft := fun _ known lived => lived known

theorem spares_edit (draft : Draft) (id : NodeId) (f : Content → Content) :
    Spares draft (draft.edit id f) := by
  intro other known lived
  rw [size_edit] at known
  exact (alive_edit _ _ _ _).mpr (lived known)

theorem spares_skip (draft : Draft) (id : NodeId) (key : PathSegment) :
    Spares draft (draft.skip id key) := by
  by_cases alive : draft.Alive id
  · rw [skip_eq_edit alive]
    exact spares_edit _ _ _
  · have dead : draft.isDead id = true := by simpa [Draft.Alive] using alive
    unfold skip
    rw [if_pos dead]
    exact .refl _

theorem spares_allocate {parent : NodeId} (alive : draft.Alive parent) (key : PathSegment)
    (content : Content) (value? : Option AppValue) (nonNull : Bool) :
    Spares draft (draft.allocate parent key content value? nonNull).2 := by
  intro id known lived
  rw [size_allocate] at known
  refine (alive_allocate alive id).mpr ?_
  rcases Nat.lt_or_ge id draft.nodes.size with old | fresh
  · exact .inr (lived old)
  · exact .inl (Nat.le_antisymm (Nat.le_of_lt_succ known) fresh)

end Draft

/-! ### Values that are written -/

namespace Task

theorem parent?_writes : ∀ (below : List (Task σ)) (draft : Draft) (id : NodeId),
    (writes below draft).parent? id = draft.parent? id := by
  intro below
  induction below with
  | nil => exact fun _ _ => rfl
  | cons task below ih =>
      intro draft id
      cases task with
      | written node key value nonNull => exact (ih _ id).trans (Draft.parent?_setLeaf _ _ _ _ _)
      | _ => exact ih draft id

theorem nonNull_writes : ∀ (below : List (Task σ)) (draft : Draft) (id : NodeId),
    (writes below draft).nonNull id = draft.nonNull id := by
  intro below
  induction below with
  | nil => exact fun _ _ => rfl
  | cons task below ih =>
      intro draft id
      cases task with
      | written node key value nonNull => exact (ih _ id).trans (Draft.nonNull_setLeaf _ _ _ _ _)
      | _ => exact ih draft id

/-- A node that dies as values are written falls with a node that a null is written to. -/
theorem felled_writes :
    ∀ (below : List (Task σ)) (draft : Draft) (rest : List (Task σ)), (∀ t ∈ below, t.Fresh) →
      Plan.Tidy Task.spot ⟨draft, below ++ rest⟩ → ∀ id, draft.Alive id →
      ¬ (writes below draft).Alive id →
      ∃ node key, Task.written node key .null true ∈ below ∧ (writes below draft).Felled node id := by
  intro below
  induction below with
  | nil => exact fun _ _ _ _ _ alive dead => absurd alive dead
  | cons task below ih =>
      intro draft rest fresh tidy id alive dead
      have behind := fun t mem => fresh t (List.mem_cons_of_mem task mem)
      cases task with
      | written node key value nonNull =>
          have here : (Task.written node key value nonNull : Task σ).spot = .slot node key := rfl
          have after : Plan.Tidy Task.spot ⟨draft.setLeaf node key value nonNull, below ++ rest⟩ :=
            Plan.Tidy.write here tidy
          by_cases lives : (draft.setLeaf node key value nonNull).Alive id
          · obtain ⟨node', key', mem, felled⟩ := ih _ rest behind after id lives dead
            exact ⟨node', key', List.mem_cons_of_mem _ mem, felled⟩
          · obtain ⟨rfl, rfl, felled⟩ := Draft.felled_setLeaf tidy.wf_draft alive lives
            refine ⟨node, key, List.mem_cons_self, ?_⟩
            exact felled.congr (parent?_writes (.written node key .null true :: below) draft)
              (nonNull_writes (.written node key .null true :: below) draft)
      | awake step =>
          obtain ⟨node', key', mem, felled⟩ := ih draft rest behind tidy.tail id alive dead
          exact ⟨node', key', List.mem_cons_of_mem _ mem, felled⟩
      | asleep step wait => exact (fresh _ List.mem_cons_self).elim
      | called step resumption => exact (fresh _ List.mem_cons_self).elim

end Task

open Engine

variable {position : Position σ} {step : Step σ} {s t u : Stage σ} {progress : Progress σ}
  {value : ResolvedValue σ} {failures : List Failure} {reports : List Report} {task : Task σ}
  {rest : List (Task σ)}

theorem Task.size_writes : ∀ (below : List (Task σ)) (draft : Draft),
    (writes below draft).nodes.size = draft.nodes.size := by
  intro below
  induction below with
  | nil => exact fun _ => rfl
  | cons task below ih =>
      intro draft
      cases task with
      | written node key value nonNull => exact (ih _).trans (Draft.size_setLeaf _ _ _ _)
      | _ => exact ih draft

/-- A node that dies as a position is completed falls for a failure that is reported. -/
theorem Position.Fails.felled (fails : position.Fails job u value failures)
    (finishes : position.Finishes job u value t)
    (tidy : Plan.Tidy Task.spot ⟨u.run.draft, task :: rest⟩)
    (here : task.spot = .slot position.parent position.key)
    (alive : u.run.draft.Alive position.parent) {id : Nat} (known : id < t.run.draft.nodes.size)
    (lived : id < u.run.draft.nodes.size → u.run.draft.Alive id) (dead : ¬ t.run.draft.Alive id) :
    ∃ failure ∈ failures, t.run.draft.Felled failure.node id := by
  obtain ⟨outcome, completes, enters⟩ := finishes
  rw [enters.draft] at known dead ⊢
  cases outcome with
  | omitted => exact absurd (Draft.spares_skip _ _ _ id known lived) dead
  | object object => exact absurd (lived known) dead
  | items itemType cursor values =>
      exact absurd (Draft.spares_allocate alive _ _ _ _ id known lived) dead
  | leaf written checked =>
      have lives := lived ((Draft.size_setLeaf _ _ _ _).symm ▸ known)
      obtain ⟨null, ruled, felled⟩ := Draft.felled_setLeaf tidy.wf_draft lives dead
      -- A null that rises from here is ruled out here, so it is not written without a report.
      cases fails.written with
      | mild _ mild => exact absurd ruled (by rw [mild _ completes null]; exact Bool.false_ne_true)
      | null some_failed here _ =>
          obtain ⟨failure, failed⟩ := List.exists_mem_of_ne_nil _ some_failed
          refine ⟨failure, failed, ?_⟩
          rw [(here failure failed).1]
          exact felled.congr (Draft.parent?_setLeaf _ · _ _ _) (Draft.nonNull_setLeaf _ · _ _ _)
      | places _ itemType size _ only => cases only _ completes
  | refusals itemType size =>
      cases fails.written with
      | mild _ mild => exact (mild _ completes).elim
      | null _ _ only => cases only _ completes
      | places some_failed itemType' size' there only =>
          cases only _ completes
          have sized : (Outcome.refusals itemType size : Outcome σ).size? = some size := rfl
          obtain ⟨draft_eq, -⟩ := Outcome.draft_eq position sized u.run.draft
          rw [draft_eq] at known dead ⊢
          have spares :=
            Draft.spares_allocate alive position.key (.emptyList size) none position.nonNull
          have lives := spares id ((Task.size_writes _ _).symm ▸ known) lived
          have fresh : ∀ task ∈ (Outcome.refusals itemType size : Outcome σ).below position
              u.run.draft.nodes.size, task.Fresh := Outcome.fresh_below
          obtain ⟨node, key, written, felled⟩ := Task.felled_writes _ _ rest fresh
            (tidy.openList here alive (Outcome.spots_below sized)) id lives dead
          obtain ⟨failure, failed⟩ := List.exists_mem_of_ne_nil _ some_failed
          refine ⟨failure, failed, ?_⟩
          obtain ⟨n, -, same⟩ := List.mem_map.mp written
          injection same with at_list
          rw [← at_list] at felled
          rw [(there failure failed).1]
          exact felled

/-- The root object gives way in a transition. -/
def Step.GivesUp (job : Job σ) (step : Step σ) (s : Stage σ) : Prop :=
  ∃ object value u, step = .object object ∧ object.target = .root ∧ object.Fails job s value u

/-- A transition that completes no position and does not give up the root object fells no node. -/
theorem Step.Moves.spares (moves : step.Moves job s progress t)
    (orderly : Orderly s.run.draft (.awake step :: rest)) (alive : step.isAlive s.run.draft = true)
    (no_due : progress = .finished → ∀ position value u, ¬ step.Due job s position value u)
    (stays : ¬ step.GivesUp job s) : s.run.draft.Spares t.run.draft := by
  cases moves with
  | passes goes stays same => rw [same.draft]; exact .refl _
  | completes due same finishes => exact absurd due (no_due rfl _ _ _)
  | skips skips same enters =>
      rw [enters.draft, same.draft]
      exact Draft.spares_skip _ _ _
  | @allocates step s t type position state target enters =>
      have live : s.run.draft.Alive position.parent := by
        simpa [isAlive, target, ObjectTarget.isAlive, Draft.Alive] using alive
      rw [enters.draft]
      exact Draft.spares_allocate live _ _ _ _
  | @collects step s u t type node grouping below state grouped same launched leaves =>
      have at_node : step.state.node? = some node := by rw [state]; rfl
      have lives := orderly.node_alive (orderly.seated _ List.mem_cons_self) at_node alive
      obtain ⟨spots, fresh⟩ := step.spots_launched launched
      have tidy : Plan.Tidy Task.spot ⟨s.run.draft.setKeys node grouping.groups.keys, below ++ rest⟩ :=
        orderly.tidy.fill (ObjectStep.spot_of_node at_node) lives (Grouper.nodup_keys grouped) spots
      rw [leaves.draft, same.draft]
      intro id known lived
      rw [Task.size_writes, Draft.size_setKeys] at known
      refine Classical.byContradiction fun dead => ?_
      obtain ⟨_, _, written, -⟩ := Task.felled_writes below _ rest fresh tidy id
        ((Draft.alive_setKeys _ _ _ _).mpr (lived known)) dead
      -- What is launched besides steps are names of types.
      obtain ⟨entry, -, found⟩ := (ObjectStep.launched_iff launched).2 _ written
      rcases ObjectStep.launched?_eq found with ⟨-, same⟩ | ⟨-, field, -, same⟩ <;> cases same
  | fails target spot fails enters => exact absurd ⟨_, _, _, rfl, target, fails⟩ stays

/-- A node that dies in a transition falls for a failure that it reports, unless the root object gives
way. -/
theorem Step.Reports.felled (reported : step.Reports job s progress t reports)
    (gives : (step.advance job).Gives s progress t)
    (orderly : Orderly s.run.draft (.awake step :: rest)) {id : Nat}
    (known : id < t.run.draft.nodes.size)
    (lived : id < s.run.draft.nodes.size → s.run.draft.Alive id) (dead : ¬ t.run.draft.Alive id) :
    (∃ failure, .failed failure ∈ reports ∧ t.run.draft.Felled failure.node id) ∨
      step.GivesUp job s := by
  refine Classical.byContradiction fun neither => ?_
  have stays : ¬ step.GivesUp job s := fun gives_up => neither (.inr gives_up)
  have spared (no_due : progress = .finished → ∀ position value u,
      ¬ step.Due job s position value u) : False := by
    rcases step.advance_cases gives with ⟨-, -, rfl⟩ | ⟨alive, moves⟩
    · exact dead (lived known)
    · exact dead (moves.spares orderly alive no_due stays id known lived)
  cases reported with
  | dropped no_more => exact dead (lived known)
  | skipped skips =>
      refine spared fun _ position value u due => ?_
      cases skips with
      | field state skipped =>
          cases due with
          | field state' settled => cases state.symm.trans state'
      | item state skipped =>
          cases due with
          | item state' => cases state.symm.trans state'
  | settled alive due same finishes fails =>
      rw [← same.draft] at alive
      have tidy : Plan.Tidy Task.spot ⟨_, .awake step :: rest⟩ := same.draft ▸ orderly.tidy
      obtain ⟨failure, failed, felled⟩ := fails.felled finishes tidy due.spot alive known
        (same.draft ▸ lived) dead
      exact neither (.inl ⟨failure, List.mem_map.mpr ⟨failure, failed, rfl⟩, felled⟩)
  | collected alive state passes =>
      refine spared fun _ position value u due => ?_
      cases due with
      | object target fails =>
          have early := fails.no_node
          rw [state] at early
          cases early
  | refused target fails tells => exact stays ⟨_, _, _, rfl, target, fails⟩
  | resolved alive state notes =>
      refine spared fun _ position value u due => ?_
      cases due with
      | field state' settled => cases state.symm.trans state'
  | goes goes other =>
      refine spared fun done => ?_
      rw [done] at goes
      cases goes

namespace Weave

variable {first last : Weave σ} {log : List (Transition σ)}

/-- Only steps change the response. -/
theorem Move.draft_eq {first last : Weave σ} {sight : Sight σ} (move : Move job first sight last)
    (other : ∀ step s, sight ≠ .advanced step s) : last.run.draft = first.run.draft := by
  cases move with
  | advance picked advanced => exact absurd rfl (other _ _)
  | release idle top none_parked => rfl
  | wait picked polled => exact (Wait.sameTree_of_poll polled).draft
  | answer picked polled => exact (Wait.sameTree_of_poll polled).draft
  | resume picked resumes => rfl
  | change world => rfl

/-- In a transition a node dies. -/
structure Fells (transition : Transition σ) (id : Nat) : Prop where
  lived : id < transition.before.run.draft.nodes.size → transition.before.run.draft.Alive id
  dead : ¬ transition.after.run.draft.Alive id

/-- Every node that is dead has died in a transition of the log, for a failure that it has reported,
unless the root object gave way in it. -/
theorem Logs.fallen (logs : Logs job seen first log last) (settled : first.Settled)
    (fresh : ∀ id : Nat, id < first.run.draft.nodes.size → first.run.draft.Alive id) :
    ∀ id : Nat, id < last.run.draft.nodes.size → ¬ last.run.draft.Alive id →
      ∃ transition ∈ log, Fells transition id ∧
        ((∃ failure, .failed failure ∈ transition.reports ∧
          transition.after.run.draft.Felled failure.node id) ∨
          transition.step.GivesUp job transition.before) := by
  induction logs with
  | refl => exact fun id known dead => absurd (fresh id known) dead
  | @advance log second ready transition logs picked here allowed holds ih =>
      intro id known dead
      rw [draft_place] at known dead
      obtain ⟨gives, reported, -⟩ := holds
      by_cases lived : id < second.run.draft.nodes.size → second.run.draft.Alive id
      · have orderly := ((logs.path.leads settled).2).perm (tasks_picked picked)
        have draft : transition.before.run.draft = second.run.draft := by rw [here]
        rw [← draft] at lived orderly
        exact ⟨transition, List.mem_append_right _ List.mem_cons_self, ⟨lived, dead⟩,
          reported.felled gives orderly known lived dead⟩
      · obtain ⟨known, dead⟩ := Classical.not_imp.mp lived
        obtain ⟨transition, mem, why⟩ := ih id known dead
        exact ⟨transition, List.mem_append_left _ mem, why⟩
  | aside logs allowed move other ih =>
      rw [move.draft_eq other]
      exact ih

end Weave

end GraphExec
