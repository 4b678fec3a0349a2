import GraphExec.Proofs.Run.Order
import Mathlib.Data.List.Pairwise

/-!
# One root field at a time

In the run of a mutation the steps that are under way - ready, waiting or answered - are all on the
way from one root field, whose key comes before those of the fields that are held back. That is so
at the beginning, when the root object is the only step, and every move keeps it so.

Once the root is dead, the fields that are held back are dropped one after another, and nothing else
is done for them.
-/

namespace GraphExec

open Engine

variable {σ : Type} {job : Job σ} {seen : Sight σ → Prop} {draft after : Draft}

/-! ### Before and behind -/

/-- In a list without duplicates nothing is both before and behind another thing. -/
theorem not_sublist_of_sublist {α : Type} {a b : α} {list : List α} (distinct : list.Nodup)
    (order : [a, b].Sublist list) : ¬ [b, a].Sublist list := by
  induction list with
  | nil => cases order
  | cons first rest ih =>
      obtain ⟨fresh, distinct⟩ := List.nodup_cons.mp distinct
      intro back
      cases order with
      | cons _ order =>
          cases back with
          | cons _ back => exact ih distinct order back
          | cons_cons _ back => exact fresh (order.subset (by simp))
      | cons_cons _ order =>
          cases back with
          | cons _ back => exact fresh (back.subset (by simp))
          | cons_cons _ back => exact fresh (order.subset (by simp))

/-- A field whose object is dead is dropped, whatever it has come to and whatever it would call. -/
theorem FieldStep.advance_dead (step : FieldStep σ) (job : Job σ) {s : Stage σ}
    (dead : s.run.draft.isDead step.parent = true) :
    ((Step.field step).advance job).Gives s .finished s := by
  refine gives_bind.mpr ⟨s.run.draft, s, gives_draft.mpr ⟨rfl, rfl⟩, ?_⟩
  rw [if_pos dead]
  exact gives_pure.mpr ⟨rfl, rfl⟩

namespace Step

/-- Whether one step is before another one depends on the ways that they are on. -/
theorem ComesBefore.congr {one other one' other' : Step σ} (before : one.ComesBefore draft other)
    (first : one'.firstKey? after = one.firstKey? draft)
    (second : other'.firstKey? after = other.firstKey? draft)
    (keys : after.keys Draft.root = draft.keys Draft.root) : one'.ComesBefore after other' := by
  obtain ⟨key, key', here, there, order⟩ := before
  exact ⟨key, key', first.trans here, second.trans there, keys ▸ order⟩

/-- A step that is before another one is on another way. -/
theorem ComesBefore.differs {one other : Step σ} (before : one.ComesBefore draft other)
    (distinct : (draft.keys Draft.root).Nodup) : one.firstKey? draft ≠ other.firstKey? draft := by
  obtain ⟨key, key', here, there, order⟩ := before
  rw [here, there]
  intro same
  obtain rfl : key = key' := by simpa using same
  exact not_sublist_of_sublist distinct order order

/-- Of two steps one is before the other. -/
theorem ComesBefore.asymm {one other : Step σ} (before : one.ComesBefore draft other)
    (distinct : (draft.keys Draft.root).Nodup) : ¬ other.ComesBefore draft one := by
  rintro ⟨key', key, there', here', back⟩
  obtain ⟨first, second, here, there, order⟩ := before
  obtain rfl : first = key := by simpa using here.symm.trans here'
  obtain rfl : second = key' := by simpa using there.symm.trans there'
  exact not_sublist_of_sublist distinct order back

end Step

/-! ### The steps of a run -/

namespace Weave

/-- The steps that are under way: ready, waiting or answered. -/
def active (weave : Weave σ) : List (Step σ) :=
  weave.run.ready ++ (weave.asleep.map (·.1) ++ weave.called.map (·.1))

theorem Drives.active {first last : Weave σ} {step : Step σ} {wait : Wait σ}
    (drives : first.Drives step wait last) : first.active.Perm last.active := by
  unfold Weave.active
  rw [show last.run.ready = first.run.ready from drives.sameTree.ready]
  exact drives.parkedSteps.append_left _

/-- The tasks of a run are at the spots of its steps. -/
theorem spots_tasks (weave : Weave σ) :
    (weave.tasks.map Task.spot).Perm ((weave.active ++ weave.run.held).map Step.spot) := by
  have by_kind : weave.tasks.map Task.spot =
      (weave.run.ready ++ (weave.run.held ++ (weave.asleep.map (·.1) ++ weave.called.map (·.1)))).map
        Step.spot := by
    simp [tasks, List.map_append, List.map_map, Function.comp_def, Task.spot]
  rw [by_kind]
  refine List.Perm.map _ ?_
  unfold active
  rw [List.append_assoc]
  exact List.perm_append_comm.append_left _

theorem Settled.known {weave : Weave σ} (settled : weave.Settled) {step : Step σ}
    (mem : step ∈ weave.active ++ weave.run.held) :
    step.spot.id < weave.run.draft.nodes.size := by
  have among := weave.spots_tasks.mem_iff.mpr (List.mem_map_of_mem mem)
  obtain ⟨task, mem, same⟩ := List.mem_map.mp among
  exact same ▸ settled.tidy.known task mem

/-- The root is to be filled by nobody, if no step is at the root. -/
theorem Settled.filled_root {weave : Weave σ} (settled : weave.Settled)
    (elsewhere : ∀ step ∈ weave.active ++ weave.run.held, step.spot ≠ .node Draft.root) :
    Plan.Filled Task.spot weave.plan Draft.root := by
  refine ⟨?_, fun task mem there => ?_⟩
  · obtain ⟨node, first, -⟩ := settled.tidy.wf.rooted.root
    exact (Array.getElem?_eq_some_iff.mp first).1
  · have among := weave.spots_tasks.mem_iff.mp (List.mem_map_of_mem mem)
    obtain ⟨step, mem, same⟩ := List.mem_map.mp among
    exact elsewhere step mem (same.trans there)

/-- What a step has come to is under way. -/
theorem active_place (weave : Weave σ) (progress : Progress σ) :
    (weave.place progress).active.Perm (progress.next?.toList ++ weave.active) := by
  cases progress with
  | again step => exact .refl _
  | finished => exact .refl _
  | parked step depth wait => exact List.perm_middle

theorem held_place (weave : Weave σ) (progress : Progress σ) :
    (weave.place progress).run.held = weave.run.held := by
  cases progress <;> rfl

theorem Move.counted {first last : Weave σ} {sight : Sight σ} (move : Move job first sight last)
    (counted : first.Counted) : last.Counted := by
  unfold Counted at counted ⊢
  cases move with
  | @advance step ready progress s picked advanced =>
      have same := step.advance_parked advanced
      cases progress with
      | again next => exact same.trans counted
      | finished => exact same.trans counted
      | parked next depth wait =>
          have : s.run.parked = first.asleep.length + first.called.length := same.trans counted
          simp only [place, List.length_cons]
          omega
  | release idle top none_parked => exact counted
  | wait picked polled => exact Drives.counted (.waits picked polled) counted
  | answer picked polled => exact Drives.counted (.answers picked polled) counted
  | @resume step next resumption others picked resumes =>
      have length := picked.length_eq
      simp only [List.length_cons] at length ⊢
      omega
  | change world => exact counted

/-! ### One after another -/

/-- The steps that are under way are on the way from one root field, and the fields that are held
back come behind it in their order; or the root object is the only step. -/
structure OneByOne (job : Job σ) (draft : Draft) (active held : List (Step σ)) : Prop where
  serial : ∀ step ∈ active, step.Serial
  alone : ∀ step ∈ active, step.spot = .node Draft.root → active = [step] ∧ held = []
  together : ∀ one ∈ active, ∀ other ∈ active, one.firstKey? draft = other.firstKey? draft
  ahead : ∀ step ∈ active, ∀ field ∈ held, step.ComesBefore draft field
  order : held.Pairwise (Step.ComesBefore draft)
  fields : ∀ field ∈ held, field.IsRootField job
  distinct : (draft.keys Draft.root).Nodup

namespace OneByOne

variable {active others held : List (Step σ)} {step : Step σ}

theorem perm (one : OneByOne job draft active held) (same : active.Perm others) :
    OneByOne job draft others held where
  serial step mem := one.serial step (same.mem_iff.mpr mem)
  alone step mem here := by
    obtain ⟨only, none_held⟩ := one.alone step (same.mem_iff.mpr mem) here
    exact ⟨List.perm_singleton.mp (only ▸ same.symm), none_held⟩
  together one' mem other mem' := one.together one' (same.mem_iff.mpr mem) other
    (same.mem_iff.mpr mem')
  ahead step mem := one.ahead step (same.mem_iff.mpr mem)
  order := one.order
  fields := one.fields
  distinct := one.distinct

/-- A root field that has not been begun is not at the root. -/
theorem field_elsewhere {field : Step σ} (fresh : field.IsRootField job) :
    field.spot ≠ .node Draft.root := by
  obtain ⟨key, site, rfl⟩ := fresh
  exact nofun

/-- A step gives way to others on its way. -/
theorem follow {nexts : List (Step σ)} (one : OneByOne job draft (step :: others) held)
    (elsewhere : step.spot ≠ .node Draft.root)
    (follows : ∀ next ∈ nexts, next.firstKey? after = step.firstKey? draft ∧ next.Serial ∧
      next.spot ≠ .node Draft.root)
    (kept : ∀ other ∈ others ++ held, other.firstKey? after = other.firstKey? draft)
    (keys : after.keys Draft.root = draft.keys Draft.root) :
    OneByOne job after (nexts ++ others) held := by
  -- All are on the way of the step.
  have way : ∀ next ∈ nexts ++ others, next.firstKey? after = step.firstKey? draft := by
    intro next mem
    rcases List.mem_append.mp mem with mem | mem
    · exact (follows next mem).1
    · rw [kept next (List.mem_append_left _ mem)]
      exact one.together next (List.mem_cons_of_mem _ mem) step List.mem_cons_self
  have held_way : ∀ field ∈ held, field.firstKey? after = field.firstKey? draft :=
    fun field mem => kept field (List.mem_append_right _ mem)
  have not_at_root : ∀ next ∈ nexts ++ others, next.spot ≠ .node Draft.root := by
    intro next mem here
    rcases List.mem_append.mp mem with mem | mem
    · exact (follows next mem).2.2 here
    · obtain ⟨only, -⟩ := one.alone next (List.mem_cons_of_mem _ mem) here
      injection only with first last
      exact elsewhere (first ▸ here)
  refine ⟨?_, ?_, ?_, ?_, ?_, one.fields, keys ▸ one.distinct⟩
  · intro next mem
    rcases List.mem_append.mp mem with mem | mem
    · exact (follows next mem).2.1
    · exact one.serial next (List.mem_cons_of_mem _ mem)
  · exact fun next mem here => absurd here (not_at_root next mem)
  · exact fun next mem other mem' => (way next mem).trans (way other mem').symm
  · intro next mem field mem'
    exact (one.ahead step List.mem_cons_self field mem').congr (way next mem)
      (held_way field mem') keys
  · refine one.order.imp_of_mem fun {field other} mem mem' before => ?_
    exact before.congr (held_way field mem) (held_way other mem') keys

/-- A step is done, and nothing comes of it. -/
theorem tail (one : OneByOne job draft (step :: others) held) :
    OneByOne job draft others held where
  serial next mem := one.serial next (List.mem_cons_of_mem _ mem)
  alone next mem here := by
    obtain ⟨only, -⟩ := one.alone next (List.mem_cons_of_mem _ mem) here
    injection only with _ none_other
    exact absurd (none_other ▸ mem) List.not_mem_nil
  together next mem other mem' :=
    one.together next (List.mem_cons_of_mem _ mem) other (List.mem_cons_of_mem _ mem')
  ahead next mem := one.ahead next (List.mem_cons_of_mem _ mem)
  order := one.order
  fields := one.fields
  distinct := one.distinct

/-- The root object goes on. -/
theorem pass_root {next : Step σ} (one : OneByOne job draft [step] []) (serial : next.Serial) :
    OneByOne job draft [next] [] where
  serial other mem := List.mem_singleton.mp mem ▸ serial
  alone other mem _ := ⟨by rw [List.mem_singleton.mp mem], rfl⟩
  together other mem other' mem' := by rw [List.mem_singleton.mp mem, List.mem_singleton.mp mem']
  ahead _ _ _ mem := absurd mem List.not_mem_nil
  order := .nil
  fields _ mem := absurd mem List.not_mem_nil
  distinct := one.distinct

/-- The root object has left its fields to be taken up. -/
theorem opened (order : held.Pairwise (Step.ComesBefore draft))
    (fields : ∀ field ∈ held, field.IsRootField job) (distinct : (draft.keys Draft.root).Nodup) :
    OneByOne job draft [] held where
  serial _ mem := absurd mem List.not_mem_nil
  alone _ mem := absurd mem List.not_mem_nil
  together _ mem := absurd mem List.not_mem_nil
  ahead _ mem := absurd mem List.not_mem_nil
  order := order
  fields := fields
  distinct := distinct

/-- The first of the fields that are held back is released when nothing is under way. -/
theorem release {field : Step σ} (one : OneByOne job draft [] (field :: held)) :
    OneByOne job draft [field] held := by
  obtain ⟨ahead, order⟩ := List.pairwise_cons.mp one.order
  have fresh := one.fields field List.mem_cons_self
  have only : ∀ step ∈ [field], step = field := fun step mem => List.mem_singleton.mp mem
  refine ⟨?_, ?_, ?_, ?_, order, fun other mem => one.fields other (List.mem_cons_of_mem _ mem),
    one.distinct⟩
  · intro step mem
    obtain ⟨key, site, rfl⟩ := fresh
    rw [only step mem]
    trivial
  · exact fun step mem here => absurd (only step mem ▸ here) (field_elsewhere fresh)
  · intro step mem other mem'
    rw [only step mem, only other mem']
  · intro step mem other mem'
    rw [only step mem]
    exact ahead other mem'

/-- No step is at the root, if one of those that are under way is not. -/
theorem elsewhere (one : OneByOne job draft (step :: others) held)
    (elsewhere : step.spot ≠ .node Draft.root) :
    ∀ other ∈ step :: others ++ held, other.spot ≠ .node Draft.root := by
  intro other mem here
  rcases List.mem_append.mp mem with mem | mem
  · obtain ⟨only, -⟩ := one.alone other mem here
    injection only with first last
    exact elsewhere (first ▸ here)
  · exact field_elsewhere (one.fields other mem) here

end OneByOne

/-- What holds of the run of a mutation while it goes on. -/
structure InOrder (job : Job σ) (weave : Weave σ) : Prop where
  settled : weave.Settled
  counted : weave.Counted
  one : OneByOne job weave.run.draft weave.active weave.run.held

/-- What is left of a run when a step that is ready is taken up. -/
theorem active_picked {weave : Weave σ} {step : Step σ} {ready : List (Step σ)}
    (picked : weave.run.ready.Perm (step :: ready)) :
    weave.active.Perm
      (step :: (ready ++ (weave.asleep.map (·.1) ++ weave.called.map (·.1)))) :=
  picked.append_right _

/-- What a step has left, and the others. -/
theorem active_advanced {weave : Weave σ} {ready more : List (Step σ)} {progress : Progress σ}
    {s : Stage σ} (left : s.run.ready = ready ++ more) :
    (place { weave with run := s.run, world := s.world } progress).active.Perm
      ((progress.next?.toList ++ more) ++
        (ready ++ (weave.asleep.map (·.1) ++ weave.called.map (·.1)))) := by
  refine (active_place _ progress).trans ?_
  rw [List.append_assoc]
  refine List.Perm.append_left _ ?_
  unfold active
  simp only [left]
  rw [← List.append_assoc more]
  exact (List.perm_append_comm).append_right _ |>.trans (.of_eq (by simp))

theorem InOrder.picked_mem {weave : Weave σ} {step : Step σ} {ready : List (Step σ)}
    (ordered : weave.InOrder job) (picked : weave.run.ready.Perm (step :: ready)) :
    step ∈ weave.active ++ weave.run.held ∧
      Orderly weave.run.draft (.awake step :: ((ready ++ weave.run.held).map .awake ++
        (weave.asleep.map (fun entry => .asleep entry.1 entry.2) ++
          weave.called.map (fun entry => .called entry.1 entry.2)))) := by
  refine ⟨?_, ordered.settled.perm (tasks_picked picked)⟩
  exact List.mem_append_left _ ((active_picked picked).mem_iff.mpr List.mem_cons_self)

/-- What a transition of a step leaves that is not the root object: what it leads to is on the same
way, and nothing else is changed of the order. -/
structure Onward (weave : Weave σ) (step : Step σ) (ready : List (Step σ)) (progress : Progress σ)
    (run : Run σ) (more : List (Step σ)) : Prop where
  ready : run.ready = ready ++ more
  held : run.held = weave.run.held
  way : ∀ next ∈ progress.next?.toList ++ more,
    next.firstKey? run.draft = step.firstKey? weave.run.draft ∧ next.Serial ∧
      next.spot ≠ .node Draft.root
  kept : ∀ other ∈ weave.active ++ weave.run.held,
    other.firstKey? run.draft = other.firstKey? weave.run.draft
  keys : run.draft.keys Draft.root = weave.run.draft.keys Draft.root

theorem InOrder.onward {weave : Weave σ} {step : Step σ} {ready : List (Step σ)}
    {progress : Progress σ} {s : Stage σ} (ordered : weave.InOrder job)
    (picked : weave.run.ready.Perm (step :: ready))
    (gives : (step.advance job).Gives ⟨{ weave.run with ready }, weave.world⟩ progress s)
    (leads : Leads job seen weave (place { weave with run := s.run, world := s.world } progress))
    (elsewhere : step.spot ≠ .node Draft.root) :
    ∃ more, weave.Onward step ready progress s.run more := by
  obtain ⟨reaches, settled'⟩ := leads
  rcases step.advance_cases gives with ⟨-, rfl, rfl⟩ | ⟨-, moves⟩
  · exact ⟨[], (List.append_nil _).symm, rfl, fun next mem => absurd mem List.not_mem_nil,
      fun _ _ => rfl, rfl⟩
  · obtain ⟨mem, orderly⟩ := ordered.picked_mem picked
    have rooted := ordered.settled.tidy.wf.rooted
    have grows : weave.run.draft.Grows s.run.draft := by
      have grows := reaches.grows
      rwa [plan, plan, draft_place] at grows
    have rooted' : s.run.draft.Rooted := by
      have rooted' := settled'.tidy.wf.rooted
      rwa [draft_place] at rooted'
    have one := ordered.one.perm (active_picked picked)
    obtain ⟨held, more, left, follows⟩ := moves.within (orderly.seated _ List.mem_cons_self)
      (one.serial step List.mem_cons_self) (ordered.settled.known mem) elsewhere rooted rooted' grows
    refine ⟨more, left, held, follows,
      fun other mem => grows.firstKey? rooted rooted' (ordered.settled.known mem), ?_⟩
    have filled := ordered.settled.filled_root fun other mem => one.elsewhere elsewhere other
      (((active_picked picked).append_right weave.run.held).mem_iff.mp mem)
    have keys := (reaches.keys_eq filled).1
    rwa [plan, plan, draft_place] at keys

/-- A transition of a step leaves its run in order. -/
theorem OneByOne.advance {weave : Weave σ} {step : Step σ} {ready : List (Step σ)}
    {progress : Progress σ} {s : Stage σ} (ordered : weave.InOrder job)
    (picked : weave.run.ready.Perm (step :: ready))
    (gives : (step.advance job).Gives ⟨{ weave.run with ready }, weave.world⟩ progress s)
    (leads : Leads job seen weave (place { weave with run := s.run, world := s.world } progress)) :
    ∃ more, s.run.ready = ready ++ more ∧
      OneByOne job s.run.draft ((progress.next?.toList ++ more) ++
        (ready ++ (weave.asleep.map (·.1) ++ weave.called.map (·.1)))) s.run.held := by
  have one := ordered.one.perm (active_picked picked)
  by_cases here : step.spot = .node Draft.root
  · rcases step.advance_cases gives with ⟨-, rfl, rfl⟩ | ⟨-, moves⟩
    · exact ⟨[], (List.append_nil _).symm, one.tail⟩
    · -- The root object is the only step.
      obtain ⟨only, none_held⟩ := one.alone step List.mem_cons_self here
      have nobody : ready ++ (weave.asleep.map (·.1) ++ weave.called.map (·.1)) = [] := by
        injection only
      have rooted' : s.run.draft.Rooted := by
        have rooted' := leads.2.tidy.wf.rooted
        rwa [draft_place] at rooted'
      obtain ⟨left, ⟨next, goes, there, serial, held, draft⟩ |
          ⟨ends, fields, held, order, fresh, distinct⟩⟩ :=
        moves.opens (ordered.picked_mem picked).2 (one.serial step List.mem_cons_self) here rooted'
      · refine ⟨[], left.trans (List.append_nil _).symm, ?_⟩
        rw [nobody, none_held] at one
        rw [nobody, held, draft, goes, List.append_nil, List.append_nil, Option.toList_some,
          none_held]
        exact one.pass_root serial
      · refine ⟨[], left.trans (List.append_nil _).symm, ?_⟩
        rw [nobody, held, ends, none_held, List.append_nil, List.append_nil, Option.toList_none]
        exact .opened order fresh (distinct.elim id fun same => same ▸ one.distinct)
  · obtain ⟨more, onward⟩ := ordered.onward picked gives leads here
    refine ⟨more, onward.ready, ?_⟩
    rw [onward.held]
    refine one.follow here onward.way (fun other mem => onward.kept other ?_) onward.keys
    refine ((active_picked picked).append_right weave.run.held).mem_iff.mpr ?_
    exact List.mem_cons_of_mem _ mem

theorem InOrder.drives {first last : Weave σ} {step : Step σ} {wait : Wait σ}
    (ordered : first.InOrder job) (drives : first.Drives step wait last) :
    OneByOne job last.run.draft last.active last.run.held := by
  have same := drives.sameTree
  have one := ordered.one.perm drives.active
  rwa [← show last.run.draft = first.run.draft from same.draft,
    ← show last.run.held = first.run.held from same.held] at one

/-- Every move keeps the steps in order. -/
theorem Move.inOrder {first last : Weave σ} {sight : Sight σ} (move : Move job first sight last)
    (allowed : seen sight) (ordered : first.InOrder job) : last.InOrder job := by
  have leads := move.leads allowed ordered.settled
  refine ⟨leads.2, move.counted ordered.counted, ?_⟩
  cases move with
  | advance picked advanced =>
      rw [draft_place, held_place]
      obtain ⟨more, left, one⟩ := OneByOne.advance ordered picked advanced leads
      exact one.perm (active_advanced left).symm
  | @release step held idle top none_parked =>
      have nobody : first.asleep.length + first.called.length = 0 :=
        ordered.counted.symm.trans none_parked
      have none_asleep : first.asleep = [] := List.length_eq_zero_iff.mp (by omega)
      have none_called : first.called = [] := List.length_eq_zero_iff.mp (by omega)
      have one := ordered.one
      unfold active at one ⊢
      rw [idle, none_asleep, none_called, top] at one
      simp only [none_asleep, none_called]
      exact one.release
  | wait picked polled => exact ordered.drives (.waits picked polled)
  | answer picked polled => exact ordered.drives (.answers picked polled)
  | @resume step next resumption others picked resumes =>
      have stays : step.Stays job next := Step.resume_stays resumes
      have now : first.active.Perm
          (step :: (first.run.ready ++ (first.asleep.map (·.1) ++ others.map (·.1)))) := by
        unfold active
        refine (((picked.map _).append_left _).append_left _).trans ?_
        exact (List.perm_middle.append_left _).trans List.perm_middle
      have then_ : ([next] ++ (first.run.ready ++ (first.asleep.map (·.1) ++ others.map (·.1)))).Perm
          ((first.run.ready ++ [next]) ++ (first.asleep.map (·.1) ++ others.map (·.1))) := by
        rw [List.append_assoc, List.singleton_append, List.singleton_append]
        exact List.perm_middle.symm
      have one := ordered.one.perm now
      by_cases here : step.spot = .node Draft.root
      · obtain ⟨only, none_held⟩ := one.alone step List.mem_cons_self here
        injection only with _ none_other
        refine OneByOne.perm ?_ then_
        rw [none_other, none_held] at one
        rw [none_other, show first.run.held = [] from none_held]
        exact one.pass_root (stays.serial (one.serial step List.mem_cons_self))
      · refine (one.follow here (fun other mem => ?_) (fun _ _ => rfl) rfl).perm then_
        rw [List.mem_singleton.mp mem]
        refine ⟨?_, stays.serial (one.serial step List.mem_cons_self), stays.spot ▸ here⟩
        unfold Step.firstKey?
        rw [stays.spot]
  | change world => exact ordered.one

theorem Path.inOrder {first last : Weave σ} (path : Path job seen first last)
    (ordered : first.InOrder job) : last.InOrder job := by
  induction path with
  | refl => exact ordered
  | step _ allowed move ih => exact move.inOrder allowed ih

/-- The run of a mutation is in order when it has not been begun. -/
theorem inOrder_start {type : ObjectType σ} {world : World σ} (mutation : job.isMutation = true) :
    (start job type world).InOrder job := by
  obtain ⟨subject, -, plan_eq⟩ := plan_start job type world
  have draft : (start job type world).run.draft = .new job.root := congrArg Plan.draft plan_eq
  have active : ∃ subject, (start job type world).active = [.object (.root job type subject)] ∧
      (start job type world).run.held = [] ∧ (start job type world).run.parked = 0 := by
    unfold start Run.start active
    cases job.root <;> exact ⟨_, rfl, rfl, rfl⟩
  obtain ⟨subject, only, none_held, none_parked⟩ := active
  refine ⟨settled_start job type world, none_parked, ?_⟩
  rw [only, none_held, draft]
  have is_root : ∀ step ∈ [Step.object (.root job type subject)],
      step = .object (.root job type subject) := fun step mem => List.mem_singleton.mp mem
  refine ⟨?_, ?_, ?_, fun _ _ _ mem => absurd mem List.not_mem_nil, .nil,
    fun _ mem => absurd mem List.not_mem_nil, List.nodup_nil⟩
  · intro step mem
    rw [is_root step mem]
    exact ⟨fun _ => rfl, fun _ => mutation⟩
  · intro step mem _
    rw [is_root step mem]
    exact ⟨rfl, rfl⟩
  · intro step mem other mem'
    rw [is_root step mem, is_root other mem']

/-! ### Ways that have been left behind -/

/-- No step is before those on a way: each is on that way or behind it. -/
structure Passed (weave : Weave σ) (way : Option PathSegment) : Prop where
  elsewhere : ∀ step ∈ weave.active ++ weave.run.held, step.spot ≠ .node Draft.root
  behind : ∀ step ∈ weave.active ++ weave.run.held, step.firstKey? weave.run.draft = way ∨
    ∃ key key', way = some (.field key) ∧ step.firstKey? weave.run.draft = some (.field key') ∧
      [key, key'].Sublist (weave.run.draft.keys Draft.root)

/-- When a step is under way, no other step is before it. -/
theorem InOrder.passed {weave : Weave σ} (ordered : weave.InOrder job) {step : Step σ}
    (mem : step ∈ weave.active) (elsewhere : step.spot ≠ .node Draft.root) :
    weave.Passed (step.firstKey? weave.run.draft) := by
  have one := ordered.one
  refine ⟨fun other mem' here => ?_, fun other mem' => ?_⟩
  · rcases List.mem_append.mp mem' with mem' | mem'
    · have only := (one.alone other mem' here).1 ▸ mem
      exact elsewhere (List.mem_singleton.mp only ▸ here)
    · exact OneByOne.field_elsewhere (one.fields other mem') here
  · rcases List.mem_append.mp mem' with mem' | mem'
    · exact .inl (one.together other mem' step mem)
    · exact .inr (one.ahead step mem other mem')

/-- The steps that a move leaves are on ways that there were. -/
theorem Passed.of_ways {first last : Weave σ} {way : Option PathSegment} (passed : first.Passed way)
    (ways : ∀ step ∈ last.active ++ last.run.held, step.spot ≠ .node Draft.root ∧
      ∃ other ∈ first.active ++ first.run.held,
        step.firstKey? last.run.draft = other.firstKey? first.run.draft)
    (keys : last.run.draft.keys Draft.root = first.run.draft.keys Draft.root) :
    last.Passed way := by
  refine ⟨fun step mem => (ways step mem).1, fun step mem => ?_⟩
  obtain ⟨-, other, among, same⟩ := ways step mem
  rw [same, keys]
  exact passed.behind other among

/-- The steps that a move leaves which only wakes or calls steps are where there were some. -/
theorem Passed.of_spots {first last : Weave σ} {way : Option PathSegment}
    (passed : first.Passed way) (draft : last.run.draft = first.run.draft)
    (spots : ∀ step ∈ last.active ++ last.run.held,
      ∃ other ∈ first.active ++ first.run.held, step.spot = other.spot) : last.Passed way := by
  refine passed.of_ways (fun step mem => ?_) (by rw [draft])
  obtain ⟨other, among, same⟩ := spots step mem
  refine ⟨same ▸ passed.elsewhere other among, other, among, ?_⟩
  unfold Step.firstKey?
  rw [same, draft]

theorem Passed.drives {first last : Weave σ} {way : Option PathSegment} {step : Step σ}
    {wait : Wait σ} (passed : first.Passed way) (drives : first.Drives step wait last) :
    last.Passed way := by
  refine passed.of_spots drives.sameTree.draft fun other mem => ⟨other, ?_, rfl⟩
  rw [show last.run.held = first.run.held from drives.sameTree.held] at mem
  exact (drives.active.append_right _).mem_iff.mpr mem

/-- No move leads back to a way that has been left behind. -/
theorem Move.passed {first last : Weave σ} {sight : Sight σ} {way : Option PathSegment}
    (move : Move job first sight last) (allowed : seen sight) (ordered : first.InOrder job)
    (passed : first.Passed way) : last.Passed way := by
  have leads := move.leads allowed ordered.settled
  cases move with
  | @advance step ready progress s picked advanced =>
      obtain ⟨mem, -⟩ := ordered.picked_mem picked
      obtain ⟨more, onward⟩ := ordered.onward picked advanced leads (passed.elsewhere step mem)
      refine passed.of_ways (fun other mem' => ?_) ((congrArg (·.keys Draft.root)
        (draft_place _ progress)).trans onward.keys)
      rw [draft_place]
      rw [held_place] at mem'
      have stays : other ∈ first.active ++ first.run.held → other.spot ≠ .node Draft.root ∧
          ∃ old ∈ first.active ++ first.run.held,
            other.firstKey? s.run.draft = old.firstKey? first.run.draft :=
        fun among => ⟨passed.elsewhere other among, other, among, onward.kept other among⟩
      rcases List.mem_append.mp mem' with mem' | mem'
      · rcases List.mem_append.mp ((active_advanced onward.ready).mem_iff.mp mem') with mem' | mem'
        · obtain ⟨same, -, there⟩ := onward.way other mem'
          exact ⟨there, step, mem, same⟩
        · exact stays (List.mem_append_left _
            ((active_picked picked).mem_iff.mpr (List.mem_cons_of_mem _ mem')))
      · exact stays (List.mem_append_right _ (onward.held ▸ mem'))
  | @release step held idle top none_parked =>
      refine passed.of_spots rfl fun other mem => ⟨other, ?_, rfl⟩
      unfold active at mem ⊢
      rw [idle, top]
      simp only [List.mem_append, List.mem_cons, List.not_mem_nil] at mem ⊢
      tauto
  | wait picked polled => exact passed.drives (.waits picked polled)
  | answer picked polled => exact passed.drives (.answers picked polled)
  | @resume step next resumption others picked resumes =>
      have stays : step.Stays job next := Step.resume_stays resumes
      have called : (first.called.map (·.1)).Perm (step :: others.map (·.1)) := picked.map _
      have among : step ∈ first.active ++ first.run.held := by
        unfold active
        simp only [List.mem_append, called.mem_iff, List.mem_cons]
        tauto
      refine passed.of_spots rfl fun other mem => ?_
      by_cases new : other = next
      · exact ⟨step, among, new ▸ stays.spot⟩
      · refine ⟨other, ?_, rfl⟩
        unfold active at mem ⊢
        simp only [List.mem_append, List.mem_singleton] at mem
        simp only [List.mem_append, called.mem_iff, List.mem_cons]
        tauto
  | change world => exact ⟨passed.elsewhere, passed.behind⟩

theorem Path.passed {first last : Weave σ} {way : Option PathSegment}
    (path : Path job seen first last) (ordered : first.InOrder job) (passed : first.Passed way) :
    last.Passed way := by
  induction path with
  | refl => exact passed
  | step path allowed move ih => exact move.passed allowed (path.inOrder ordered) ih

/-! ### Fields that are dropped -/

/-- The root is dead, and of a root field there is at most the step that has not been begun. -/
structure Mutes (weave : Weave σ) (key : String) (field : Step σ) : Prop where
  dead : weave.run.draft.isDead Draft.root = true
  only : ∀ step ∈ weave.run.ready ++ weave.run.held,
    step.firstKey? weave.run.draft = some (.field key) → step = field
  apart : ∀ step ∈ weave.parkedSteps, step.firstKey? weave.run.draft ≠ some (.field key)

/-- A field that is held back when the root is dead has not been begun. -/
theorem InOrder.mutes {weave : Weave σ} (ordered : weave.InOrder job)
    (dead : weave.run.draft.isDead Draft.root = true) {field : Step σ}
    (held : field ∈ weave.run.held) {key : String}
    (here : field.firstKey? weave.run.draft = some (.field key)) : weave.Mutes key field := by
  have one := ordered.one
  have ahead : ∀ step ∈ weave.active, step.firstKey? weave.run.draft ≠ some (.field key) :=
    fun step mem => here ▸ (one.ahead step mem field held).differs one.distinct
  refine ⟨dead, fun step mem same => ?_, fun step mem => ahead step (List.mem_append_right _ mem)⟩
  rcases List.mem_append.mp mem with mem | mem
  · exact absurd same (ahead step (List.mem_append_left _ mem))
  · by_contra differs
    have apart : weave.run.held.Pairwise fun a b =>
        a.firstKey? weave.run.draft ≠ b.firstKey? weave.run.draft :=
      one.order.imp fun before => before.differs one.distinct
    have : Std.Symm fun a b : Step σ =>
        a.firstKey? weave.run.draft ≠ b.firstKey? weave.run.draft := ⟨fun _ _ => Ne.symm⟩
    exact apart.forall mem held differs (same.trans here.symm)

theorem Mutes.drives {first last : Weave σ} {key : String} {field step : Step σ} {wait : Wait σ}
    (mutes : first.Mutes key field) (drives : first.Drives step wait last) :
    last.Mutes key field := by
  obtain ⟨dead, only, apart⟩ := mutes
  have same := drives.sameTree
  rw [← show last.run.draft = first.run.draft from same.draft] at dead only apart
  rw [← show last.run.ready = first.run.ready from same.ready,
    ← show last.run.held = first.run.held from same.held] at only
  exact ⟨dead, only, fun other mem => apart other (drives.parkedSteps.mem_iff.mpr mem)⟩

/-- Nothing is ever begun for such a field. -/
theorem Move.mutes {first last : Weave σ} {sight : Sight σ} {key : String} {site : FieldSite σ}
    (move : Move job first sight last) (allowed : seen sight) (ordered : first.InOrder job)
    (mutes : first.Mutes key (.field (.new job.schema Draft.root key site))) :
    last.Mutes key (.field (.new job.schema Draft.root key site)) := by
  have leads := move.leads allowed ordered.settled
  cases move with
  | @advance step ready progress s picked advanced =>
      have ready_mem : ∀ other ∈ step :: ready, other ∈ first.run.ready :=
        fun other mem => picked.mem_iff.mpr mem
      by_cases here : step.firstKey? first.run.draft = some (.field key)
      · -- The field itself is dropped.
        obtain rfl := mutes.only step
          (List.mem_append_left _ (ready_mem step List.mem_cons_self)) here
        obtain ⟨rfl, rfl⟩ := advanced.unique (FieldStep.advance_dead _ job mutes.dead)
        refine ⟨mutes.dead, fun other mem => mutes.only other ?_, mutes.apart⟩
        rcases List.mem_append.mp mem with mem | mem
        · exact List.mem_append_left _ (ready_mem other (List.mem_cons_of_mem _ mem))
        · exact List.mem_append_right _ mem
      · obtain ⟨-, orderly⟩ := ordered.picked_mem picked
        have elsewhere : step.spot ≠ .node Draft.root := by
          intro here
          have lives := orderly.anchored.root_alive orderly.tidy List.mem_cons_self here
          exact absurd (lives.symm.trans mutes.dead) nofun
        obtain ⟨more, onward⟩ := ordered.onward picked advanced leads elsewhere
        have aside : ∀ next ∈ progress.next?.toList ++ more,
            next.firstKey? s.run.draft ≠ some (.field key) :=
          fun next mem => (onward.way next mem).1 ▸ here
        have dead : s.run.draft.isDead Draft.root = true := by
          obtain ⟨node, top, -⟩ := ordered.settled.tidy.wf.rooted.root
          have dead := leads.1.stays_dead (Array.getElem?_eq_some_iff.mp top).1 mutes.dead
          rwa [plan, draft_place] at dead
        have only : ∀ other ∈ s.run.ready ++ s.run.held,
            other.firstKey? s.run.draft = some (.field key) →
              other = .field (.new job.schema Draft.root key site) := by
          intro other mem same
          rw [onward.ready, onward.held] at mem
          rcases List.mem_append.mp mem with mem | mem
          · rcases List.mem_append.mp mem with mem | mem
            · have mem := ready_mem other (List.mem_cons_of_mem _ mem)
              rw [onward.kept other (List.mem_append_left _ (List.mem_append_left _ mem))] at same
              exact mutes.only other (List.mem_append_left _ mem) same
            · exact absurd same (aside other (List.mem_append_right _ mem))
          · rw [onward.kept other (List.mem_append_right _ mem)] at same
            exact mutes.only other (List.mem_append_right _ mem) same
        have apart : ∀ other ∈ first.parkedSteps,
            other.firstKey? s.run.draft ≠ some (.field key) := by
          intro other mem
          rw [onward.kept other (List.mem_append_left _ (List.mem_append_right _ mem))]
          exact mutes.apart other mem
        cases progress with
        | again next =>
            refine ⟨dead, fun other mem same => ?_, apart⟩
            rcases List.mem_cons.mp mem with rfl | mem
            · exact absurd same (aside other (by simp [Progress.next?]))
            · exact only other mem same
        | finished => exact ⟨dead, only, apart⟩
        | parked next depth wait =>
            refine ⟨dead, only, fun other mem => ?_⟩
            rcases List.mem_cons.mp mem with rfl | mem
            · exact aside other (by simp [Progress.next?])
            · exact apart other mem
  | @release step held idle top none_parked =>
      refine ⟨mutes.dead, fun other mem => mutes.only other ?_, mutes.apart⟩
      rw [idle, top]
      exact mem
  | wait picked polled => exact mutes.drives (.waits picked polled)
  | answer picked polled => exact mutes.drives (.answers picked polled)
  | @resume step next resumption others picked resumes =>
      have stays : step.Stays job next := Step.resume_stays resumes
      have steps : first.parkedSteps.Perm (step :: (first.asleep.map (·.1) ++ others.map (·.1))) :=
        ((picked.map (·.1)).append_left _).trans List.perm_middle
      refine ⟨mutes.dead, fun other mem same => ?_, fun other mem =>
        mutes.apart other (steps.mem_iff.mpr (List.mem_cons_of_mem _ mem))⟩
      rcases List.mem_append.mp mem with mem | mem
      · rcases List.mem_append.mp mem with mem | mem
        · exact mutes.only other (List.mem_append_left _ mem) same
        · rw [List.mem_singleton.mp mem] at same
          have way : next.firstKey? first.run.draft = step.firstKey? first.run.draft := by
            unfold Step.firstKey?
            rw [stays.spot]
          exact absurd (way.symm.trans same)
            (mutes.apart step (steps.mem_iff.mpr List.mem_cons_self))
      · exact mutes.only other (List.mem_append_right _ mem) same
  | change world => exact ⟨mutes.dead, mutes.only, mutes.apart⟩

theorem Path.mutes {first last : Weave σ} {key : String} {site : FieldSite σ}
    (path : Path job seen first last) (ordered : first.InOrder job)
    (mutes : first.Mutes key (.field (.new job.schema Draft.root key site))) :
    last.Mutes key (.field (.new job.schema Draft.root key site)) := by
  induction path with
  | refl => exact mutes
  | step path allowed move ih => exact move.mutes allowed (path.inOrder ordered) ih

end Weave

end GraphExec
