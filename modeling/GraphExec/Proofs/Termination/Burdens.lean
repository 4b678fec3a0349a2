import GraphExec.Proofs.Run.Futures
import GraphExec.Proofs.Termination.Duties
import Mathlib.Data.Multiset.ZeroCons
import Mathlib.Logic.Hydra

/-!
# The burden of a run

What is still to be done in a run are its tasks and the bags of arguments that are not there. Each
move of the run takes one of these duties and puts in its place some that follow it. Duties that are
done in the end are replaced finitely often in this way, however many come in place of one.
-/

namespace GraphExec

variable {σ : Type}

/-! ### Burdens -/

/-- One duty comes before another in a burden that gets lighter: it follows the other, which is done
in the end. -/
def Duty.Before (next duty : Duty σ) : Prop :=
  next.Follows duty ∧ duty.Ends

theorem Duty.before_wellFounded : WellFounded (Before (σ := σ)) := by
  refine ⟨fun duty => ⟨_, fun next before => ?_⟩⟩
  have ends : next.Ends := before.2.inv before.1
  clear before
  induction ends with
  | intro next _ ih => exact ⟨_, fun last before => ih last before.1⟩

/-- All that is still to be done. -/
abbrev Burden (σ : Type) := Multiset (Duty σ)

namespace Burden

variable {lighter heavier first second third rest : Burden σ}

/-- Duties have been done, and others that follow them have come in their place. -/
def Lighter : Burden σ → Burden σ → Prop :=
  Relation.TransGen (Relation.CutExpand Duty.Before)

theorem lighter_wellFounded : WellFounded (Lighter (σ := σ)) :=
  Duty.before_wellFounded.cutExpand.transGen

theorem Lighter.trans (one : first.Lighter second) (two : second.Lighter third) :
    first.Lighter third :=
  Relation.TransGen.trans one two

/-- A duty is done, and all that comes in its place follows it. -/
theorem lighter_of_done {duty : Duty σ} {fresh : Burden σ} (rest : Burden σ)
    (before : ∀ next ∈ fresh, next.Before duty) : (fresh + rest).Lighter (duty ::ₘ rest) := by
  rw [← Multiset.singleton_add]
  exact .single ((Relation.cutExpand_add_right rest).mpr (Relation.cutExpand_singleton before))

theorem Lighter.add_right (lighter : first.Lighter second) (rest : Burden σ) :
    (first + rest).Lighter (second + rest) :=
  lighter.lift (· + rest) fun _ _ cut => (Relation.cutExpand_add_right rest).mpr cut

theorem Lighter.add_left (lighter : first.Lighter second) (rest : Burden σ) :
    (rest + first).Lighter (rest + second) :=
  lighter.lift (rest + ·) fun _ _ cut => (Relation.cutExpand_add_left rest).mpr cut

end Burden

/-- No step goes on, and nothing is polled. -/
def Sight.Still : Sight σ → Prop
  | woken => True
  | changed _ => True
  | _ => False

/-! ### What a run owes -/

/-- The duty that a bag of arguments is, unless it is there. -/
def SharedArguments.duty? : SharedArguments σ → Option (Duty σ)
  | .ready _ => none
  | .pending rest => some (.bag rest)

/-- The bags of a store that are not there. -/
def ArgumentStore.duties (store : ArgumentStore σ) : Burden σ :=
  (store.filterMap fun entry => entry.2.duty? : List (Duty σ))

/-- A duty stands for a task of a run that has come to some store of bags. -/
def Duty.Stands (job : Job σ) (store : ArgumentStore σ) (duty : Duty σ) (task : Task σ) : Prop :=
  duty.Ends ∧ ∃ since, duty = .task job since task ∧ since.Becomes store

/-- What is owed to a run of a job: its tasks, and the bags that are not there. -/
def Weave.Owes (weave : Weave σ) (job : Job σ) (burden : Burden σ) : Prop :=
  ∃ duties : Burden σ,
    Multiset.Rel (Duty.Stands job weave.run.arguments) duties (weave.tasks : Multiset (Task σ)) ∧
      burden = duties + weave.run.arguments.duties

variable {job : Job σ}

theorem Duty.Stands.becomes {duty : Duty σ} {task : Task σ} {store after : ArgumentStore σ}
    (stands : duty.Stands job store task) (becomes : store.Becomes after) :
    duty.Stands job after task := by
  obtain ⟨ends, since, same, kept⟩ := stands
  exact ⟨ends, since, same, kept.trans becomes⟩

namespace ArgumentStore

variable {store : ArgumentStore σ} {key : ArgumentKey}

/-- What is owed of a store is owed of one bag and of the others. -/
theorem duties_insert {bag : SharedArguments σ} (there : store.get? key = some bag) :
    ∃ others : Burden σ, ∀ other, (store.insert key other).duties =
      (other.duty?.toList : Burden σ) + others ∧
        store.duties = (bag.duty?.toList : Burden σ) + others := by
  obtain ⟨front, back, here, put⟩ := split_of_get? there
  have split (other : SharedArguments σ) : ArgumentStore.duties (front ++ (key, other) :: back) =
      (other.duty?.toList : Burden σ) + ArgumentStore.duties (front ++ back) := by
    unfold ArgumentStore.duties
    rw [List.filterMap_append, List.filterMap_append, List.filterMap_cons]
    cases other.duty? with
    | none => exact (zero_add _).symm
    | some duty => exact Multiset.coe_eq_coe.mpr List.perm_middle
  exact ⟨_, fun other => ⟨put other ▸ split other, (congrArg _ here).trans (split bag)⟩⟩

/-- What is owed of a store that has grown. -/
theorem Grows.duties {after : ArgumentStore σ} (grows : store.Grows after) :
    ∃ started : Burden σ, after.duties = started + store.duties ∧
      ∀ duty ∈ started, ∃ rest, duty = .bag rest := by
  obtain ⟨⟨more, rfl, -⟩, -⟩ := grows
  refine ⟨ArgumentStore.duties more, ?_, fun duty mem => ?_⟩
  · unfold ArgumentStore.duties
    rw [List.filterMap_append, ← Multiset.coe_add, add_comm]
  · obtain ⟨entry, -, here⟩ := List.mem_filterMap.mp (Multiset.mem_coe.mp mem)
    cases bag : entry.2 with
    | ready result => rw [bag] at here; cases here
    | pending rest => rw [bag] at here; exact ⟨rest, (Option.some.inj here).symm⟩

end ArgumentStore

namespace Weave

variable {weave last : Weave σ} {burden : Burden σ}

/-- The duty that stands for a task is part of what is owed. -/
theorem Owes.split (owes : weave.Owes job burden) {task : Task σ} {kept : List (Task σ)}
    (perm : weave.tasks.Perm (task :: kept)) : ∃ (duty : Duty σ) (others : Burden σ),
      duty.Stands job weave.run.arguments task ∧
      Multiset.Rel (Duty.Stands job weave.run.arguments) others (kept : Multiset (Task σ)) ∧
      burden = duty ::ₘ (others + weave.run.arguments.duties) := by
  obtain ⟨duties, stand, rfl⟩ := owes
  rw [Multiset.coe_eq_coe.mpr perm, ← Multiset.cons_coe, Multiset.rel_cons_right] at stand
  obtain ⟨duty, others, stands, stand, rfl⟩ := stand
  exact ⟨duty, others, stands, stand, Multiset.cons_add _ _ _⟩

/-- Some tasks are left, and others have come. -/
theorem owes_of {since store : ArgumentStore σ} {fresh kept : List (Task σ)} {others : Burden σ}
    (here : last.run.arguments = store) (perm : last.tasks.Perm (fresh ++ kept))
    (becomes : since.Becomes store) (ends : ∀ task ∈ fresh, (Duty.task job store task).Ends)
    (stand : Multiset.Rel (Duty.Stands job since) others (kept : Multiset (Task σ))) :
    last.Owes job
      ((fresh.map (.task job store) : List (Duty σ)) + others + store.duties) := by
  refine ⟨_, ?_, by rw [here]⟩
  rw [here, Multiset.coe_eq_coe.mpr perm, ← Multiset.coe_add]
  refine .add ?_ (stand.mono fun _ _ _ _ stands => stands.becomes becomes)
  rw [← Multiset.map_coe, Multiset.rel_map_left]
  exact Multiset.rel_refl_of_refl_on fun task mem => ⟨ends task mem, _, rfl, .refl _⟩

/-- Whatever is done in some order is owed as well, and so it is in another world. -/
theorem Owes.of_perm (owes : weave.Owes job burden) (perm : weave.tasks.Perm last.tasks)
    (same : last.run.arguments = weave.run.arguments) : last.Owes job burden := by
  obtain ⟨duties, stand, rfl⟩ := owes
  refine ⟨duties, ?_, by rw [same]⟩
  rw [same, ← Multiset.coe_eq_coe.mpr perm]
  exact stand

/-- The burden gets lighter when a ready step goes on. -/
theorem Owes.advance (owes : weave.Owes job burden) {step : Step σ} {ready : List (Step σ)}
    {progress : Progress σ} {s : Stage σ} (picked : weave.run.ready.Perm (step :: ready))
    (advanced : (step.advance job).Gives ⟨{ weave.run with ready }, weave.world⟩ progress s) :
    ∃ after : Burden σ, (place { weave with run := s.run, world := s.world } progress).Owes job
      after ∧ after.Lighter burden := by
  obtain ⟨duty, others, ⟨ends, since, rfl, kept⟩, stand, rfl⟩ := owes.split (tasks_picked picked)
  obtain ⟨steps, added, begets⟩ := Step.advance_begets advanced
  obtain ⟨cs, consults⟩ := Step.advance_consults advanced
  have becomes : weave.run.arguments.Becomes s.run.arguments := consults.consulted.becomes
  have grows : weave.run.arguments.Grows s.run.arguments :=
    step.keeps_advance (R := fun s t => s.run.arguments.Grows t.run.arguments) _ _ _ advanced
  have follows : ∀ task ∈ progress.tasks steps,
      (Duty.task job s.run.arguments task).Follows (.task job since (.awake step)) := by
    intro task mem
    rcases List.mem_append.mp mem with mem | mem
    · cases progress with
      | again next => obtain rfl := List.mem_singleton.mp mem; exact .again kept advanced
      | finished => cases mem
      | parked next depth wait => obtain rfl := List.mem_singleton.mp mem; exact .park kept advanced
    · obtain ⟨new, among, rfl⟩ := List.mem_map.mp mem
      exact .beget (begets new among)
  obtain ⟨started, bags, are_bags⟩ := grows.duties
  let fresh : Burden σ := ((progress.tasks steps).map (.task job s.run.arguments) : List (Duty σ))
  refine ⟨fresh + others + s.run.arguments.duties, ?_, ?_⟩
  · exact owes_of (arguments_place _ progress) (tasks_place added progress) becomes
      (fun task mem => ends.inv (follows task mem)) stand
  have before : ∀ next ∈ fresh + started, next.Before (.task job since (.awake step)) := by
    intro next mem
    refine ⟨?_, ends⟩
    rcases Multiset.mem_add.mp mem with mem | mem
    · obtain ⟨task, among, rfl⟩ := List.mem_map.mp (Multiset.mem_coe.mp mem)
      exact follows task among
    · obtain ⟨rest, rfl⟩ := are_bags next mem
      exact .start rest
  have lighter := Burden.lighter_of_done (others + weave.run.arguments.duties) before
  have order : fresh + others + s.run.arguments.duties =
      fresh + started + (others + weave.run.arguments.duties) := by
    rw [bags, add_assoc, add_assoc, add_left_comm others]
  exact order ▸ lighter

/-- A held step that is released is still to be done, and nothing else. -/
theorem Owes.release (owes : weave.Owes job burden) {step : Step σ} {held : List (Step σ)}
    (idle : weave.run.ready = []) (first : weave.run.held = step :: held) (world : World σ) :
    Owes { weave with run := { weave.run with ready := [step], held }, world } job burden :=
  owes.of_perm (.of_eq (tasks_release idle first world).symm) rfl

end Weave

/-! ### Polls -/

namespace Wait

/-- Whoever is answered by a poll could have been foreseen to be. -/
theorem brings_poll {wait : Wait σ} {s t : Stage σ} {resumption : Resumption σ}
    (polled : wait.poll s = (.ready resumption, t)) : wait.Brings t.run.arguments resumption := by
  have by_kind {α : Type} (rest : Pending σ α) (answer : α → Resumption σ)
      (wait : Pending σ α → Wait σ) (polled : pollBy rest answer wait s = (.ready resumption, t)) :
      ∃ result fed, resumption = answer result ∧ rest.lazy.Feeds fed (.done result) := by
    have feeds := rest.feeds_poll s.world
    unfold pollBy at polled
    split at polled
    · rename_i result world answered
      rw [show rest.poll s.world = _ from answered] at feeds
      injection polled with same
      injection same with same
      exact ⟨result, _, same.symm, feeds⟩
    · cases polled
  cases wait with
  | value rest =>
      obtain ⟨result, fed, rfl, feeds⟩ := by_kind rest .value .value polled
      exact ⟨fed, feeds⟩
  | type rest =>
      obtain ⟨result, fed, rfl, feeds⟩ := by_kind rest .type .type polled
      exact ⟨fed, feeds⟩
  | authorization rest =>
      obtain ⟨result, fed, rfl, feeds⟩ := by_kind rest .authorization .authorization polled
      exact ⟨fed, feeds⟩
  | directive rest =>
      obtain ⟨result, fed, rfl, feeds⟩ := by_kind rest .directive .directive polled
      exact ⟨fed, feeds⟩
  | arguments key =>
      obtain ⟨bag, result, rfl, there, came, put⟩ := poll_answered polled
      show t.run.arguments.get? key = some (.ready result)
      rw [put, came, ArgumentStore.get?_insert, if_pos rfl]

/-- A poll gets on with a wait: it is answered, or comes nearer to its end, or the bag does that is
waited for. -/
inductive GetsOn (s t : Stage σ) : Wait σ → Polled (Resumption σ) (Wait σ) → Prop
  | answered {wait : Wait σ} {resumption : Resumption σ} : GetsOn s t wait (.ready resumption)
  | own {wait rest : Wait σ} (same : t.run.arguments = s.run.arguments) (later : rest.Later wait) :
    GetsOn s t wait (.pending rest)
  | bag {key : ArgumentKey} {before after : Pending σ ArgumentsResult}
      (there : s.run.arguments.get? key = some (.pending before))
      (put : t.run.arguments = s.run.arguments.insert key (.pending after))
      (later : after.Later before) : GetsOn s t (.arguments key) (.pending (.arguments key))

end Wait

namespace ArgumentStore

variable {store : ArgumentStore σ} {key : ArgumentKey}

/-- A bag that is there is not owed any more. -/
theorem duties_ready {bag : SharedArguments σ} (there : store.get? key = some bag)
    (result : ArgumentsResult) : (store.insert key (.ready result)).duties = store.duties ∨
      (store.insert key (.ready result)).duties.Lighter store.duties := by
  obtain ⟨others, insert⟩ := duties_insert there
  obtain ⟨after, before⟩ := insert (.ready result)
  cases bag with
  | ready old => exact .inl (after.trans before.symm)
  | pending rest =>
      refine .inr ?_
      rw [after, before]
      exact Burden.lighter_of_done others fun next mem => absurd mem (Multiset.notMem_zero next)

/-- A bag that comes nearer to its end is owed less. -/
theorem duties_pending {before after : Pending σ ArgumentsResult}
    (there : store.get? key = some (.pending before)) (later : after.Later before) :
    (store.insert key (.pending after)).duties.Lighter store.duties := by
  obtain ⟨others, insert⟩ := duties_insert there
  obtain ⟨now, then_⟩ := insert (.pending after)
  rw [now, then_]
  refine Burden.lighter_of_done others fun next mem => ?_
  obtain rfl : next = .bag after := Multiset.mem_singleton.mp mem
  exact ⟨.poll later, Duty.ends_bag before⟩

end ArgumentStore

namespace Weave

variable {weave last : Weave σ} {burden : Burden σ}

/-- One duty gives way to another, and the bags of the run get on, if anything. -/
theorem Owes.swap (owes : weave.Owes job burden) {task other : Task σ}
    (swaps : Swaps weave last task other)
    (becomes : weave.run.arguments.Becomes last.run.arguments)
    (follows : ∀ since : ArgumentStore σ, since.Becomes weave.run.arguments →
      ∃ now : ArgumentStore σ, now.Becomes last.run.arguments ∧
        (Duty.task job now other).Follows (.task job since task))
    (bags : last.run.arguments.duties = weave.run.arguments.duties ∨
      last.run.arguments.duties.Lighter weave.run.arguments.duties) :
    ∃ after : Burden σ, last.Owes job after ∧ after.Lighter burden := by
  obtain ⟨kept, before, after⟩ := swaps
  obtain ⟨duty, duties, ⟨ends, since, rfl, since_kept⟩, stand, rfl⟩ := owes.split before
  obtain ⟨now, now_kept, next_follows⟩ := follows since since_kept
  let next : Duty σ := .task job now other
  refine ⟨{next} + duties + last.run.arguments.duties, ⟨{next} + duties, ?_, rfl⟩, ?_⟩
  · rw [Multiset.coe_eq_coe.mpr after, ← Multiset.cons_coe, Multiset.singleton_add]
    exact .cons ⟨ends.inv next_follows, now, rfl, now_kept⟩
      (stand.mono fun _ _ _ _ stands => stands.becomes becomes)
  · have before : ∀ duty ∈ ({next} : Burden σ), duty.Before (.task job since task) := by
      intro duty mem
      rw [Multiset.mem_singleton.mp mem]
      exact ⟨next_follows, ends⟩
    have lighter := Burden.lighter_of_done (duties + weave.run.arguments.duties) before
    rw [← add_assoc] at lighter
    rcases bags with same | less
    · rwa [same]
    · exact (less.add_left _).trans lighter

/-- The burden gets lighter when a step is resumed. -/
theorem Owes.resume (owes : weave.Owes job burden) {step next : Step σ} {resumption : Resumption σ}
    {others : List (Step σ × Resumption σ)}
    (picked : weave.called.Perm ((step, resumption) :: others))
    (resumes : step.resume resumption = .ok next) :
    ∃ after : Burden σ, Owes { weave with
      run := { weave.run with
        parked := weave.run.parked - 1
        ready := weave.run.ready ++ [next] }
      called := others } job after ∧ after.Lighter burden :=
  owes.swap (swaps_resume picked) (.refl _)
    (fun since kept => ⟨since, kept, .resume resumes⟩) (.inl rfl)

/-- The burden gets lighter when a poll gets on with what a step waits for. -/
theorem Owes.poll (owes : weave.Owes job burden) {wait : Wait σ}
    (gets_on : wait.GetsOn weave.stage (wait.poll weave.stage).2 (wait.poll weave.stage).1)
    (move : Move job weave (.polled wait weave.stage) last) :
    ∃ after : Burden σ, last.Owes job after ∧ after.Lighter burden := by
  have becomes := move.becomes
  have tree := wait.sameTree_poll weave.stage
  have polled_bags := wait.poll_bags weave.stage
  cases move with
  | @answer step _ resumption others s picked polled =>
      rw [polled] at tree polled_bags
      refine owes.swap (swaps_answer picked tree) becomes
        (fun since kept => ⟨_, .refl _, .answer (kept.trans becomes) (Wait.brings_poll polled)⟩) ?_
      rcases polled_bags with same | ⟨key, bag, -, there, put, ⟨result, came, -⟩ | ⟨-, waits⟩⟩
      · exact .inl (congrArg _ same)
      · rw [show Run.arguments _ = _ from put, came]
        exact ArgumentStore.duties_ready there result
      · cases waits
  | @wait step _ rest others s picked polled =>
      rw [polled] at tree gets_on
      cases gets_on with
      | own same later =>
          exact owes.swap (swaps_wait picked tree) becomes
            (fun since kept => ⟨since, kept.trans becomes, .wait later⟩) (.inl (congrArg _ same))
      | @bag key before after there put later =>
          obtain ⟨duties, stand, rfl⟩ := owes
          have now : s.run.arguments = _ := put
          have less := ArgumentStore.duties_pending there later
          rw [← now] at less
          refine ⟨_, ⟨duties, ?_, rfl⟩, less.add_left duties⟩
          have swaps : Swaps weave _ (.asleep step (.arguments key)) (.asleep step (.arguments key)) :=
            swaps_wait picked tree
          obtain ⟨kept, first, last⟩ := swaps
          rw [Multiset.coe_eq_coe.mpr (last.trans first.symm)]
          exact stand.mono fun _ _ _ _ stands => stands.becomes becomes

/-- Nothing gets heavier while no step goes on and nothing is polled, and the burden gets lighter
when steps are resumed. -/
theorem Owes.still (owes : weave.Owes job burden) (path : Path job Sight.Still weave last) :
    ∃ after : Burden σ, last.Owes job after ∧
      (after = burden ∧ last.called = weave.called ∨ after.Lighter burden) := by
  induction path with
  | refl => exact ⟨burden, owes, .inl ⟨rfl, rfl⟩⟩
  | @step middle last sight _ still move ih =>
      obtain ⟨between, owed, less⟩ := ih
      cases move with
      | release idle first _ => exact ⟨between, owed.release idle first _, less⟩
      | change world => exact ⟨between, owed.of_perm (.refl _) rfl, less⟩
      | resume picked resumes =>
          obtain ⟨after, owed', lighter⟩ := owed.resume picked resumes
          refine ⟨after, owed', .inr ?_⟩
          rcases less with ⟨rfl, -⟩ | less
          · exact lighter
          · exact lighter.trans less
      | _ => exact still.elim

end Weave

end GraphExec
