import GraphExec.Proofs.Termination.Fetches
import GraphExec.Proofs.Termination.Regular
import Mathlib.Algebra.BigOperators.Group.Finset.Basic
import Mathlib.Algebra.Order.Group.Multiset

/-!
# How schedules come to an end

What is owed to the runs of a schedule, all of them together, gets lighter when a ready step goes
on, when a poll of a step that can go on gets on, and when the steps of a bucket are resumed.
Nothing else makes it heavier. As long as there is a bucket to be taken up, one of these happens
sooner or later: the runs have their turns one after the other, the fetches for the bucket end, and
whenever the steps of the bucket line up, one of them can go on.
-/

namespace GraphExec

variable {σ : Type} {job : Job σ}

/-! ### What is owed to several runs -/

namespace Burden

variable {lighter heavier first second third fourth : Burden σ}

/-- No more is to be done than before. -/
def AtMost (after before : Burden σ) : Prop :=
  after = before ∨ after.Lighter before

theorem AtMost.add (one : first.AtMost second) (two : third.AtMost fourth) :
    (first + third).AtMost (second + fourth) := by
  rcases one with rfl | one
  · rcases two with rfl | two
    · exact .inl rfl
    · exact .inr (two.add_left _)
  · rcases two with rfl | two
    · exact .inr (one.add_right _)
    · exact .inr ((one.add_right _).trans (two.add_left _))

theorem Lighter.add (one : first.Lighter second) (two : third.AtMost fourth) :
    (first + third).Lighter (second + fourth) := by
  rcases two with rfl | two
  · exact one.add_right _
  · exact (one.add_right _).trans (two.add_left _)

/-- Parts of a burden that get no heavier make it no heavier, and lighter if one of them gets
lighter. -/
theorem atMost_sum {after before : Nat → Burden σ} :
    ∀ n, (∀ i < n, (after i).AtMost (before i)) →
      (∑ i ∈ Finset.range n, after i).AtMost (∑ i ∈ Finset.range n, before i) ∧
        ∀ i < n, (after i).Lighter (before i) →
          (∑ i ∈ Finset.range n, after i).Lighter (∑ i ∈ Finset.range n, before i)
  | 0, _ => ⟨.inl rfl, fun _ none => absurd none (Nat.not_lt_zero _)⟩
  | n + 1, each => by
      obtain ⟨most, less⟩ := atMost_sum n fun i bound => each i (Nat.lt_succ_of_lt bound)
      have last := each n (Nat.lt_succ_self n)
      simp only [Finset.sum_range_succ]
      refine ⟨most.add last, fun i bound lighter => ?_⟩
      rcases Nat.lt_succ_iff_lt_or_eq.mp bound with before | rfl
      · exact (less i before lighter).add last
      · rw [add_comm (∑ _ ∈ _, after _), add_comm (∑ _ ∈ _, before _)]
        exact lighter.add most

end Burden

namespace Schedule

variable {schedule next first now : Schedule σ} {burden : Burden σ}

/-- What is owed to the runs of a schedule, all of them together. -/
def Owes (schedule : Schedule σ) (burden : Burden σ) : Prop :=
  ∃ part : Nat → Burden σ, burden = ∑ owner ∈ Finset.range schedule.runs.length, part owner ∧
    ∀ owner job run, schedule.runs[owner]? = some (job, run) →
      ∃ weave, schedule.Shares owner job weave ∧ weave.Owes job (part owner)

/-- What each run does in a transition makes the whole no heavier, and lighter if it does a part. -/
theorem Owes.turn (owes : schedule.Owes burden) (next : Schedule σ)
    (length : next.runs.length = schedule.runs.length) (lightens : Nat → Prop)
    (each : ∀ owner job weave part, schedule.Shares owner job weave → weave.Owes job part →
      ∃ after less, next.Shares owner job after ∧ after.Owes job less ∧ less.AtMost part ∧
        (lightens owner → less.Lighter part)) :
    ∃ less, next.Owes less ∧ less.AtMost burden ∧
      ∀ owner < schedule.runs.length, lightens owner → less.Lighter burden := by
  obtain ⟨part, rfl, parts⟩ := owes
  have split (owner : Nat) : ∃ less : Burden σ, less.AtMost (part owner) ∧
      (owner < schedule.runs.length → lightens owner → less.Lighter (part owner)) ∧
      ∀ job run, next.runs[owner]? = some (job, run) →
        ∃ weave, next.Shares owner job weave ∧ weave.Owes job less := by
    cases found : schedule.runs[owner]? with
    | none =>
        have beyond := List.getElem?_eq_none_iff.mp found
        refine ⟨part owner, .inl rfl, fun bound => absurd bound (Nat.not_lt.mpr beyond), ?_⟩
        intro job run here
        rw [List.getElem?_eq_none_iff.mpr (length ▸ beyond)] at here
        cases here
    | some entry =>
        obtain ⟨job, run⟩ := entry
        obtain ⟨weave, shares, owes⟩ := parts owner job run found
        obtain ⟨after, less, shares', owes', most, lighter⟩ := each owner job weave _ shares owes
        refine ⟨less, most, fun _ => lighter, fun job' run' here => ?_⟩
        obtain ⟨rfl, -⟩ := shares'.same_run here
        exact ⟨after, shares', owes'⟩
  choose less most lighter owed using split
  obtain ⟨all, one⟩ := Burden.atMost_sum schedule.runs.length fun owner _ => most owner
  refine ⟨_, ⟨less, rfl, owed⟩, length ▸ all, fun owner bound lightens => ?_⟩
  rw [length]
  exact one owner bound (lighter owner bound lightens)

/-- What changes nothing but the surroundings of runs leaves the same to be done. -/
theorem Owes.aside (owes : schedule.Owes burden) (length : next.runs.length = schedule.runs.length)
    (shares : ∀ owner job weave, schedule.Shares owner job weave →
      next.Shares owner job { weave with world := next.world }) : next.Owes burden := by
  obtain ⟨part, rfl, parts⟩ := owes
  refine ⟨part, by rw [length], fun owner job run here => ?_⟩
  obtain ⟨bound, -⟩ := List.getElem?_eq_some_iff.mp here
  obtain ⟨⟨job', run'⟩, there⟩ : ∃ entry, schedule.runs[owner]? = some entry :=
    ⟨_, List.getElem?_eq_getElem (length ▸ bound)⟩
  obtain ⟨weave, shares', owes⟩ := parts owner job' run' there
  have after := shares owner job' weave shares'
  obtain ⟨rfl, -⟩ := after.same_run here
  exact ⟨_, after, owes.of_perm (.refl _) rfl⟩

/-- Less is to be done when a ready step goes on. -/
theorem Owes.advance (owes : schedule.Owes burden) {owner : Nat} {run : Run σ} {step : Step σ}
    {ready : List (Step σ)} (phase : schedule.phase = .draining owner)
    (found : schedule.runs[owner]? = some (job, run)) (top : run.ready = step :: ready)
    (turn : schedule.step = .again next) : ∃ less, next.Owes less ∧ less.Lighter burden := by
  have advances := (step_ready phase found top).symm.trans turn
  obtain ⟨less, owed, -, lighter⟩ := owes.turn _ (keeps_step turn).length (· = owner)
    fun other job' weave part shares owes => by
      by_cases own : other = owner
      · subst own
        obtain ⟨rfl, rfl⟩ := shares.same_run found
        obtain ⟨after, move, shares'⟩ := shares.advance phase top advances
        cases move with
        | advance picked advanced =>
            obtain ⟨less, owes', lighter⟩ := owes.advance picked advanced
            exact ⟨_, less, shares', owes', .inr lighter, fun _ => lighter⟩
      · exact ⟨_, part, shares.advance_other (Ne.symm own) advances, owes.of_perm (.refl _) rfl,
          .inl rfl, fun same => absurd same own⟩
  exact ⟨less, owed, lighter owner (List.getElem?_eq_some_iff.mp found).1 rfl⟩

/-- No more is to be done when a run has had its turn, or a held step of it is released. -/
theorem Owes.pass (owes : schedule.Owes burden) {owner : Nat} {run : Run σ}
    (phase : schedule.phase = .draining owner) (found : schedule.runs[owner]? = some (job, run))
    (idle : run.ready = []) (turn : schedule.step = .again next) :
    ∃ less, next.Owes less ∧ less.AtMost burden := by
  obtain ⟨less, owed, most, -⟩ := owes.turn _ (keeps_step turn).length (fun _ => False)
    fun other job' weave part shares owes => by
      have still (sight : Sight σ) (sees : schedule.Sights other job' sight) : sight.Still := by
        cases sight with
        | advanced step s =>
            obtain ⟨run', ready, phase', found', top, -⟩ := sees
            cases phase.symm.trans phase'
            obtain ⟨-, rfl⟩ := Prod.mk.inj (Option.some.inj (found.symm.trans found'))
            rw [idle] at top
            cases top
        | polled wait s =>
            obtain ⟨-, -, -, parked, mem, -⟩ := sees
            rw [phase] at mem
            cases mem
        | changed world => trivial
        | woken => trivial
      obtain ⟨after, path, shares'⟩ := shares.step still turn
      obtain ⟨less, owes', less_or⟩ := owes.still path
      exact ⟨after, less, shares', owes', less_or.imp_left (·.1), False.elim⟩
  exact ⟨less, owed, most⟩

/-- Less is to be done when a poll gets on with what a step of a run waits for. -/
theorem Owes.poll (owes : schedule.Owes burden) {front back : List (Awaited σ)} {parked : ParkedStep σ}
    {line : List Nat} {run : Run σ}
    (phase : schedule.phase = .awaiting (front ++ .waiting parked :: back) line)
    (found : schedule.runs[parked.owner]? = some (job, run))
    (gets_on : parked.wait.GetsOn ⟨run, schedule.world⟩ (parked.wait.poll ⟨run, schedule.world⟩).2
      (parked.wait.poll ⟨run, schedule.world⟩).1) (line' : List Nat) :
    ∃ less, Owes { (schedule.poll parked).2 with
      phase := .awaiting (front ++ (schedule.poll parked).1 :: back) line' } less ∧
        less.Lighter burden := by
  obtain ⟨owner, step, wait⟩ := parked
  obtain ⟨less, owed, -, lighter⟩ := owes.turn
    { (schedule.poll ⟨owner, step, wait⟩).2 with
      phase := .awaiting (front ++ (schedule.poll ⟨owner, step, wait⟩).1 :: back) line' }
    (length_poll schedule ⟨owner, step, wait⟩) (· = owner)
    fun other job' weave part shares owes => by
      by_cases own : other = owner
      · subst own
        obtain ⟨rfl, rfl⟩ := shares.same_run found
        obtain ⟨after, drives, shares'⟩ := shares.poll_own phase
        have here : weave.stage = ⟨weave.run, schedule.world⟩ := by rw [Weave.stage, shares.world]
        obtain ⟨less, owes', lighter⟩ := owes.poll (here ▸ gets_on) drives.move
        exact ⟨after, less, shares', owes', .inr lighter, fun _ => lighter⟩
      · exact ⟨_, part, shares.poll_other (Ne.symm own) phase, owes.of_perm (.refl _) rfl, .inl rfl,
          fun same => absurd same own⟩
  exact ⟨less, owed, lighter owner (List.getElem?_eq_some_iff.mp found).1 rfl⟩

/-- Less is to be done when the steps of a bucket are resumed. -/
theorem Owes.resume (owes : schedule.Owes burden) {bucket : List (Awaited σ)} {line : List Nat}
    (phase : schedule.phase = .awaiting bucket line) (full : schedule.Full)
    {answers : List (Nat × Step σ × Resumption σ)} (found : answers? bucket = some answers)
    (resumes : schedule.resumeAll answers = .again next) :
    ∃ less, next.Owes less ∧ less.Lighter burden := by
  obtain ⟨-, phase', -, length⟩ := resumeAll_eq _ resumes
  obtain ⟨less, owed, -, lighter⟩ := owes.turn _ length (fun owner => schedule.phase.answered owner ≠ [])
    fun owner job weave part shares owes => by
      obtain ⟨after, path, shares'⟩ := shares.resume phase found resumes
      obtain ⟨less, owes', less_or⟩ := owes.still (path.mono fun sight woken => woken ▸ trivial)
      refine ⟨after, less, shares', owes', less_or.imp_left (·.1), fun some_answered => ?_⟩
      refine less_or.resolve_left fun equal => some_answered ?_
      have none_called : after.called = [] := by
        have called := shares'.called
        rw [phase'] at called
        exact called.eq_nil
      have called := shares.called
      rw [← equal.2, none_called] at called
      exact called.symm.eq_nil
  obtain ⟨nonempty, owned⟩ := full.awaiting _ _ phase
  cases bucket with
  | nil => exact absurd rfl nonempty
  | cons entry rest =>
      cases entry with
      | waiting parked => cases found
      | answered owner step resumption =>
          refine ⟨less, owed, lighter owner (owned _ _ _ List.mem_cons_self) ?_⟩
          rw [phase]
          simp [Phase.answered, Awaited.answered?]

/-! ### Ends -/

/-- A schedule comes to an end. -/
def Ends (schedule : Schedule σ) : Prop :=
  ∃ fuel ended, run? fuel schedule = some ended

theorem ends_of_turn (again : ∀ next, schedule.step = .again next → next.Ends) : schedule.Ends := by
  cases turn : schedule.step with
  | again next =>
      obtain ⟨fuel, ended, ran⟩ := again next turn
      exact ⟨fuel + 1, ended, by rw [run?, turn]; exact ran⟩
  | finished last => exact ⟨1, (.ok (), last), by rw [run?, turn]⟩
  | failed error last => exact ⟨1, (.error error, last), by rw [run?, turn]⟩

/-- The step at a place of a bucket waits, and a poll of it would get further. -/
def Able (schedule : Schedule σ) (bucket : List (Awaited σ)) (place : Nat) : Prop :=
  ∃ parked, bucket[place]? = some (.waiting parked) ∧ schedule.canGoOn parked = true

/-- Whoever joins a line can go on. -/
theorem able_of_due {bucket : List (Awaited σ)} {line : List Nat} {polled : ParkedStep σ}
    {place other : Nat} (joins : other ∈ schedule.due bucket line polled place) :
    schedule.Able bucket other := by
  unfold due at joins
  simp only [List.partition_eq_filter_filter] at joins
  obtain ⟨⟨parked, other⟩, mem, rfl⟩ := List.mem_map.mp joins
  have fresh := (List.mem_append.mp mem).elim (fun mem => (List.mem_filter.mp mem).1)
    fun mem => (List.mem_filter.mp mem).1
  obtain ⟨waits, can⟩ := List.mem_filter.mp fresh
  simp only [Bool.and_eq_true] at can
  exact ⟨parked, mem_waiting.mp waits, can.2⟩

/-- Whoever is first in line can go on, or leaves the line to others and to those that can. -/
theorem Regular.first_in_line (fine : now.Regular) {bucket : List (Awaited σ)} {place : Nat}
    {line : List Nat} (phase : now.phase = .awaiting bucket (place :: line)) :
    now.Able bucket place ∨ ∃ joining,
      now.pollAt bucket place line = { now with phase := .awaiting bucket (line ++ joining) } ∧
        ∀ other ∈ joining, now.Able bucket other := by
  unfold pollAt
  split
  · rename_i parked found
    cases can : now.canGoOn parked with
    | true => exact .inl ⟨parked, found, can⟩
    | false =>
        have mem := mem_parkedSteps phase (List.mem_of_getElem? found)
        obtain ⟨bound, there⟩ := List.getElem?_eq_some_iff.mp found
        have same : bucket.set place (.waiting parked) = bucket := by
          rw [← there]
          exact List.set_getElem_self bound
        rw [poll_of_not_canGoOn fine.secure mem can]
        simp only [same]
        refine .inr ⟨_, rfl, fun other joins => ?_⟩
        split at joins
        · exact able_of_due joins
        · cases joins
  · exact .inr ⟨[], by rw [List.append_nil], fun _ none => absurd none List.not_mem_nil⟩

theorem exists_waiting {bucket : List (Awaited σ)} (missing : answers? bucket = none) :
    ∃ parked place, (parked, place) ∈ waiting bucket := by
  have among : ∃ parked, .waiting parked ∈ bucket := by
    induction bucket with
    | nil => cases missing
    | cons awaited rest ih =>
        cases awaited with
        | waiting parked => exact ⟨parked, List.mem_cons_self⟩
        | answered owner step resumption =>
            obtain ⟨parked, mem⟩ := ih (by simpa [answers?] using missing)
            exact ⟨parked, List.mem_cons_of_mem _ mem⟩
  obtain ⟨parked, mem⟩ := among
  obtain ⟨place, here⟩ := List.mem_iff_getElem?.mp mem
  exact ⟨parked, place, mem_waiting.mpr here⟩

/-- When steps that wait line up anew, one of them can go on. -/
theorem Regular.able_in_line (fine : now.Regular) {bucket : List (Awaited σ)} {line : List Nat}
    (phase : now.phase = .awaiting bucket line) (missing : answers? bucket = none) :
    ∃ place ∈ now.lineUp bucket, now.Able bucket place := by
  have up {parked : ParkedStep σ} {place : Nat} (mem : (parked, place) ∈ now.nextUp bucket) :
      place ∈ now.lineUp bucket ∧ bucket[place]? = some (.waiting parked) := by
    refine ⟨lineUp_eq now bucket ▸ List.mem_map.mpr ⟨_, mem, rfl⟩, mem_waiting.mp ?_⟩
    unfold nextUp at mem
    split at mem
    · exact List.mem_of_mem_take mem
    · exact mem
  obtain ⟨parked, place, first⟩ : ∃ parked place, (parked, place) ∈ now.nextUp bucket := by
    obtain ⟨parked, place, waits⟩ := exists_waiting missing
    unfold nextUp
    split
    · cases all : waiting bucket with
      | nil =>
          rw [all] at waits
          cases waits
      | cons entry rest => exact ⟨entry.1, entry.2, List.mem_cons_self⟩
    · exact ⟨parked, place, waits⟩
  have attended : now.attended = (now.nextUp bucket).map (·.1) := by rw [Schedule.attended, phase]
  obtain ⟨other, mem, can⟩ := fine.attentive.exists_canGoOn (by rw [phase]; rfl)
    (fun watched => (fine.secure watched).tally) (attended ▸ List.mem_map.mpr ⟨_, first, rfl⟩)
  obtain ⟨⟨_, place⟩, next, rfl⟩ := List.mem_map.mp (attended ▸ mem)
  obtain ⟨lined, found⟩ := up next
  exact ⟨place, lined, _, found, can⟩

section Rounds

variable (regular : ∀ now, first.Visits now → now.Regular)
  (relieved : ∀ less : Burden σ, less.Lighter burden →
    ∀ now, first.Visits now → now.Owes less → now.Ends)

include regular relieved

/-- If the first in line can go on, then less is left to be done. -/
theorem ends_of_able {bucket : List (Awaited σ)} {place : Nat} {line : List Nat}
    (visits : first.Visits now) (owes : now.Owes burden)
    (phase : now.phase = .awaiting bucket (place :: line)) (able : now.Able bucket place) :
    now.Ends := by
  have fine := regular now visits
  obtain ⟨parked, found, can⟩ := able
  refine ends_of_turn fun next turn => ?_
  have polls : next = now.pollAt bucket place line :=
    Turn.again.inj (turn.symm.trans (step_poll phase))
  have mem := mem_parkedSteps phase (List.mem_of_getElem? found)
  obtain ⟨⟨job, run⟩, here⟩ : ∃ entry, now.runs[parked.owner]? = some entry :=
    ⟨_, List.getElem?_eq_getElem (fine.owned parked mem)⟩
  have gets_on := gets_on fine.secure mem here (fine.stocked parked mem job run here) can
  obtain ⟨front, back, split, set⟩ := set_eq found
  rw [split] at phase
  unfold pollAt at polls
  simp only [found, set] at polls
  obtain ⟨less, owed, lighter⟩ := owes.poll phase here gets_on _
  rw [← polls] at owed
  exact relieved less lighter next (visits.step turn) owed

/-- If somebody in line can go on, then sooner or later less is left to be done. -/
theorem ends_of_able_later {bucket : List (Awaited σ)} {place : Nat} (front : List Nat) :
    ∀ {now : Schedule σ} {back : List Nat}, first.Visits now → now.Owes burden →
      now.phase = .awaiting bucket (front ++ place :: back) → now.Able bucket place → now.Ends := by
  induction front with
  | nil => exact fun visits owes phase able => ends_of_able regular relieved visits owes phase able
  | cons other front ih =>
      intro now back visits owes phase able
      rw [List.cons_append] at phase
      rcases (regular now visits).first_in_line phase with can | ⟨joining, polled, -⟩
      · exact ends_of_able regular relieved visits owes phase can
      · refine ends_of_turn fun next turn => ?_
        obtain rfl := Turn.again.inj (turn.symm.trans (step_poll phase))
        rw [polled] at turn ⊢
        have longer : front ++ place :: back ++ joining = front ++ place :: (back ++ joining) := by
          rw [List.append_assoc, List.cons_append]
        rw [longer] at turn ⊢
        exact ih (visits.step turn)
          (owes.aside rfl fun owner job weave shares => shares.line phase _) rfl able

/-- A bucket that is awaited comes to be done with. -/
theorem ends_awaiting {bucket : List (Awaited σ)} (line : List Nat) :
    ∀ {now : Schedule σ}, first.Visits now → now.Owes burden → now.phase = .awaiting bucket line →
      now.Ends := by
  induction line with
  | nil =>
      intro now visits owes phase
      have fine := regular now visits
      refine ends_of_turn fun next turn => ?_
      cases found : answers? bucket with
      | some answers =>
          have resumes := (step_resume phase found).symm.trans turn
          obtain ⟨less, owed, lighter⟩ := owes.resume phase fine.full found resumes
          exact relieved less lighter next (visits.step turn) owed
      | none =>
          obtain rfl := Turn.again.inj (turn.symm.trans (step_line_up phase found))
          obtain ⟨place, mem, able⟩ := fine.able_in_line phase found
          obtain ⟨front, back, split⟩ := List.append_of_mem mem
          rw [split] at turn ⊢
          exact ends_of_able_later regular relieved front (visits.step turn)
            (owes.aside rfl fun owner job weave shares => shares.line phase _) rfl able
  | cons place line ih =>
      intro now visits owes phase
      rcases (regular now visits).first_in_line phase with can | ⟨joining, polled, able⟩
      · exact ends_of_able regular relieved visits owes phase can
      · refine ends_of_turn fun next turn => ?_
        obtain rfl := Turn.again.inj (turn.symm.trans (step_poll phase))
        rw [polled] at turn ⊢
        have owes' : Owes { now with phase := .awaiting bucket (line ++ joining) } burden :=
          owes.aside rfl fun owner job weave shares => shares.line phase _
        cases joining with
        | nil => exact ih (visits.step turn) owes' (by rw [List.append_nil])
        | cons other joining =>
            exact ends_of_able_later regular relieved line (visits.step turn) owes' rfl
              (able other List.mem_cons_self)

/-- The fetches for a bucket come to an end, and the bucket is awaited. -/
theorem ends_flushing {bucket : List (ParkedStep σ)} (flushes : List (World.Flush σ)) :
    ∀ {now : Schedule σ}, first.Visits now → now.Owes burden →
      now.phase = .flushing bucket flushes → now.Ends := by
  induction flushes using World.lessLeft_wellFounded.induction with
  | _ flushes ih =>
    intro now visits owes phase
    have fine := regular now visits
    refine ends_of_turn fun next turn => ?_
    cases goesOn_of_step turn with
    | fetched phase' =>
        have owes' : Owes { now with phase := .awaiting (bucket.map .waiting) [] } burden :=
          owes.aside rfl fun owner job weave shares =>
            shares.flush phase now.world (waiting_fetched bucket) (answered_fetched owner bucket)
        cases phase.symm.trans phase'
        exact ends_awaiting regular relieved [] (visits.step turn) owes' rfl
    | fetching phase' some_left =>
        cases phase.symm.trans phase'
        have unpolled := fine.attentive.unpolled fun _ _ awaits => by cases phase.symm.trans awaits
        have less := unpolled.flushes_get_on (fun watched => (fine.secure watched).tally)
        rw [phase] at less
        exact ih _ (less some_left) (visits.step turn)
          (owes.aside rfl fun owner job weave shares => shares.flush phase _ rfl rfl) rfl
    | advanced phase' | released phase' | passed phase' | taken phase' | polled phase'
    | linedUp phase' | resumed phase' => cases phase.symm.trans phase'

omit regular in
/-- A run with a ready step gets on, and less is left to be done. -/
theorem ends_of_ready {owner : Nat} {run : Run σ} {step : Step σ} {ready : List (Step σ)}
    (visits : first.Visits now) (owes : now.Owes burden) (phase : now.phase = .draining owner)
    (found : now.runs[owner]? = some (job, run)) (top : run.ready = step :: ready) : now.Ends := by
  refine ends_of_turn fun next turn => ?_
  obtain ⟨less, owed, lighter⟩ := owes.advance phase found top turn
  exact relieved less lighter next (visits.step turn) owed

/-- When all runs have had their turns, a bucket is taken up, or nothing is left to be done. -/
theorem ends_draining (turns : Nat) : ∀ {now : Schedule σ} {owner : Nat}, first.Visits now →
    now.Owes burden → now.phase = .draining owner → now.runs.length - owner = turns → now.Ends := by
  induction turns with
  | zero =>
      intro now owner visits owes phase none_left
      have missing : now.runs[owner]? = none :=
        List.getElem?_eq_none_iff.mpr (Nat.sub_eq_zero_iff_le.mp none_left)
      refine ends_of_turn fun next turn => ?_
      cases goesOn_of_step turn with
      | taken phase' none_left first =>
          exact ends_flushing regular relieved _ (visits.step turn)
            (owes.aside rfl fun owner job weave shares => shares.take phase' none_left first) rfl
      | advanced phase' here | released phase' here | passed phase' here =>
          cases phase.symm.trans phase'
          cases missing.symm.trans here
      | fetching phase' | fetched phase' | polled phase' | linedUp phase' | resumed phase' =>
          cases phase.symm.trans phase'
  | succ turns ih =>
      intro now owner visits owes phase left
      obtain ⟨⟨job, run⟩, found⟩ : ∃ entry, now.runs[owner]? = some entry :=
        ⟨_, List.getElem?_eq_getElem (by omega)⟩
      cases top : run.ready with
      | cons step ready => exact ends_of_ready relieved visits owes phase found top
      | nil =>
          refine ends_of_turn fun next turn => ?_
          obtain ⟨less, owed, rfl | lighter⟩ := owes.pass phase found top turn
          · by_cases waits : run.held = [] ∨ run.parked ≠ 0
            · obtain rfl := Turn.again.inj (turn.symm.trans (step_pass phase found top waits))
              exact ih (visits.step turn) owed rfl (by show now.runs.length - (owner + 1) = turns; omega)
            · push Not at waits
              obtain ⟨step, held, first⟩ := List.exists_cons_of_ne_nil waits.1
              -- The step that is released goes on next.
              obtain rfl := Turn.again.inj (turn.symm.trans
                (step_release phase found top first waits.2))
              refine ends_of_ready relieved (visits.step turn) owed phase
                (?_ : _ = some (job, { run with ready := [step], held })) rfl
              simp [getElem?_modifyRun, found]
          · exact relieved less lighter next (visits.step turn) owed

end Rounds

/-- A schedule to whose runs something is owed comes to an end. -/
theorem Owes.ends (owes : first.Owes burden)
    (regular : ∀ now, first.Visits now → now.Regular) : first.Ends := by
  have all : ∀ burden : Burden σ, ∀ now, first.Visits now → now.Owes burden → now.Ends := by
    intro burden
    induction burden using Burden.lighter_wellFounded.induction with
    | _ burden relieved =>
      intro now visits owes
      cases phase : now.phase with
      | draining owner => exact ends_draining regular relieved _ visits owes phase rfl
      | flushing bucket flushes => exact ends_flushing regular relieved flushes visits owes phase
      | awaiting bucket line => exact ends_awaiting regular relieved line visits owes phase
  exact all burden first .start owes

end Schedule

end GraphExec
