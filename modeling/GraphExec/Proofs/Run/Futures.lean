import GraphExec.Proofs.Loading.Polls
import GraphExec.Proofs.Run.Effects
import GraphExec.Proofs.Run.Shares

/-!
# The futures of a schedule

What a schedule polls are the fetches that are made for a bucket, what the parked steps wait for, and
the bags of arguments of its runs. While ready steps are run, none of them holds anything of a
source: what is parked has not been polled yet, and whatever was polled for a bucket has been
answered before its steps were resumed. Whatever is parked belongs to one of the runs.
-/

namespace GraphExec

variable {σ : Type}

/-! ### Bags of arguments -/

/-- How far a bag of arguments has got with a fetch of a source. -/
def SharedArguments.progressAt (watched : SourceId) :
    SharedArguments σ → Option (FetchProgress σ)
  | .ready _ => none
  | .pending rest => rest.progressAt watched

/-- Nothing of a bag holds anything of a source. -/
def SharedArguments.IsFresh (bag : SharedArguments σ) : Prop :=
  ∀ watched, bag.progressAt watched = none

theorem SharedArguments.fresh_ready (result : ArgumentsResult) :
    (ready result : SharedArguments σ).IsFresh := fun _ => rfl

theorem SharedArguments.fresh_ofCoercion (coercion : Coercion σ) :
    (ofCoercion coercion).IsFresh := by
  cases coercion <;> exact fun _ => rfl

namespace ArgumentStore

variable {store : ArgumentStore σ} {key : ArgumentKey} {bag : SharedArguments σ}

/-- A bag that is found is in the store, and another one is put in its place. -/
theorem split_of_get? (found : store.get? key = some bag) :
    ∃ front back, store = front ++ (key, bag) :: back ∧
      ∀ other, store.insert key other = front ++ (key, other) :: back := by
  induction store with
  | nil => cases found
  | cons entry rest ih =>
      obtain ⟨k, b⟩ := entry
      unfold get? at found
      split at found
      · rename_i same
        injection found with found
        subst same found
        exact ⟨[], rest, rfl, fun other => by simp [insert]⟩
      · rename_i differs
        obtain ⟨front, back, here, put⟩ := ih found
        refine ⟨(k, b) :: front, back, by rw [here]; rfl, fun other => ?_⟩
        rw [insert, if_neg differs, put]
        rfl

theorem not_mem_keys_of_fresh (fresh : store.get? key = none) : key ∉ store.map (·.1) := by
  induction store with
  | nil => exact List.not_mem_nil
  | cons entry rest ih =>
      obtain ⟨k, b⟩ := entry
      unfold get? at fresh
      split at fresh
      · cases fresh
      · rename_i differs
        intro mem
        rcases List.mem_cons.mp mem with same | mem
        · exact differs same.symm
        · exact ih fresh mem

/-- A bag under a new key goes to the end. -/
theorem insert_of_fresh (fresh : store.get? key = none) :
    store.insert key bag = store ++ [(key, bag)] := by
  induction store with
  | nil => rfl
  | cons entry rest ih =>
      obtain ⟨k, b⟩ := entry
      unfold get? at fresh
      split at fresh
      · cases fresh
      · rename_i differs
        rw [insert, if_neg differs, ih fresh]
        rfl

/-- What the bags of a store hold of a source. -/
def holds (watched : SourceId) (store : ArgumentStore σ) : List (FetchProgress σ) :=
  store.filterMap fun entry => entry.2.progressAt watched

/-- No two bags are under one key. -/
def Distinct (store : ArgumentStore σ) : Prop :=
  (store.map (·.1)).Nodup

/-- A store has more bags than another one, and those that are new have not been polled. -/
structure Grows (before after : ArgumentStore σ) : Prop where
  more : ∃ more, after = before ++ more ∧ ∀ entry ∈ more, entry.2.IsFresh
  distinct : before.Distinct → after.Distinct

theorem Grows.refl (store : ArgumentStore σ) : store.Grows store :=
  ⟨⟨[], (List.append_nil _).symm, fun _ mem => absurd mem List.not_mem_nil⟩, id⟩

theorem Grows.trans {first second third : ArgumentStore σ} (one : first.Grows second)
    (two : second.Grows third) : first.Grows third := by
  obtain ⟨⟨more, grown, fresh⟩, distinct⟩ := one
  obtain ⟨⟨more', grown', fresh'⟩, distinct'⟩ := two
  refine ⟨⟨more ++ more', by rw [grown', grown, List.append_assoc], fun entry mem => ?_⟩,
    distinct' ∘ distinct⟩
  exact (List.mem_append.mp mem).elim (fresh entry) (fresh' entry)

theorem Grows.holds {before after : ArgumentStore σ} (grows : before.Grows after)
    (watched : SourceId) : after.holds watched = before.holds watched := by
  obtain ⟨⟨more, rfl, fresh⟩, -⟩ := grows
  have nothing : ArgumentStore.holds watched more = [] :=
    List.filterMap_eq_nil_iff.mpr fun entry mem => fresh entry mem watched
  unfold ArgumentStore.holds at nothing ⊢
  rw [List.filterMap_append, nothing, List.append_nil]

theorem Grows.start (fresh : store.get? key = none) (coercion : Coercion σ) :
    store.Grows (store.insert key (.ofCoercion coercion)) := by
  have put : store.insert key (.ofCoercion coercion) = store ++ [(key, .ofCoercion coercion)] :=
    insert_of_fresh fresh
  refine ⟨⟨_, put, fun entry mem => ?_⟩, fun distinct => ?_⟩
  · rw [List.mem_singleton.mp mem]
    exact SharedArguments.fresh_ofCoercion coercion
  · unfold Distinct
    rw [put, List.map_append, List.nodup_append]
    refine ⟨distinct, by simp, fun other mem new mem' => ?_⟩
    rw [List.map_singleton, List.mem_singleton] at mem'
    rintro rfl
    have same : other = key := mem'
    exact not_mem_keys_of_fresh fresh (same ▸ mem)

end ArgumentStore

/-- Whatever is done by a run, its store of bags grows. -/
instance : Throughout fun s t : Stage σ => s.run.arguments.Grows t.run.arguments where
  refl _ := .refl _
  trans := .trans
  call _ _ := .refl _
  tell _ _ := .refl _
  report _ _ := .refl _
  count _ _ := .refl _
  draft _ _ := .refl _
  steps _ _ _ := .refl _

instance : Starts fun s t : Stage σ => s.run.arguments.Grows t.run.arguments where
  start _ coercion _ fresh := .start fresh coercion

/-! ### What a schedule holds -/

namespace Phase

/-- The fetches that are made for a bucket. -/
def flushes : Phase σ → List (World.Flush σ)
  | flushing _ flushes => flushes
  | _ => []

end Phase

/-- How far a fetch that is made for a bucket has got, at a source. -/
def World.Flush.progressAt (watched : SourceId) (flush : World.Flush σ) :
    Option (FetchProgress σ) :=
  (Future.flush flush.1 flush.2).progressAt watched

namespace Schedule

/-- All steps that wait. -/
def parkedSteps (schedule : Schedule σ) : List (ParkedStep σ) :=
  schedule.phase.waiting ++ schedule.buckets.flatMap (·.2)

/-- What waits in a bucket that is awaited is parked. -/
theorem mem_parkedSteps {schedule : Schedule σ} {bucket : List (Awaited σ)} {line : List Nat}
    (phase : schedule.phase = .awaiting bucket line) {parked : ParkedStep σ}
    (waits : .waiting parked ∈ bucket) : parked ∈ schedule.parkedSteps := by
  refine List.mem_append_left _ ?_
  rw [phase]
  exact List.mem_filterMap.mpr ⟨.waiting parked, waits, rfl⟩

/-- What the futures of a schedule hold of a source. -/
def holds (watched : SourceId) (schedule : Schedule σ) : List (FetchProgress σ) :=
  schedule.phase.flushes.filterMap (World.Flush.progressAt watched) ++
    (schedule.parkedSteps.filterMap fun parked => parked.wait.progressAt watched) ++
    schedule.runs.flatMap fun entry => entry.2.arguments.holds watched

/-- No bag of a run has been polled, but those that steps of the bucket that is taken up wait
for. -/
structure QuietBags (waiting : List (ParkedStep σ)) (owner : Nat) (store : ArgumentStore σ) :
    Prop where
  distinct : store.Distinct
  fresh : ∀ entry ∈ store, entry.2.IsFresh ∨
    ∃ parked ∈ waiting, parked.owner = owner ∧ parked.wait = .arguments entry.1

theorem QuietBags.grows {waiting waiting' : List (ParkedStep σ)} {owner : Nat}
    {before after : ArgumentStore σ} (quiet : QuietBags waiting owner before)
    (grows : before.Grows after) (more : ∀ parked ∈ waiting, parked ∈ waiting') :
    QuietBags waiting' owner after := by
  obtain ⟨⟨added, rfl, fresh⟩, distinct⟩ := grows
  refine ⟨distinct quiet.distinct, fun entry mem => ?_⟩
  rcases List.mem_append.mp mem with mem | mem
  · refine (quiet.fresh entry mem).imp id ?_
    rintro ⟨parked, mem, own⟩
    exact ⟨parked, more parked mem, own⟩
  · exact .inl (fresh entry mem)

theorem QuietBags.waiting {waiting waiting' : List (ParkedStep σ)} {owner : Nat}
    {store : ArgumentStore σ} (quiet : QuietBags waiting owner store)
    (others : ∀ parked ∈ waiting, parked.owner = owner → ∀ key, parked.wait = .arguments key →
      parked ∈ waiting') : QuietBags waiting' owner store := by
  refine ⟨quiet.distinct, fun entry mem => (quiet.fresh entry mem).imp id ?_⟩
  rintro ⟨parked, mem, own, wait⟩
  exact ⟨parked, others parked mem own _ wait, own, wait⟩

/-- A bag is driven forward: it is there, or somebody still waits for it. -/
theorem QuietBags.insert {waiting waiting' : List (ParkedStep σ)} {owner : Nat}
    {store : ArgumentStore σ} {key : ArgumentKey} {bag bag' : SharedArguments σ}
    (quiet : QuietBags waiting owner store) (found : store.get? key = some bag)
    (others : ∀ parked ∈ waiting, parked.owner = owner → ∀ k, parked.wait = .arguments k →
      k = key ∨ parked ∈ waiting')
    (now : bag'.IsFresh ∨ ∃ parked ∈ waiting', parked.owner = owner ∧ parked.wait = .arguments key) :
    QuietBags waiting' owner (store.insert key bag') := by
  obtain ⟨front, back, rfl, put⟩ := ArgumentStore.split_of_get? found
  have distinct := quiet.distinct
  unfold ArgumentStore.Distinct at distinct
  rw [put]
  refine ⟨by simpa [ArgumentStore.Distinct] using distinct, fun entry mem => ?_⟩
  have apart : ∀ other ∈ front ++ back, other.1 ≠ key := by
    intro other mem same
    have perm : (front ++ (key, bag) :: back).Perm ((key, bag) :: (front ++ back)) :=
      List.perm_middle
    have fresh := (List.nodup_cons.mp ((perm.map (·.1)).nodup_iff.mp distinct)).1
    have among : other.1 ∈ (front ++ back).map (·.1) := List.mem_map_of_mem mem
    exact fresh (same ▸ among)
  have kept : entry ∈ front ++ back → entry.2.IsFresh ∨ ∃ parked ∈ waiting',
      parked.owner = owner ∧ parked.wait = .arguments entry.1 := by
    intro mem
    have old : entry ∈ front ++ (key, bag) :: back :=
      List.perm_middle.mem_iff.mpr (List.mem_cons_of_mem _ mem)
    refine (quiet.fresh entry old).imp id ?_
    rintro ⟨parked, waits, own, wait⟩
    rcases others parked waits own _ wait with same | waits
    · exact absurd same (apart entry mem)
    · exact ⟨parked, waits, own, wait⟩
  rcases List.mem_cons.mp (List.perm_middle.mem_iff.mp mem) with rfl | mem
  · exact now
  · exact kept mem

/-- What is parked has not been polled, and a bag has been polled only if a step of the bucket that
is taken up waits for it. -/
structure Quiet (schedule : Schedule σ) : Prop where
  buckets : ∀ parked ∈ schedule.buckets.flatMap (·.2), parked.wait.IsFresh
  bags : ∀ (owner : Nat) (job : Job σ) (run : Run σ),
    schedule.runs[owner]? = some (job, run) →
      QuietBags schedule.phase.waiting owner run.arguments

variable {schedule next : Schedule σ}

/-- Nothing is held when no fetch is made for a bucket and no step of it waits. -/
theorem Quiet.holds_eq_nil (quiet : schedule.Quiet) (no_flush : schedule.phase.flushes = [])
    (waiting : schedule.phase.waiting = []) (watched : SourceId) :
    schedule.holds watched = [] := by
  have waits : schedule.parkedSteps.filterMap (fun parked => parked.wait.progressAt watched) = [] := by
    refine List.filterMap_eq_nil_iff.mpr fun parked mem => ?_
    unfold parkedSteps at mem
    rw [waiting, List.nil_append] at mem
    exact quiet.buckets parked mem watched
  have bags : schedule.runs.flatMap (fun entry => entry.2.arguments.holds watched) = [] := by
    refine List.flatMap_eq_nil_iff.mpr fun ⟨job, run⟩ among => ?_
    obtain ⟨n, here⟩ := List.mem_iff_getElem?.mp among
    refine List.filterMap_eq_nil_iff.mpr fun entry mem => ?_
    rcases (quiet.bags n job run here).fresh entry mem with fresh | ⟨parked, mem, -⟩
    · exact fresh watched
    · rw [waiting] at mem
      exact absurd mem List.not_mem_nil
  unfold Schedule.holds
  rw [no_flush, waits, bags]
  rfl

/-- Nothing is held while ready steps are run. -/
theorem Quiet.holds_draining (quiet : schedule.Quiet) {owner : Nat}
    (phase : schedule.phase = .draining owner) (watched : SourceId) :
    schedule.holds watched = [] :=
  quiet.holds_eq_nil (by rw [phase]; rfl) (by rw [phase]; rfl) watched

/-! ### The transitions of a schedule -/

/-- A schedule of runs that have not been begun. -/
theorem quiet_new {runs : List (Job σ × Run σ)} (world : World σ) (nonblocking : Bool)
    (blank : ∀ entry ∈ runs, entry.2.arguments = []) :
    (Schedule.new runs world nonblocking).Quiet := by
  refine ⟨fun _ mem => absurd mem List.not_mem_nil, fun owner job run here => ?_⟩
  rw [blank (job, run) (List.mem_of_getElem? here)]
  exact ⟨List.nodup_nil, fun _ mem => absurd mem List.not_mem_nil⟩

/-- Only the bags of a run, the buckets and the steps of the bucket that is taken up count. -/
theorem Quiet.of_grows (quiet : schedule.Quiet)
    (buckets : ∀ parked ∈ next.buckets.flatMap (·.2),
      parked ∈ schedule.buckets.flatMap (·.2) ∨ parked.wait.IsFresh)
    (waiting : ∀ parked ∈ schedule.phase.waiting, parked ∈ next.phase.waiting)
    (bags : ∀ (owner : Nat) (job : Job σ) (run : Run σ), next.runs[owner]? = some (job, run) →
      ∃ job' run', schedule.runs[owner]? = some (job', run') ∧
        run'.arguments.Grows run.arguments) : next.Quiet := by
  refine ⟨fun parked mem => (buckets parked mem).elim (quiet.buckets parked) id,
    fun owner job run here => ?_⟩
  obtain ⟨job', run', there, grows⟩ := bags owner job run here
  exact (quiet.bags owner job' run' there).grows grows waiting

theorem Quiet.modifyRun (quiet : schedule.Quiet) (owner : Nat) {f : Run σ → Run σ}
    (grows : ∀ job run, schedule.runs[owner]? = some (job, run) →
      run.arguments.Grows (f run).arguments) : (schedule.modifyRun owner f).Quiet := by
  refine quiet.of_grows (fun _ mem => .inl mem) (fun _ mem => mem) fun n job run here => ?_
  rw [getElem?_modifyRun] at here
  split at here
  · rename_i same
    subst same
    obtain ⟨⟨job', run'⟩, there, same⟩ := Option.map_eq_some_iff.mp here
    injection same with _ same
    exact ⟨job', run', there, same ▸ grows job' run' there⟩
  · exact ⟨job, run, here, .refl _⟩

/-- What surrounds the runs changes, and something else is done. -/
theorem Quiet.turn (quiet : schedule.Quiet) (world : World σ) {phase : Phase σ}
    (waiting : ∀ parked ∈ schedule.phase.waiting, parked ∈ phase.waiting) :
    Quiet { schedule with world, phase } :=
  quiet.of_grows (fun _ mem => .inl mem) waiting fun _ job run here => ⟨job, run, here, .refl _⟩

theorem Quiet.place (quiet : schedule.Quiet) (owner : Nat) {progress : Progress σ}
    {asking : Bool} (fits : progress.Fits asking) : (schedule.place owner progress).Quiet := by
  cases progress with
  | again step =>
      exact quiet.modifyRun owner (f := fun run => { run with ready := step :: run.ready })
        fun _ _ _ => .refl _
  | finished => exact quiet
  | parked step depth wait =>
      have counted := quiet.modifyRun owner (f := fun run => { run with parked := run.parked + 1 })
        fun _ _ _ => .refl _
      refine counted.of_grows (fun parked mem => ?_) (fun _ mem => mem)
        fun _ job run here => ⟨job, run, here, .refl _⟩
      rcases List.mem_cons.mp ((Buckets.park_perm _ depth _).mem_iff.mp mem) with rfl | mem
      · exact .inr fits.1
      · exact .inl mem

theorem Quiet.advance (quiet : schedule.Quiet) {owner : Nat} {job : Job σ} {run : Run σ}
    {step : Step σ} {ready : List (Step σ)} {progress : Progress σ} {s : Stage σ}
    (found : schedule.runs[owner]? = some (job, run))
    (gives : (step.advance job).Gives ⟨{ run with ready }, schedule.world⟩ progress s) :
    Quiet (({ schedule with world := s.world }.modifyRun owner fun _ => s.run).place owner
      progress) := by
  have grows : run.arguments.Grows s.run.arguments :=
    step.keeps_advance (R := fun s t => s.run.arguments.Grows t.run.arguments) _ _ _ gives
  have moved : Quiet { schedule with world := s.world } := quiet.turn s.world fun _ mem => mem
  refine (moved.modifyRun owner fun job' run' here => ?_).place owner
    (Step.advance_fits gives)
  obtain rfl : run' = run := by
    injection here.symm.trans found with same
    injection same
  exact grows

theorem Quiet.take (quiet : schedule.Quiet) {depth : Nat} {bucket : List (ParkedStep σ)}
    {buckets : Buckets σ} (first : schedule.buckets = (depth, bucket) :: buckets)
    (none_waits : schedule.phase.waiting = []) (phase : Phase σ) :
    Quiet { schedule with buckets, phase } := by
  refine quiet.of_grows (fun parked mem => .inl ?_) (fun parked mem => ?_) fun _ job run here =>
    ⟨job, run, here, .refl _⟩
  · rw [first]
    exact List.mem_append_right _ mem
  · rw [none_waits] at mem
    exact absurd mem List.not_mem_nil

/-! ### Polls -/

/-- The steps of a bucket that wait, one place apart. -/
theorem mem_waiting_cons {front back : List (Awaited σ)} {x : Awaited σ} {parked : ParkedStep σ} :
    parked ∈ (front ++ x :: back).filterMap Awaited.waiting? ↔
      x.waiting? = some parked ∨ parked ∈ (front ++ back).filterMap Awaited.waiting? := by
  rw [(List.perm_middle.filterMap Awaited.waiting?).mem_iff, List.filterMap_cons]
  cases waits : x.waiting? with
  | none => simp
  | some other => simp [eq_comm]

/-- A poll drives forward what the step waits for by its own kind, or the bag that it waits for,
which is there afterwards unless it is waited for still. -/
theorem poll_store (s : Stage σ) (wait : Wait σ) :
    ((∀ key, wait ≠ .arguments key) ∧ (wait.poll s).2.run = s.run) ∨
      ∃ key, wait = .arguments key ∧
        ((wait.poll s = (.pending wait, s) ∧ s.run.arguments.get? key = none) ∨
          ∃ bag bag', s.run.arguments.get? key = some bag ∧
            (wait.poll s).2.run.arguments = s.run.arguments.insert key bag' ∧
            ((bag'.IsFresh ∧ ∃ resumption, (wait.poll s).1 = .ready resumption) ∨
              (wait.poll s).1 = .pending wait)) := by
  have by_kind : ∀ {α : Type} (rest : Pending σ α) (answer : α → Resumption σ)
      (wait : Pending σ α → Wait σ), (Wait.pollBy rest answer wait s).2.run = s.run := by
    intro α rest answer wait
    unfold Wait.pollBy
    split <;> rfl
  cases wait with
  | value rest => exact .inl ⟨nofun, by_kind rest _ _⟩
  | type rest => exact .inl ⟨nofun, by_kind rest _ _⟩
  | authorization rest => exact .inl ⟨nofun, by_kind rest _ _⟩
  | directive rest => exact .inl ⟨nofun, by_kind rest _ _⟩
  | arguments key =>
      refine .inr ⟨key, rfl, ?_⟩
      cases found : s.run.arguments.get? key with
      | none => exact .inl ⟨by simp only [Wait.poll, Wait.pollBag, found], rfl⟩
      | some bag =>
          refine .inr ⟨bag, (bag.poll.run s.world).1, rfl, ?_⟩
          simp only [Wait.poll, Wait.pollBag, found]
          rcases bag.poll.run s.world with ⟨bag', world⟩
          cases bag' with
          | ready result => exact ⟨rfl, .inl ⟨SharedArguments.fresh_ready _, _, rfl⟩⟩
          | pending rest => exact ⟨rfl, .inr rfl⟩

/-- A poll makes no run. -/
theorem poll_missing {parked : ParkedStep σ} (missing : schedule.runs[parked.owner]? = none) :
    (schedule.poll parked).2.runs[parked.owner]? = none := by
  by_cases kind : ∀ key, parked.wait ≠ .arguments key
  · unfold Schedule.poll
    split
    case h_5 => exact absurd ‹_› (kind _)
    all_goals
      simp only
      split <;> exact missing
  · push Not at kind
    obtain ⟨key, kind⟩ := kind
    unfold Schedule.poll Schedule.arguments?
    rw [kind, missing]
    exact missing

/-- A poll of a step leaves no bag polled that is not there, but those that the step or others wait
for. -/
theorem quietBags_poll {parked : ParkedStep σ} {others : List (ParkedStep σ)}
    (quiet : ∀ (owner : Nat) (job : Job σ) (run : Run σ),
      schedule.runs[owner]? = some (job, run) → QuietBags (parked :: others) owner run.arguments)
    {owner : Nat} {job : Job σ} {run : Run σ}
    (here : (schedule.poll parked).2.runs[owner]? = some (job, run)) :
    QuietBags ((schedule.poll parked).1.waiting?.toList ++ others) owner run.arguments := by
  have behind {other : ParkedStep σ} (mem : other ∈ others) :
      other ∈ (schedule.poll parked).1.waiting?.toList ++ others :=
    List.mem_append_right _ mem
  by_cases own : parked.owner = owner
  · subst own
    cases found : schedule.runs[parked.owner]? with
    | none => cases here.symm.trans (poll_missing found)
    | some entry =>
        obtain ⟨job', run'⟩ := entry
        obtain ⟨awaited, -, runs⟩ := poll_own parked found
        have quiet' := quiet parked.owner job' run' found
        obtain rfl : (parked.wait.poll ⟨run', schedule.world⟩).2.run = run := by
          injection runs.symm.trans here with same
          injection same
        have stays : (parked.wait.poll ⟨run', schedule.world⟩).1 = .pending parked.wait →
            parked ∈ (schedule.poll parked).1.waiting?.toList ++ others := by
          intro waits
          rw [awaited, waits]
          exact List.mem_cons_self
        rcases poll_store ⟨run', schedule.world⟩ parked.wait with
          ⟨kind, same_run⟩ | ⟨key, wait, ⟨waits, -⟩ | ⟨bag, bag', there, put, now⟩⟩
        · rw [same_run]
          refine quiet'.waiting fun other mem _ key waits => ?_
          rcases List.mem_cons.mp mem with rfl | mem
          · exact absurd waits (kind key)
          · exact behind mem
        · rw [show (parked.wait.poll ⟨run', schedule.world⟩).2.run = run' by rw [waits]]
          refine quiet'.waiting fun other mem _ _ _ => ?_
          rcases List.mem_cons.mp mem with rfl | mem
          · exact stays (by rw [waits])
          · exact behind mem
        · rw [put]
          refine quiet'.insert there (fun other mem _ k waits => ?_) ?_
          · rcases List.mem_cons.mp mem with rfl | mem
            · rw [wait] at waits
              injection waits with same
              exact .inl same.symm
            · exact .inr (behind mem)
          · exact now.imp (·.1) fun waits => ⟨parked, stays waits, rfl, wait⟩
  · rw [(schedule.poll_aside parked).2.1 owner own] at here
    refine (quiet owner job run here).waiting fun other mem own' _ _ => ?_
    rcases List.mem_cons.mp mem with rfl | mem
    · exact absurd own' own
    · exact behind mem

/-- A poll leaves nothing polled but what somebody waits for. -/
theorem Quiet.poll (quiet : schedule.Quiet) {front back : List (Awaited σ)}
    {parked : ParkedStep σ} {line line' : List Nat}
    (phase : schedule.phase = .awaiting (front ++ .waiting parked :: back) line) :
    Quiet { (schedule.poll parked).2 with
      phase := .awaiting (front ++ (schedule.poll parked).1 :: back) line' } := by
  obtain ⟨-, -, buckets⟩ := schedule.poll_aside parked
  refine ⟨fun other mem => quiet.buckets other (by rwa [← buckets]), fun owner job run here => ?_⟩
  have before : ∀ (owner : Nat) (job : Job σ) (run : Run σ),
      schedule.runs[owner]? = some (job, run) →
        QuietBags (parked :: (front ++ back).filterMap Awaited.waiting?) owner run.arguments := by
    intro owner job run found
    refine (quiet.bags owner job run found).waiting fun other mem _ _ _ => ?_
    rw [phase] at mem
    exact (mem_waiting_cons.mp mem).elim
      (fun same => Option.some.inj same ▸ List.mem_cons_self) (List.mem_cons_of_mem _)
  refine (quietBags_poll before here).waiting fun other mem _ _ _ => mem_waiting_cons.mpr ?_
  exact (List.mem_append.mp mem).imp_left Option.mem_toList.mp

theorem Quiet.pollAt (quiet : schedule.Quiet) {bucket : List (Awaited σ)} {place : Nat}
    {line line' : List Nat} (phase : schedule.phase = .awaiting bucket line) :
    (schedule.pollAt bucket place line').Quiet := by
  rcases schedule.pollAt_cases bucket place line' with
    ⟨parked, front, back, line'', -, rfl, same⟩ | ⟨-, same⟩
  · rw [same]
    exact quiet.poll phase
  · rw [same]
    refine quiet.turn schedule.world fun other mem => ?_
    rwa [phase] at mem

/-- When all steps of a bucket have been answered, no bag has been polled that is not there. -/
theorem Quiet.resumeAll :
    ∀ (answers : List (Nat × Step σ × Resumption σ)) {schedule : Schedule σ}, schedule.Quiet →
      schedule.phase.waiting = [] → schedule.resumeAll answers = .again next → next.Quiet := by
  intro answers
  induction answers with
  | nil =>
      intro schedule quiet none_waits turn
      injection turn with turn
      subst turn
      refine quiet.turn schedule.world fun other mem => ?_
      rw [none_waits] at mem
      exact absurd mem List.not_mem_nil
  | cons entry rest ih =>
      intro schedule quiet none_waits turn
      obtain ⟨step', -, turn⟩ := resumeAll_cons turn
      have counted := quiet.modifyRun entry.1
        (f := fun run => { run with parked := run.parked - 1 }) fun _ _ _ => .refl _
      have woken : (schedule.wake entry.1 step').Quiet := counted.modifyRun entry.1
        (f := fun run => { run with ready := run.ready ++ [step'] }) fun _ _ _ => .refl _
      exact ih woken none_waits turn

/-- Every transition of a schedule leaves nothing polled but what is waited for. -/
theorem Quiet.step (quiet : schedule.Quiet) (turn : schedule.step = .again next) : next.Quiet := by
  have nobody {owner : Nat} (phase : schedule.phase = .draining owner) :
      schedule.phase.waiting = [] := by
    rw [phase]
    rfl
  cases goesOn_of_step turn with
  | advanced phase here first gives => exact quiet.advance here gives
  | @released owner job run step held phase here idle first none_parked =>
      exact (quiet.modifyRun owner (f := fun run => { run with ready := [step], held })
        fun _ _ _ => .refl _).turn _ fun _ mem => mem
  | passed phase =>
      refine quiet.turn schedule.world fun parked mem => ?_
      rw [nobody phase] at mem
      exact absurd mem List.not_mem_nil
  | taken phase none_left first => exact quiet.take first (nobody phase) _
  | fetching phase =>
      refine quiet.turn _ fun parked mem => ?_
      rw [phase] at mem
      exact mem
  | fetched phase =>
      refine quiet.turn schedule.world fun parked mem => ?_
      rw [phase] at mem
      rw [Phase.waiting, waiting_awaiting]
      exact mem
  | polled phase => exact quiet.pollAt phase
  | linedUp phase =>
      refine quiet.turn schedule.world fun other mem => ?_
      rwa [phase] at mem
  | resumed phase found resumes =>
      refine Quiet.resumeAll _ quiet ?_ resumes
      rw [phase]
      exact (own_answers 0 found).1

theorem Visits.quiet {first last : Schedule σ} (visits : first.Visits last) (quiet : first.Quiet) :
    last.Quiet := by
  induction visits with
  | start => exact quiet
  | step _ turn ih => exact ih.step turn

/-! ### Whose steps are parked -/

/-- Parked steps belong to runs of the schedule. -/
def Owned (schedule : Schedule σ) : Prop :=
  ∀ parked ∈ schedule.parkedSteps, parked.owner < schedule.runs.length

/-- The runs stay the same number, and the parked steps are those of before or belong to a run. -/
structure Keeps (schedule next : Schedule σ) : Prop where
  length : next.runs.length = schedule.runs.length
  owned : schedule.Owned → next.Owned

/-- No step is parked that was not. -/
theorem Keeps.of_fewer (length : next.runs.length = schedule.runs.length)
    (fewer : ∀ parked ∈ next.parkedSteps, ∃ other ∈ schedule.parkedSteps,
      other.owner = parked.owner) : schedule.Keeps next := by
  refine ⟨length, fun owned parked mem => ?_⟩
  obtain ⟨other, there, same⟩ := fewer parked mem
  rw [length, ← same]
  exact owned other there

theorem keeps_place (schedule : Schedule σ) {owner : Nat} (bound : owner < schedule.runs.length)
    (progress : Progress σ) : schedule.Keeps (schedule.place owner progress) := by
  cases progress with
  | again step =>
      exact .of_fewer (length_modifyRun _ _ _) fun parked mem => ⟨parked, mem, rfl⟩
  | finished => exact .of_fewer rfl fun parked mem => ⟨parked, mem, rfl⟩
  | parked step depth wait =>
      have length : (schedule.place owner (.parked step depth wait)).runs.length =
        schedule.runs.length := by simp [place]
      refine ⟨length, fun owned parked mem => ?_⟩
      rw [length]
      rcases List.mem_append.mp mem with mem | mem
      · exact owned parked (List.mem_append_left _ mem)
      · rcases List.mem_cons.mp ((Buckets.park_perm _ depth _).mem_iff.mp mem) with rfl | mem
        · exact bound
        · exact owned parked (List.mem_append_right _ mem)

theorem keeps_advance {owner : Nat} (bound : owner < schedule.runs.length) (s : Stage σ)
    (progress : Progress σ) :
    schedule.Keeps (({ schedule with world := s.world }.modifyRun owner fun _ => s.run).place owner
      progress) := by
  have moved : schedule.Keeps ({ schedule with world := s.world }.modifyRun owner fun _ => s.run) :=
    .of_fewer (length_modifyRun _ _ _) fun parked mem => ⟨parked, mem, rfl⟩
  have placed := keeps_place _ (moved.length ▸ bound) progress
  exact ⟨placed.length.trans moved.length, fun owned => placed.owned (moved.owned owned)⟩

theorem length_poll (schedule : Schedule σ) (parked : ParkedStep σ) :
    (schedule.poll parked).2.runs.length = schedule.runs.length := by
  unfold poll
  cases parked.wait with
  | arguments key =>
      simp only
      split
      · rfl
      · rename_i bag _
        rcases bag.poll.run schedule.world with ⟨bag, world⟩
        simp only
        split <;> simp
  | _ =>
      simp only
      split <;> rfl

/-- The step that is polled is still the only one at its place. -/
theorem keeps_pollAt {bucket : List (Awaited σ)} {line line' : List Nat}
    (phase : schedule.phase = .awaiting bucket line) (place : Nat) :
    schedule.Keeps (schedule.pollAt bucket place line') := by
  rcases schedule.pollAt_cases bucket place line' with
    ⟨parked, front, back, line'', -, rfl, same⟩ | ⟨-, same⟩
  · obtain ⟨⟨outcome, awaited⟩, others, buckets⟩ := poll_aside schedule parked
    rw [same]
    refine .of_fewer (length_poll _ _) fun other mem => ?_
    have kept : ∀ other ∈ (front ++ .waiting parked :: back).filterMap Awaited.waiting? ++
        schedule.buckets.flatMap (·.2), other ∈ schedule.parkedSteps := by
      intro other mem
      unfold parkedSteps
      rwa [phase]
    replace mem : other ∈ (front ++ (schedule.poll parked).1 :: back).filterMap
      Awaited.waiting? ++ (schedule.poll parked).2.buckets.flatMap (·.2) := mem
    rw [buckets] at mem
    rcases List.mem_append.mp mem with mem | mem
    · rcases mem_waiting_cons.mp mem with new | mem
      · refine ⟨parked, kept _ (List.mem_append_left _ (mem_waiting_cons.mpr (.inl rfl))), ?_⟩
        rw [awaited] at new
        cases outcome with
        | ready resumption => cases new
        | pending rest =>
            injection new with new
            exact new ▸ rfl
      · exact ⟨other, kept _ (List.mem_append_left _ (mem_waiting_cons.mpr (.inr mem))), rfl⟩
    · exact ⟨other, kept other (List.mem_append_right _ mem), rfl⟩
  · rw [same]
    refine .of_fewer rfl fun parked mem => ⟨parked, ?_, rfl⟩
    unfold parkedSteps
    rw [phase]
    exact mem

/-- A transition keeps the number of runs, and parks only steps of runs. -/
theorem keeps_step (turn : schedule.step = .again next) : schedule.Keeps next := by
  -- Where nothing is polled or parked, the steps that wait are found among those of before.
  have among {next : Schedule σ} (length : next.runs.length = schedule.runs.length)
      (waiting : ∀ parked ∈ next.phase.waiting, parked ∈ schedule.phase.waiting)
      (buckets : next.buckets = schedule.buckets) : schedule.Keeps next := by
    refine .of_fewer length fun parked mem => ⟨parked, ?_, rfl⟩
    unfold parkedSteps at mem ⊢
    rw [buckets] at mem
    exact (List.mem_append.mp mem).elim (fun mem => List.mem_append_left _ (waiting parked mem))
      (List.mem_append_right _)
  have nobody {P : ParkedStep σ → Prop} : ∀ parked ∈ ([] : List (ParkedStep σ)), P parked :=
    fun _ mem => absurd mem List.not_mem_nil
  cases goesOn_of_step turn with
  | advanced phase here =>
      exact keeps_advance (List.getElem?_eq_some_iff.mp here).1 _ _
  | released phase => exact among (by simp) (fun _ mem => mem) rfl
  | passed phase => exact among rfl nobody rfl
  | taken phase none_left first =>
      refine .of_fewer rfl fun parked mem => ⟨parked, ?_, rfl⟩
      unfold parkedSteps
      rw [phase, first]
      exact mem
  | fetching phase => exact among rfl (fun _ mem => phase ▸ mem) rfl
  | @fetched bucket phase =>
      refine among rfl (fun parked mem => ?_) rfl
      rw [phase]
      exact waiting_awaiting bucket ▸ mem
  | polled phase => exact keeps_pollAt phase _
  | linedUp phase => exact among rfl (fun _ mem => phase ▸ mem) rfl
  | resumed phase found resumes =>
      obtain ⟨-, phase', buckets, length⟩ := resumeAll_eq _ resumes
      exact among length (phase' ▸ nobody) buckets

theorem Visits.length {first last : Schedule σ} (visits : first.Visits last) :
    last.runs.length = first.runs.length := by
  induction visits with
  | start => rfl
  | step _ turn ih => exact (keeps_step turn).length.trans ih

end Schedule

end GraphExec
