import GraphExec.Proofs.Loading.Fair
import GraphExec.Proofs.Run.Loads

/-!
# Who is attended to

Of the steps of a bucket that is awaited only some may have been polled: where they are awaited one
by one, the first that waits. Nothing else holds anything of a source, so if one of those cannot go
on for another one, then that one is among them, and can.
-/

namespace GraphExec

variable {σ : Type}

namespace Schedule

variable {schedule next : Schedule σ}

end Schedule

/-- A bag that is in a store is the one under its key. -/
theorem ArgumentStore.Distinct.get?_of_mem {store : ArgumentStore σ} (distinct : store.Distinct)
    {key : ArgumentKey} {bag : SharedArguments σ} (mem : (key, bag) ∈ store) :
    store.get? key = some bag := by
  induction store with
  | nil => cases mem
  | cons entry rest ih =>
      obtain ⟨k, b⟩ := entry
      obtain ⟨absent, distinct⟩ := List.nodup_cons.mp distinct
      unfold get?
      rcases List.mem_cons.mp mem with same | mem
      · injection same with same_key same_bag
        rw [if_pos same_key.symm, same_bag]
      · rw [if_neg fun same => absent (List.mem_map.mpr ⟨_, mem, same.symm⟩)]
        exact ih distinct mem

namespace Schedule

variable {schedule next : Schedule σ}

/-! ### The steps that wait -/

theorem waiting_map_fst (bucket : List (Awaited σ)) :
    (waiting bucket).map (·.1) = bucket.filterMap Awaited.waiting? := by
  unfold waiting
  rw [List.map_filterMap]
  conv_rhs => rw [← List.zipIdx_map_fst 0 bucket, List.filterMap_map]
  refine List.filterMap_congr fun entry _ => ?_
  obtain ⟨awaited, place⟩ := entry
  cases awaited <;> rfl

theorem mem_waiting {bucket : List (Awaited σ)} {parked : ParkedStep σ} {place : Nat} :
    (parked, place) ∈ waiting bucket ↔ bucket[place]? = some (.waiting parked) := by
  unfold waiting
  rw [List.mem_filterMap]
  constructor
  · rintro ⟨⟨awaited, other⟩, mem, same⟩
    cases awaited with
    | waiting other =>
        simp only [Option.some.injEq, Prod.mk.injEq] at same
        obtain ⟨rfl, rfl⟩ := same
        exact List.mem_zipIdx_iff_getElem?.mp mem
    | answered owner step resumption => cases same
  · intro here
    exact ⟨(.waiting parked, place), List.mem_zipIdx_iff_getElem?.mpr here, rfl⟩

/-- The first step that waits has none before it. -/
theorem first_of_waiting {bucket : List (Awaited σ)} {parked : ParkedStep σ} {place : Nat}
    {rest : List (ParkedStep σ × Nat)} (first : waiting bucket = (parked, place) :: rest) :
    ∃ front back, bucket = front ++ .waiting parked :: back ∧
      (∀ x, bucket.set place x = front ++ x :: back) ∧
      front.filterMap Awaited.waiting? = [] := by
  have here : bucket[place]? = some (.waiting parked) :=
    mem_waiting.mp (first ▸ List.mem_cons_self)
  obtain ⟨bound, there⟩ := List.getElem?_eq_some_iff.mp here
  have split (x : Awaited σ) : bucket.set place x =
      bucket.take place ++ x :: bucket.drop (place + 1) :=
    List.set_eq_take_append_cons_drop.trans (if_pos bound)
  refine ⟨_, _, ?_, split, ?_⟩
  · rw [← there]
    exact (List.set_getElem_self bound).symm.trans (split _)
  · -- Whoever waits before would come before the first.
    have ascending : (waiting bucket).Pairwise fun one other => one.2 < other.2 := by
      have places : bucket.zipIdx.Pairwise fun one other => one.2 < other.2 := by
        rw [← List.pairwise_map (f := Prod.snd), List.zipIdx_map_snd]
        exact List.pairwise_lt_range'
      refine places.filterMap _ fun one other less one' here other' there => ?_
      obtain ⟨awaited, place⟩ := one
      obtain ⟨awaited', place'⟩ := other
      cases awaited with
      | waiting parked =>
          cases awaited' with
          | waiting parked' =>
              obtain rfl := Option.some.inj here
              obtain rfl := Option.some.inj there
              exact less
          | answered owner step resumption => cases there
      | answered owner step resumption => cases here
    refine List.filterMap_eq_nil_iff.mpr fun awaited mem => ?_
    cases awaited with
    | answered owner step resumption => rfl
    | waiting other =>
        obtain ⟨before, less, same⟩ := List.getElem_of_mem mem
        rw [List.length_take] at less
        have there : (other, before) ∈ waiting bucket := by
          refine mem_waiting.mpr (List.getElem?_eq_some_iff.mpr ⟨by omega, ?_⟩)
          rwa [List.getElem_take] at same
        rw [first] at there ascending
        rcases List.mem_cons.mp there with same | later
        · injection same with _ same
          omega
        · have := (List.pairwise_cons.mp ascending).1 _ later
          simp only at this
          omega

/-- The steps of a bucket that are polled next, each with its place. -/
def nextUp (schedule : Schedule σ) (bucket : List (Awaited σ)) : List (ParkedStep σ × Nat) :=
  if schedule.order bucket = .oneByOne then (waiting bucket).take 1 else waiting bucket

theorem lineUp_eq (schedule : Schedule σ) (bucket : List (Awaited σ)) :
    schedule.lineUp bucket = (schedule.nextUp bucket).map (·.2) := by
  unfold lineUp nextUp
  split
  · exact (List.map_take ..).symm
  · rfl

/-- The steps that may have been polled. -/
def attended (schedule : Schedule σ) : List (ParkedStep σ) :=
  match schedule.phase with
  | .awaiting bucket _ => (schedule.nextUp bucket).map (·.1)
  | _ => []

/-! ### Nothing else has been polled -/

/-- Nothing has been polled but what some steps wait for, and fetches. -/
structure PolledFor (schedule : Schedule σ) (steps : List (ParkedStep σ)) : Prop where
  others : ∃ rest, schedule.parkedSteps.Perm (steps ++ rest) ∧ ∀ parked ∈ rest, parked.wait.IsFresh
  bags : ∀ (owner : Nat) (job : Job σ) (run : Run σ),
    schedule.runs[owner]? = some (job, run) → QuietBags steps owner run.arguments

variable {steps : List (ParkedStep σ)}

/-- Only what is parked counts, and the bags. -/
theorem PolledFor.same (polled : schedule.PolledFor steps) (runs : next.runs = schedule.runs)
    (parked : next.parkedSteps.Perm schedule.parkedSteps) : next.PolledFor steps := by
  obtain ⟨rest, all, fresh⟩ := polled.others
  exact ⟨⟨rest, parked.trans all, fresh⟩, by rw [runs]; exact polled.bags⟩

/-- What a bucket is awaited for may have been polled, and nothing else. -/
theorem Quiet.polledFor (quiet : schedule.Quiet) : schedule.PolledFor schedule.phase.waiting :=
  ⟨⟨_, .refl _, quiet.buckets⟩, quiet.bags⟩

/-- Where nothing has been polled, steps may be. -/
theorem PolledFor.of_nil (polled : schedule.PolledFor []) {rest : List (ParkedStep σ)}
    (parked : schedule.parkedSteps.Perm (steps ++ rest)) : schedule.PolledFor steps := by
  obtain ⟨all, same, fresh⟩ := polled.others
  have every : ∀ other ∈ schedule.parkedSteps, other.wait.IsFresh :=
    fun other mem => fresh other (same.mem_iff.mp mem)
  refine ⟨⟨rest, parked, fun other mem => every other ?_⟩, fun owner job run here =>
    (polled.bags owner job run here).waiting fun _ mem => absurd mem List.not_mem_nil⟩
  exact parked.mem_iff.mpr (List.mem_append_right _ mem)

/-- The steps that wait, one place of the bucket apart. -/
theorem parkedSteps_awaiting {front back : List (Awaited σ)} {x : Awaited σ} {line : List Nat}
    (phase : schedule.phase = .awaiting (front ++ x :: back) line) :
    schedule.parkedSteps.Perm (x.waiting?.toList ++
      ((front ++ back).filterMap Awaited.waiting? ++ schedule.buckets.flatMap (·.2))) := by
  unfold parkedSteps
  rw [phase, ← List.append_assoc]
  refine List.Perm.append_right _ ?_
  rw [← filterMap_cons_toList]
  exact List.perm_middle.filterMap _

/-- A poll is one of what the step waits for, and leaves nothing else polled. -/
theorem PolledFor.poll {parked : ParkedStep σ} {front back : List (Awaited σ)} {line : List Nat}
    (polled : schedule.PolledFor (parked :: steps))
    (phase : schedule.phase = .awaiting (front ++ .waiting parked :: back) line)
    (line' : List Nat) :
    PolledFor { (schedule.poll parked).2 with
      phase := .awaiting (front ++ (schedule.poll parked).1 :: back) line' }
      ((schedule.poll parked).1.waiting?.toList ++ steps) := by
  obtain ⟨-, -, buckets⟩ := schedule.poll_aside parked
  obtain ⟨rest, all, fresh⟩ := polled.others
  have behind := ((parkedSteps_awaiting phase).symm.trans all).cons_inv
  refine ⟨⟨rest, (parkedSteps_awaiting rfl).trans ?_, fresh⟩,
    fun owner job run here => quietBags_poll polled.bags here⟩
  rw [List.append_assoc]
  simp only [buckets]
  exact behind.append_left _

/-! ### Whoever is attended to -/

/-- Nothing has been polled but what the steps wait for that are attended to. -/
def Attentive (schedule : Schedule σ) : Prop :=
  schedule.PolledFor schedule.attended

/-- Where a bucket is awaited one by one, nobody is in line or the first that waits. -/
def Lined (schedule : Schedule σ) : Prop :=
  ∀ bucket line, schedule.phase = .awaiting bucket line → schedule.order bucket = .oneByOne →
    line = [] ∨ line = schedule.lineUp bucket

theorem attended_of_not_awaiting (other : ∀ bucket line, schedule.phase ≠ .awaiting bucket line) :
    schedule.attended = [] := by
  unfold attended
  split
  · exact absurd ‹_› (other _ _)
  · rfl

theorem attended_of_awaiting {bucket : List (Awaited σ)} {line : List Nat}
    (phase : schedule.phase = .awaiting bucket line) :
    schedule.attended = if schedule.order bucket = .oneByOne then schedule.phase.waiting.take 1
      else schedule.phase.waiting := by
  unfold attended nextUp
  rw [phase]
  simp only
  split
  · rw [List.map_take, waiting_map_fst]
    rfl
  · exact waiting_map_fst bucket

/-- The steps that are attended to are among those that wait. -/
theorem attended_split {bucket : List (Awaited σ)} {line : List Nat}
    (phase : schedule.phase = .awaiting bucket line) :
    ∃ rest, schedule.phase.waiting = schedule.attended ++ rest := by
  rw [attended_of_awaiting phase]
  split
  · exact ⟨_, (List.take_append_drop 1 _).symm⟩
  · exact ⟨[], (List.append_nil _).symm⟩

/-- Where nothing has been polled, nothing has been polled but what is attended to. -/
theorem PolledFor.attentive (polled : schedule.PolledFor []) : schedule.Attentive := by
  by_cases awaits : ∃ bucket line, schedule.phase = .awaiting bucket line
  · obtain ⟨bucket, line, phase⟩ := awaits
    obtain ⟨rest, split⟩ := attended_split phase
    have parked : schedule.parkedSteps =
        schedule.attended ++ (rest ++ schedule.buckets.flatMap (·.2)) := by
      rw [← List.append_assoc, ← split]
      rfl
    exact polled.of_nil (.of_eq parked)
  · rw [Attentive, attended_of_not_awaiting fun bucket line phase => awaits ⟨bucket, line, phase⟩]
    exact polled

/-- While ready steps are run nothing has been polled. -/
theorem Quiet.unpolled (quiet : schedule.Quiet) {owner : Nat}
    (phase : schedule.phase = .draining owner) : schedule.PolledFor [] := by
  have polled := quiet.polledFor
  rw [phase] at polled
  exact polled

/-- While fetches are made for a bucket, nothing else has been polled. -/
theorem Attentive.unpolled (attentive : schedule.Attentive)
    (other : ∀ bucket line, schedule.phase ≠ .awaiting bucket line) : schedule.PolledFor [] := by
  rw [Attentive, attended_of_not_awaiting other] at attentive
  exact attentive

theorem order_eq {bucket bucket' : List (Awaited σ)} (same : bucket'.length = bucket.length)
    (way : next.nonblocking = schedule.nonblocking) : next.order bucket' = schedule.order bucket := by
  unfold order
  rw [same, way]

theorem nonblocking_poll (schedule : Schedule σ) (parked : ParkedStep σ) :
    (schedule.poll parked).2.nonblocking = schedule.nonblocking := by
  unfold poll
  cases parked.wait with
  | arguments key =>
      simp only
      split
      · rfl
      · rename_i bag _
        rcases bag.poll.run schedule.world with ⟨bag, world⟩
        cases bag <;> rfl
  | _ =>
      simp only
      split <;> rfl

/-- Where a bucket is awaited one by one, whoever is in line is the first that waits, and alone. -/
theorem Lined.first (lined : schedule.Lined) {bucket : List (Awaited σ)} {place : Nat}
    {line : List Nat} (phase : schedule.phase = .awaiting bucket (place :: line))
    (one : schedule.order bucket = .oneByOne) :
    line = [] ∧ ∃ parked rest, waiting bucket = (parked, place) :: rest := by
  have here := (lined bucket _ phase one).resolve_left (List.cons_ne_nil _ _)
  unfold lineUp at here
  rw [if_pos one] at here
  cases first : waiting bucket with
  | nil =>
      rw [first] at here
      cases here
  | cons entry rest =>
      obtain ⟨parked, other⟩ := entry
      rw [first] at here
      obtain ⟨rfl, rfl⟩ := List.cons.inj here
      exact ⟨rfl, parked, rest, rfl⟩

/-- Another line changes nothing about who is attended to. -/
theorem Attentive.line (attentive : schedule.Attentive) {bucket : List (Awaited σ)}
    {line : List Nat} (phase : schedule.phase = .awaiting bucket line) (line' : List Nat) :
    Attentive { schedule with phase := .awaiting bucket line' } := by
  have same : attended { schedule with phase := .awaiting bucket line' } = schedule.attended := by
    rw [attended_of_awaiting phase, attended_of_awaiting rfl, phase]
    rfl
  unfold Attentive at attentive ⊢
  rw [same]
  refine attentive.same rfl (.of_eq ?_)
  unfold parkedSteps
  rw [phase]
  rfl

/-- A poll in line leaves nothing polled but what is attended to. -/
theorem Attentive.pollAt (attentive : schedule.Attentive) (quiet : schedule.Quiet)
    (lined : schedule.Lined) {bucket : List (Awaited σ)} {place : Nat} {line : List Nat}
    (phase : schedule.phase = .awaiting bucket (place :: line)) :
    (schedule.pollAt bucket place line).Attentive ∧ (schedule.pollAt bucket place line).Lined := by
  unfold Schedule.pollAt
  split
  · rename_i parked found
    have way := nonblocking_poll schedule parked
    have same_order : (schedule.poll parked).2.order (bucket.set place (schedule.poll parked).1) =
        schedule.order bucket := order_eq (List.length_set ..) way
    -- Either the steps are polled one by one, and the first that waits is the one in line; or all
    -- of them are attended to at once.
    by_cases one : schedule.order bucket = .oneByOne
    · obtain ⟨rfl, first, rest, alone⟩ := lined.first phase one
      obtain ⟨front, back, split, set, none_before⟩ := first_of_waiting alone
      obtain rfl : first = parked := by
        have there := mem_waiting.mp (alone ▸ List.mem_cons_self)
        rw [found] at there
        injection there with there
        injection there with there
        exact there.symm
      have phase' : schedule.phase = .awaiting (front ++ .waiting first :: back) [place] :=
        split ▸ phase
      have polled : schedule.PolledFor [first] := by
        have here : schedule.attended = [first] := by
          rw [attended_of_awaiting phase, if_pos one, phase]
          show (bucket.filterMap Awaited.waiting?).take 1 = [first]
          rw [← waiting_map_fst, alone]
          rfl
        exact here ▸ attentive
      have not_due : schedule.order bucket ≠ .asDue := by
        rw [one]
        intro same
        cases same
      simp only [same_order, if_neg not_due, List.append_nil]
      refine ⟨?_, fun bucket' line' now _ => ?_⟩
      · rw [set]
        have after := polled.poll phase' []
        rw [List.append_nil] at after
        -- If it still waits it stays the first, and if not nobody has been polled ahead of the next
        -- one.
        cases left : (schedule.poll first).1.waiting? with
        | none =>
            rw [left] at after
            exact PolledFor.attentive after
        | some still =>
            rw [left] at after
            unfold Attentive
            rw [attended_of_awaiting rfl, if_pos (by rw [← set]; exact same_order.trans one)]
            have waits : (front ++ (schedule.poll first).1 :: back).filterMap Awaited.waiting? =
                still :: back.filterMap Awaited.waiting? := by
              rw [List.filterMap_append, none_before, filterMap_cons_toList, left]
              rfl
            show PolledFor _ (((front ++ _ :: back).filterMap Awaited.waiting?).take 1)
            rw [waits]
            exact after
      · injection now with _ now
        exact .inl now.symm
    · refine ⟨?_, fun bucket' line' now one' => ?_⟩
      · have quiet' : (schedule.pollAt bucket place line).Quiet := quiet.pollAt phase
        unfold Schedule.pollAt at quiet'
        simp only [found] at quiet'
        unfold Attentive
        rw [attended_of_awaiting rfl, if_neg (by rwa [← same_order] at one)]
        exact quiet'.polledFor
      · injection now with now
        subst now
        exact absurd (same_order.symm.trans one') one
  -- At that place nobody waits any more.
  · refine ⟨attentive.line phase _, fun bucket' line' now one => .inl ?_⟩
    injection now with now now'
    subst now now'
    exact (lined.first phase one).1

theorem lined_of_not_awaiting (other : ∀ bucket line, schedule.phase ≠ .awaiting bucket line) :
    schedule.Lined :=
  fun bucket line phase => absurd phase (other bucket line)

/-- While fetches are made for a bucket, nothing else is polled. -/
theorem PolledFor.flush (polled : schedule.PolledFor steps) {bucket : List (ParkedStep σ)}
    {flushes : List (World.Flush σ)} (phase : schedule.phase = .flushing bucket flushes)
    (world : World σ) {phase' : Phase σ} (waiting : phase'.waiting = bucket) :
    PolledFor { schedule with world, phase := phase' } steps := by
  refine polled.same rfl (.of_eq ?_)
  unfold parkedSteps
  rw [phase, waiting]
  rfl

/-- Nothing is polled when a bucket is taken up. -/
theorem PolledFor.take (polled : schedule.PolledFor steps) {owner depth : Nat}
    {bucket : List (ParkedStep σ)} {buckets : Buckets σ} (phase : schedule.phase = .draining owner)
    (first : schedule.buckets = (depth, bucket) :: buckets) :
    PolledFor { schedule with buckets, phase := .flushing bucket schedule.world.dueFetches }
      steps := by
  refine polled.same rfl (.of_eq ?_)
  unfold parkedSteps
  rw [phase, first]
  rfl

/-- No transition of a schedule leaves anything polled but what is attended to. -/
theorem Attentive.step (attentive : schedule.Attentive) (lined : schedule.Lined)
    (quiet : schedule.Quiet) (turn : schedule.step = .again next) :
    next.Attentive ∧ next.Lined := by
  have quiet' : next.Quiet := quiet.step turn
  have drained {owner : Nat} (phase : next.phase = .draining owner) :
      next.Attentive ∧ next.Lined := by
    refine ⟨(quiet'.unpolled phase).attentive, lined_of_not_awaiting fun _ _ awaits => ?_⟩
    cases phase.symm.trans awaits
  cases goesOn_of_step turn with
  | @advanced _ _ _ _ _ progress _ phase => cases progress <;> exact drained phase
  | released phase => exact drained phase
  | passed => exact drained rfl
  | taken phase none_left first =>
      exact ⟨((quiet.unpolled phase).take phase first).attentive,
        lined_of_not_awaiting fun _ _ awaits => by cases awaits⟩
  | fetching phase =>
      have unpolled := attentive.unpolled fun _ _ awaits => by cases phase.symm.trans awaits
      exact ⟨(unpolled.flush phase _ rfl).attentive,
        lined_of_not_awaiting fun _ _ awaits => by cases awaits⟩
  | fetched phase =>
      have unpolled := attentive.unpolled fun _ _ awaits => by cases phase.symm.trans awaits
      refine ⟨(unpolled.flush phase _ (waiting_fetched _)).attentive,
        fun _ _ now _ => ?_⟩
      injection now with _ now
      exact .inl now.symm
  | polled phase => exact attentive.pollAt quiet lined phase
  | linedUp phase =>
      refine ⟨attentive.line phase _, fun bucket' line' now _ => .inr ?_⟩
      injection now with now now'
      rw [← now', ← now]
      rfl
  | resumed phase found resumes => exact drained (resumeAll_eq _ resumes).2.1

/-! ### Somebody can go on -/

end Schedule

/-- Whether a poll of a future would get any further. -/
def Future.canGoOn (world : World σ) : Future σ → Bool
  | .lazy rest => rest.canGoOn world
  | .flush _ _ => true

/-- Whoever is served can go on. -/
theorem Future.canGoOn_of_serves {future : Future σ} {world : World σ} {watched : SourceId}
    {progress : FetchProgress σ} (holds : future.progressAt watched = some progress)
    (serves : world.Serves watched progress) : future.canGoOn world = true := by
  cases future with
  | flush id progress? => rfl
  | lazy rest =>
      cases rest with
      | start lazy => rfl
      | waiting key progress? next =>
          simp only [progressAt, Pending.progressAt] at holds
          split at holds
          · rename_i same
            subst same holds
            cases progress with
            | queued ticket => exact serves ticket rfl
            | running keys rest => rfl
          · cases holds

/-- Whoever cannot go on waits for a ticket of a source to come up. -/
theorem Future.progressAt_of_not_canGoOn {future : Future σ} {world : World σ}
    (cannot : future.canGoOn world = false) : ∃ watched progress,
      future.progressAt watched = some progress := by
  cases future with
  | flush id progress? => cases cannot
  | lazy rest =>
      cases rest with
      | start lazy => cases cannot
      | waiting key progress? next =>
          cases progress? with
          | none => cases cannot
          | some progress => exact ⟨key.id, progress, if_pos rfl⟩

namespace Schedule

variable {schedule next : Schedule σ} {steps : List (ParkedStep σ)}

theorem canGoOn_eq (schedule : Schedule σ) (parked : ParkedStep σ) :
    schedule.canGoOn parked = (schedule.future? parked).all (·.canGoOn schedule.world) := by
  unfold canGoOn future?
  cases parked.wait with
  | arguments key =>
      simp only
      cases schedule.arguments? parked.owner key with
      | none => rfl
      | some bag => cases bag <;> rfl
  | _ => rfl

/-- What a step drives forward is among all that is polled. -/
theorem mem_futures {parked : ParkedStep σ} {future : Future σ}
    (mem : parked ∈ schedule.parkedSteps) (drives : schedule.future? parked = some future) :
    future ∈ schedule.futures := by
  have own (waits : parked.wait.future? = some future) : future ∈ schedule.futures := by
    refine List.mem_append_left _ (List.mem_append_right _ ?_)
    exact List.mem_filterMap.mpr ⟨parked, mem, waits⟩
  unfold future? at drives
  cases wait : parked.wait with
  | arguments key =>
      rw [wait] at drives
      obtain ⟨bag, found, drives⟩ := Option.bind_eq_some_iff.mp drives
      obtain ⟨⟨job, run⟩, here, there⟩ := Option.bind_eq_some_iff.mp found
      obtain ⟨front, back, store, -⟩ := ArgumentStore.split_of_get? there
      refine List.mem_append_right _ (List.mem_flatMap.mpr ⟨_, List.mem_of_getElem? here, ?_⟩)
      refine List.mem_filterMap.mpr ⟨(key, bag), ?_, drives⟩
      show (key, bag) ∈ run.arguments
      rw [store]
      exact List.mem_append_right _ List.mem_cons_self
  | _ =>
      rw [wait] at drives
      exact own (wait ▸ drives)

/-- What has been polled is a fetch, or one of the steps drives it forward that it has been polled
for. -/
theorem PolledFor.drives (polled : schedule.PolledFor steps) {future : Future σ}
    (mem : future ∈ schedule.futures) {watched : SourceId} {progress : FetchProgress σ}
    (holds : future.progressAt watched = some progress) :
    (∃ flush ∈ schedule.phase.flushes, future = .flush flush.1 flush.2) ∨
      ∃ parked ∈ steps, schedule.future? parked = some future := by
  rcases List.mem_append.mp mem with mem | mem
  · rcases List.mem_append.mp mem with mem | mem
    · obtain ⟨flush, there, rfl⟩ := List.mem_map.mp mem
      exact .inl ⟨flush, there, rfl⟩
    · obtain ⟨parked, waits, own⟩ := List.mem_filterMap.mp mem
      obtain ⟨rest, all, fresh⟩ := polled.others
      refine .inr ⟨parked, ?_, ?_⟩
      · refine (List.mem_append.mp (all.mem_iff.mp waits)).resolve_right fun mem => ?_
        have nothing := fresh parked mem watched
        rw [Wait.progressAt_eq, own, Option.bind_some, holds] at nothing
        cases nothing
      · unfold future?
        cases wait : parked.wait with
        | arguments key =>
            rw [wait] at own
            cases own
        | _ =>
            rw [wait] at own
            exact own
  · obtain ⟨⟨job, run⟩, among, mem⟩ := List.mem_flatMap.mp mem
    obtain ⟨⟨key, bag⟩, there, drives⟩ := List.mem_filterMap.mp mem
    obtain ⟨owner, here⟩ := List.mem_iff_getElem?.mp among
    have bags := polled.bags owner job run here
    rcases bags.fresh _ there with fresh | ⟨parked, mem, rfl, wait⟩
    · have nothing := fresh watched
      rw [SharedArguments.progressAt_eq, show bag.future? = some future from drives,
        Option.bind_some, holds] at nothing
      cases nothing
    · refine .inr ⟨parked, mem, ?_⟩
      unfold future? arguments?
      rw [wait, here]
      simp only [Option.bind_some]
      rw [bags.distinct.get?_of_mem there]
      exact drives

/-- If a step that is attended to cannot go on, then another one can: it drives forward what is
served. -/
theorem PolledFor.exists_canGoOn (polled : schedule.PolledFor steps)
    (no_flush : schedule.phase.flushes = [])
    (tally : ∀ watched, ∃ book, Tally watched schedule.world (schedule.holds watched) book)
    {parked : ParkedStep σ} (mem : parked ∈ steps) :
    ∃ other ∈ steps, schedule.canGoOn other = true := by
  cases can : schedule.canGoOn parked with
  | true => exact ⟨parked, mem, can⟩
  | false =>
      rw [canGoOn_eq] at can
      cases drives : schedule.future? parked with
      | none =>
          rw [drives] at can
          cases can
      | some future =>
          rw [drives, Option.all_some] at can
          obtain ⟨watched, progress, holds⟩ := Future.progressAt_of_not_canGoOn can
          obtain ⟨rest, all, -⟩ := polled.others
          have parked_mem : parked ∈ schedule.parkedSteps :=
            all.mem_iff.mpr (List.mem_append_left _ mem)
          have held : progress ∈ schedule.holds watched := by
            rw [holds_eq]
            exact List.mem_filterMap.mpr ⟨future, mem_futures parked_mem drives, holds⟩
          obtain ⟨book, tally⟩ := tally watched
          obtain ⟨-, other, among, serves⟩ := tally.served held
          rw [holds_eq] at among
          obtain ⟨future', mem', holds'⟩ := List.mem_filterMap.mp among
          obtain ⟨parked', among', drives'⟩ := (polled.drives mem' holds').resolve_left <| by
            rw [no_flush]
            rintro ⟨flush, mem, -⟩
            exact List.not_mem_nil mem
          refine ⟨parked', among', ?_⟩
          rw [canGoOn_eq, drives']
          exact Future.canGoOn_of_serves holds' serves

end Schedule

end GraphExec
