import GraphExec.Proofs.Loading.Ledger
import GraphExec.Proofs.Run.Futures
import Mathlib.Data.List.Induction

/-!
# What a schedule loads

Each transition of a schedule enters something into the ledger of a source: ready steps run
application code, which asks for keys; fetches and what is awaited are polled; and when a root field
is released, all outcomes are forgotten. Whatever is entered, the ledger stays lawful and honest. As
no fetch goes on when a field is released, whoever is given an outcome afterwards is given that of a
fetch that began afterwards.
-/

namespace GraphExec

variable {σ : Type} {watched : SourceId}

namespace World

/-- What application code and the observer make of a world, and what that enters into the ledger of
a source. -/
inductive Works (watched : SourceId) : World σ → Ledger → World σ → Prop
  | idle (world : World σ) : Works watched world [] world
  | run {first last : World σ} {ledger : Ledger} (works : Works watched first ledger last)
      {α : Type} (action : Action σ α) :
      Works watched first (ledger ++ action.ledger watched last) (action.run last).2
  | tell {first last : World σ} {ledger : Ledger} (works : Works watched first ledger last)
      (event : Event) : Works watched first ledger (last.tell event)

namespace Works

variable {first second third : World σ} {entries more : Ledger}

theorem trans (one : Works watched first entries second) (two : Works watched second more third) :
    Works watched first (entries ++ more) third := by
  induction two with
  | idle => rwa [List.append_nil]
  | run _ action ih =>
      rw [← List.append_assoc]
      exact ih.run action
  | tell _ event ih => exact ih.tell event

theorem tallied (works : Works watched first entries second) {held : List (FetchProgress σ)}
    {book : SourceBook} (tally : Tally watched first held book) :
    Tallied watched book entries.events second held := by
  induction works with
  | idle => exact .none tally
  | run _ action ih =>
      rw [Ledger.events_append, Action.events_ledger]
      exact .append ih.lawful (action.tallied_run ih.tally)
  | tell _ event ih => exact ⟨ih.lawful, ih.tally.of_source?_eq rfl⟩

theorem kept (works : Works watched first entries second) {before : Ledger}
    (recorded : first.Recorded watched before) : Kept watched before entries second := by
  induction works with
  | idle => exact .none recorded
  | run _ action ih => exact .append ih.honest (action.kept_run ih.recorded)
  | tell _ event ih => exact ⟨ih.honest, ih.recorded.of_source?_eq rfl⟩

end Works

end World

/-- Whatever is done by a run is the work of application code and the observer. -/
instance : Throughout fun s t : Stage σ => ∃ entries, World.Works watched s.world entries t.world where
  refl s := ⟨_, .idle s.world⟩
  trans := fun ⟨_, one⟩ ⟨_, two⟩ => ⟨_, one.trans two⟩
  call action s := ⟨_, (World.Works.idle s.world).run action⟩
  tell event s := ⟨_, (World.Works.idle s.world).tell event⟩
  report _ s := ⟨_, .idle s.world⟩
  count _ s := ⟨_, .idle s.world⟩
  draft _ s := ⟨_, .idle s.world⟩
  steps _ _ s := ⟨_, .idle s.world⟩

instance : Starts fun s t : Stage σ => ∃ entries, World.Works watched s.world entries t.world where
  start _ _ s _ := ⟨_, .idle s.world⟩

/-! ### Fetches for a bucket -/

theorem filterMap_cons_toList {α β : Type*} (f : α → Option β) (first : α) (rest : List α) :
    (first :: rest).filterMap f = (f first).toList ++ rest.filterMap f := by
  rw [List.filterMap_cons]
  cases f first <;> rfl

namespace World

/-- What polling fetches enters into the ledger of a source. -/
def flushLedger (watched : SourceId) : List (Flush σ) → World σ → Ledger
  | [], _ => []
  | flush :: rest, world =>
    (Future.flush flush.1 flush.2).ledger watched world ++
      flushLedger watched rest ((Future.flush flush.1 flush.2).poll world).2

/-- The first fetch is polled, and then the others. -/
theorem pollFlushes_left (watched : SourceId) (flush : Flush σ) (rest : List (Flush σ)) (world : World σ) :
    (pollFlushes (flush :: rest) world).2 =
        (pollFlushes rest ((Future.flush flush.1 flush.2).poll world).2).2 ∧
      (pollFlushes (flush :: rest) world).1.filterMap (Flush.progressAt watched) =
        (((Future.flush flush.1 flush.2).poll world).1.bind (Future.progressAt watched)).toList ++
          (pollFlushes rest ((Future.flush flush.1 flush.2).poll world).2).1.filterMap
            (Flush.progressAt watched) := by
  obtain ⟨id, progress?⟩ := flush
  have goes_on : ∀ (progress : FetchProgress σ) (others : List (Flush σ)),
      ((id, some progress) :: others).filterMap (Flush.progressAt watched) =
        ((Future.flush id (some progress)).progressAt watched).toList ++
          others.filterMap (Flush.progressAt watched) :=
    fun progress others => filterMap_cons_toList _ _ _
  cases progress? with
  | none =>
      rcases begun : beginFetch id world with ⟨⟨⟨⟩⟩ | progress, after⟩
      · simp only [pollFlushes, bind, StateT.bind, begun, Future.poll]
        exact ⟨rfl, rfl⟩
      · simp only [pollFlushes, bind, StateT.bind, begun, Future.poll]
        exact ⟨rfl, goes_on progress _⟩
  | some before =>
      rcases resumed : resumeFetch id before world with ⟨⟨⟨⟩⟩ | progress, after⟩
      · simp only [pollFlushes, bind, StateT.bind, resumed, Future.poll]
        exact ⟨rfl, rfl⟩
      · simp only [pollFlushes, bind, StateT.bind, resumed, Future.poll]
        exact ⟨rfl, goes_on progress _⟩

theorem tallied_pollFlushes (flushes : List (Flush σ)) :
    ∀ {world : World σ} {book : SourceBook} {others : List (FetchProgress σ)},
      Tally watched world (flushes.filterMap (Flush.progressAt watched) ++ others) book →
      Tallied watched book (flushLedger watched flushes world).events (pollFlushes flushes world).2
        ((pollFlushes flushes world).1.filterMap (Flush.progressAt watched) ++ others) := by
  induction flushes with
  | nil => exact fun tally => .none tally
  | cons flush rest ih =>
      intro world book others tally
      obtain ⟨after, left⟩ := pollFlushes_left watched flush rest world
      let future : Future σ := .flush flush.1 flush.2
      rw [filterMap_cons_toList, List.append_assoc] at tally
      have polled : Tallied watched book (future.account watched world) (future.poll world).2
          (((future.poll world).1.bind (Future.progressAt watched)).toList ++
            (rest.filterMap (Flush.progressAt watched) ++ others)) := future.tallied_poll tally
      have reordered : Tally watched (future.poll world).2
          (rest.filterMap (Flush.progressAt watched) ++
            (((future.poll world).1.bind (Future.progressAt watched)).toList ++ others))
          (book.enterAll (future.account watched world)) :=
        polled.tally.held_perm (List.perm_append_comm_assoc _ _ _)
      have behind := ih reordered
      rw [after, left, flushLedger, Ledger.events_append, Future.events_ledger, List.append_assoc]
      exact .append polled.lawful
        ⟨behind.lawful, behind.tally.held_perm (List.perm_append_comm_assoc _ _ _)⟩

theorem kept_pollFlushes (flushes : List (Flush σ)) :
    ∀ {world : World σ} {book : SourceBook} {others : List (FetchProgress σ)} {before : Ledger},
      world.Recorded watched before →
      Tally watched world (flushes.filterMap (Flush.progressAt watched) ++ others) book →
      Kept watched before (flushLedger watched flushes world) (pollFlushes flushes world).2 := by
  induction flushes with
  | nil => exact fun recorded _ => .none recorded
  | cons flush rest ih =>
      intro world book others before recorded tally
      obtain ⟨after, -⟩ := pollFlushes_left watched flush rest world
      let future : Future σ := .flush flush.1 flush.2
      rw [filterMap_cons_toList, List.append_assoc] at tally
      have polled := future.tallied_poll tally
      have kept := future.kept_poll recorded tally
      have reordered : Tally watched (future.poll world).2
          (rest.filterMap (Flush.progressAt watched) ++
            (((future.poll world).1.bind (Future.progressAt watched)).toList ++ others))
          (book.enterAll (future.account watched world)) :=
        polled.tally.held_perm (List.perm_append_comm_assoc _ _ _)
      rw [after, flushLedger]
      exact .append kept.honest (ih kept.recorded reordered)

/-- Fetches that are due hold nothing yet. -/
theorem dueFetches_fresh (world : World σ) :
    world.dueFetches.filterMap (Flush.progressAt watched) = [] := by
  refine List.filterMap_eq_nil_iff.mpr fun flush mem => ?_
  obtain ⟨entry, -, rfl⟩ := List.mem_map.mp mem
  show (if entry.1 = watched then none else none) = none
  split <;> rfl

/-- Nothing is known when all outcomes have been forgotten. -/
theorem recorded_clearCache (world : World σ) (before : Ledger) :
    world.clearCache.Recorded watched before := by
  intro state found key said known
  rw [source?_clearCache, Option.map_eq_some_iff] at found
  obtain ⟨old, -, rfl⟩ := found
  cases known

end World

/-! ### The transitions of a schedule -/

/-- What a wait for an answer of its own drives forward. -/
def Wait.future? : Wait σ → Option (Future σ)
  | .value rest => some (.lazy rest)
  | .type rest => some (.lazy rest)
  | .authorization rest => some (.lazy rest)
  | .directive rest => some (.lazy rest)
  | .arguments _ => none

/-- What a bag of arguments that is not there drives forward. -/
def SharedArguments.future? : SharedArguments σ → Option (Future σ)
  | .ready _ => none
  | .pending rest => some (.lazy rest)

section

variable {rest rest' : Pending σ ArgumentsResult} {result : ArgumentsResult} {world after : World σ}

theorem SharedArguments.poll_ready (polled : rest.poll world = (.ready result, after)) :
    (SharedArguments.pending rest).poll.run world = (.ready result, after) := by
  simp only [poll, bind, StateT.bind, StateT.run, polled]
  rfl

theorem SharedArguments.poll_pending (polled : rest.poll world = (.pending rest', after)) :
    (SharedArguments.pending rest).poll.run world = (.pending rest', after) := by
  simp only [poll, bind, StateT.bind, StateT.run, polled]
  rfl

end

namespace Schedule

variable {schedule next : Schedule σ}

/-- What a poll of a parked step drives forward: what it waits for, or the bag of its run. -/
def future? (schedule : Schedule σ) (parked : ParkedStep σ) : Option (Future σ) :=
  match parked.wait with
  | .arguments key => (schedule.arguments? parked.owner key).bind SharedArguments.future?
  | wait => wait.future?

/-- What a poll of a parked step enters into the ledger of a source. -/
def pollLedger (watched : SourceId) (schedule : Schedule σ) (parked : ParkedStep σ) : Ledger :=
  match schedule.future? parked with
  | some future => future.ledger watched schedule.world
  | none => []

/-- What a transition of a schedule enters into the ledger of a source: what application code and
the observer enter that are run, what polls enter, and that outcomes are forgotten. -/
def Enters (watched : SourceId) (schedule : Schedule σ) (entries : Ledger) (next : Schedule σ) :
    Prop :=
  match schedule.phase with
  | .draining owner =>
    match schedule.runs[owner]? with
    | none => entries = []
    | some (_, run) =>
      match run.ready, run.held with
      | _ :: _, _ => World.Works watched schedule.world entries next.world
      | [], _ :: _ => entries = if run.parked = 0 then [LoadEvent.cleared] else []
      | [], [] => entries = []
  | .flushing _ flushes => entries = World.flushLedger watched flushes schedule.world
  | .awaiting bucket (place :: _) =>
    match bucket[place]? with
    | some (.waiting parked) => entries = schedule.pollLedger watched parked
    | _ => entries = []
  | .awaiting _ [] => entries = []

section
variable {watched : SourceId} {entries : Ledger} {owner : Nat} {job : Job σ} {run : Run σ}

theorem enters_ready {step : Step σ} {ready : List (Step σ)}
    (phase : schedule.phase = .draining owner) (here : schedule.runs[owner]? = some (job, run))
    (first : run.ready = step :: ready) :
    schedule.Enters watched entries next ↔
      World.Works watched schedule.world entries next.world := by
  simp only [Enters, phase, here, first]

theorem enters_released {step : Step σ} {held : List (Step σ)}
    (phase : schedule.phase = .draining owner) (here : schedule.runs[owner]? = some (job, run))
    (idle : run.ready = []) (first : run.held = step :: held) (none_parked : run.parked = 0) :
    schedule.Enters watched entries next ↔ entries = [LoadEvent.cleared] := by
  simp only [Enters, phase, here, idle, first, if_pos none_parked]

theorem enters_passed (phase : schedule.phase = .draining owner)
    (here : schedule.runs[owner]? = some (job, run)) (idle : run.ready = [])
    (waits : run.held = [] ∨ run.parked ≠ 0) :
    schedule.Enters watched entries next ↔ entries = [] := by
  simp only [Enters, phase, here, idle]
  cases first : run.held with
  | nil => rfl
  | cons step held =>
      simp only [if_neg (waits.resolve_left (by rw [first]; nofun))]

end

/-- Every transition enters something, be it nothing. -/
theorem enters_of_step (watched : SourceId) (turn : schedule.step = .again next) :
    ∃ entries, schedule.Enters watched entries next := by
  cases goesOn_of_step turn with
  | @advanced owner job run step ready progress s phase here first gives =>
      obtain ⟨entries, works⟩ : ∃ entries, World.Works watched schedule.world entries s.world :=
        step.keeps_advance
          (R := fun s t => ∃ entries, World.Works watched s.world entries t.world) _ _ _ gives
      refine ⟨entries, (enters_ready phase here first).mpr ?_⟩
      cases progress <;> exact works
  | released phase here idle first none_parked =>
      exact ⟨_, (enters_released phase here idle first none_parked).mpr rfl⟩
  | passed phase here idle waits => exact ⟨_, (enters_passed phase here idle waits).mpr rfl⟩
  | taken phase none_left => simp only [Enters, phase, none_left, exists_eq]
  | fetching phase | fetched phase | linedUp phase | resumed phase =>
      simp only [Enters, phase, exists_eq]
  | polled phase =>
      simp only [Enters, phase]
      split <;> exact ⟨_, rfl⟩

end Schedule

/-! ### What is held -/

theorem Wait.progressAt_eq (watched : SourceId) (wait : Wait σ) :
    wait.progressAt watched = wait.future?.bind (Future.progressAt watched) := by
  cases wait <;> rfl

theorem SharedArguments.progressAt_eq (watched : SourceId) (bag : SharedArguments σ) :
    bag.progressAt watched = bag.future?.bind (Future.progressAt watched) := by
  cases bag <;> rfl

/-- What the bags of a store drive forward that are not there. -/
def ArgumentStore.futures (store : ArgumentStore σ) : List (Future σ) :=
  store.filterMap fun entry => entry.2.future?

namespace Schedule

/-- What the bags of arguments of runs drive forward. -/
def bagFutures (runs : List (Job σ × Run σ)) : List (Future σ) :=
  runs.flatMap fun entry => entry.2.arguments.futures

/-- All that a schedule polls. -/
def futures (schedule : Schedule σ) : List (Future σ) :=
  (schedule.phase.flushes.map fun flush => .flush flush.1 flush.2) ++
    schedule.parkedSteps.filterMap (·.wait.future?) ++ bagFutures schedule.runs

variable {schedule next : Schedule σ}

theorem holds_bags (watched : SourceId) (runs : List (Job σ × Run σ)) :
    (runs.flatMap fun entry => entry.2.arguments.holds watched) =
      (bagFutures runs).filterMap (Future.progressAt watched) := by
  unfold bagFutures
  rw [List.filterMap_flatMap]
  congr 1
  funext entry
  unfold ArgumentStore.holds ArgumentStore.futures
  rw [List.filterMap_filterMap]
  exact List.filterMap_congr fun other _ => SharedArguments.progressAt_eq watched other.2

/-- What is held of a source is held by what is polled. -/
theorem holds_eq (watched : SourceId) (schedule : Schedule σ) :
    schedule.holds watched = schedule.futures.filterMap (Future.progressAt watched) := by
  unfold holds futures
  rw [List.filterMap_append, List.filterMap_append, List.filterMap_map, List.filterMap_filterMap,
    holds_bags]
  congr 2
  exact List.filterMap_congr fun parked _ => Wait.progressAt_eq watched parked.wait

/-- What the steps that wait drive forward, but for one place of the bucket. -/
def elsewhere (front back : List (Awaited σ)) (buckets : Buckets σ) : List (Future σ) :=
  ((front ++ back).filterMap Awaited.waiting? ++ buckets.flatMap (·.2)).filterMap (·.wait.future?)

theorem futures_awaiting {front back : List (Awaited σ)} {x : Awaited σ} {line : List Nat}
    (phase : schedule.phase = .awaiting (front ++ x :: back) line) :
    schedule.futures.Perm ((x.waiting?.bind (·.wait.future?)).toList ++
      (elsewhere front back schedule.buckets ++ bagFutures schedule.runs)) := by
  have no_flush : schedule.phase.flushes = [] := by rw [phase]; rfl
  have waiting : schedule.parkedSteps.Perm (x.waiting?.toList ++
      ((front ++ back).filterMap Awaited.waiting? ++ schedule.buckets.flatMap (·.2))) := by
    unfold parkedSteps
    rw [phase, ← List.append_assoc]
    refine List.Perm.append_right _ ?_
    rw [← filterMap_cons_toList]
    exact List.perm_middle.filterMap _
  unfold futures
  rw [no_flush, List.map_nil, List.nil_append, ← List.append_assoc]
  refine ((waiting.filterMap _).trans (.of_eq ?_)).append_right _
  rw [List.filterMap_append]
  cases x.waiting? with
  | none => rfl
  | some parked =>
      rw [Option.toList_some, filterMap_cons_toList, List.filterMap_nil, List.append_nil]
      rfl

theorem runs_split {owner : Nat} {job : Job σ} {run : Run σ}
    (found : schedule.runs[owner]? = some (job, run)) :
    ∃ front back, schedule.runs = front ++ (job, run) :: back ∧
      ∀ f, (schedule.modifyRun owner f).runs = front ++ (job, f run) :: back := by
  obtain ⟨bound, here⟩ := List.getElem?_eq_some_iff.mp found
  refine ⟨schedule.runs.take owner, schedule.runs.drop (owner + 1), ?_, fun f => ?_⟩
  · rw [← here]
    exact (List.take_append_drop owner schedule.runs).symm.trans
      (congrArg _ (List.drop_eq_getElem_cons bound))
  · unfold modifyRun
    rw [List.modify_eq_take_cons_drop bound, here]

/-- What the bags of one run drive forward, and those of the others. -/
theorem bagFutures_split (front back : List (Job σ × Run σ)) (job : Job σ) (run : Run σ) :
    (bagFutures (front ++ (job, run) :: back)).Perm
      (run.arguments.futures ++ bagFutures (front ++ back)) := by
  unfold bagFutures
  rw [List.flatMap_append, List.flatMap_cons, List.flatMap_append]
  exact List.perm_append_comm_assoc _ _ _

/-- What a bag of a store drives forward, and the others. -/
theorem futures_split (front back : ArgumentStore σ) (key : ArgumentKey)
    (bag : SharedArguments σ) : (ArgumentStore.futures (front ++ (key, bag) :: back)).Perm
      (bag.future?.toList ++ ArgumentStore.futures (front ++ back)) := by
  unfold ArgumentStore.futures
  refine (List.perm_middle.filterMap _).trans (.of_eq ?_)
  exact filterMap_cons_toList _ _ _

/-- A bag of a run is driven forward. -/
theorem bagFutures_insert {owner : Nat} {job : Job σ} {run : Run σ} {key : ArgumentKey}
    {bag : SharedArguments σ} (found : schedule.runs[owner]? = some (job, run))
    (there : run.arguments.get? key = some bag) :
    ∃ others, (bagFutures schedule.runs).Perm (bag.future?.toList ++ others) ∧
      ∀ bag', (bagFutures (schedule.modifyRun owner fun run =>
          { run with arguments := run.arguments.insert key bag' }).runs).Perm
        (bag'.future?.toList ++ others) := by
  obtain ⟨front, back, split, modified⟩ := runs_split found
  obtain ⟨before, behind, store, put⟩ := ArgumentStore.split_of_get? there
  refine ⟨ArgumentStore.futures (before ++ behind) ++ bagFutures (front ++ back), ?_,
    fun bag' => ?_⟩
  · rw [split, ← List.append_assoc]
    refine (bagFutures_split front back job run).trans (List.Perm.append_right _ ?_)
    rw [store]
    exact futures_split before behind key bag
  · rw [modified, ← List.append_assoc]
    refine (bagFutures_split front back job _).trans (List.Perm.append_right _ ?_)
    show (ArgumentStore.futures (run.arguments.insert key bag')).Perm _
    rw [put]
    exact futures_split before behind key bag'

/-- The world after a poll of a parked step. -/
def worldAfter (schedule : Schedule σ) (parked : ParkedStep σ) : World σ :=
  match schedule.future? parked with
  | some future => (future.poll schedule.world).2
  | none => schedule.world

/-- What a poll of a parked step leaves of what it drives forward. -/
def left? (schedule : Schedule σ) (parked : ParkedStep σ) : Option (Future σ) :=
  (schedule.future? parked).bind fun future => (future.poll schedule.world).1

/-- A poll of a parked step is one of what it drives forward; nothing else is touched. -/
def PollsFuture (schedule : Schedule σ) (front back : List (Awaited σ)) (parked : ParkedStep σ)
    (line : List Nat) : Prop :=
  (schedule.poll parked).2.world = schedule.worldAfter parked ∧ ∃ others,
    schedule.futures.Perm ((schedule.future? parked).toList ++ others) ∧
    (futures { (schedule.poll parked).2 with
        phase := .awaiting (front ++ (schedule.poll parked).1 :: back) line }).Perm
      ((schedule.left? parked).toList ++ others)

section
variable {front back : List (Awaited σ)} {parked : ParkedStep σ} {line : List Nat}

/-- A step that waits for a value of its own holds the future of it. -/
theorem pollsFuture_own (phase : schedule.phase = .awaiting (front ++ .waiting parked :: back) line)
    (line' : List Nat) {α : Type} {rest : Pending σ α} {answer : α → Resumption σ}
    {wait : Pending σ α → Wait σ} (waits : parked.wait = wait rest)
    (same : ∀ rest, (wait rest).future? = some (.lazy rest))
    (drives : schedule.future? parked = some (.lazy rest))
    (polls : schedule.poll parked = schedule.pollBy parked rest answer wait) :
    schedule.PollsFuture front back parked line' := by
  have before := futures_awaiting phase
  unfold PollsFuture
  rw [polls]
  unfold worldAfter left? pollBy
  rw [drives]
  let others := elsewhere front back schedule.buckets ++ bagFutures schedule.runs
  rcases polled : rest.poll schedule.world with ⟨result | rest', world⟩
  · have now : rest.poll.run schedule.world = (.ready result, world) := polled
    simp only [now, Option.bind_some, Future.poll, polled]
    refine ⟨trivial, others, before.trans (.of_eq ?_), (futures_awaiting rfl).trans (.of_eq ?_)⟩
    · simp [others, Awaited.waiting?, waits, same]
    · simp [others, Awaited.waiting?]
  · have now : rest.poll.run schedule.world = (.pending rest', world) := polled
    simp only [now, Option.bind_some, Future.poll, polled]
    refine ⟨trivial, others, before.trans (.of_eq ?_), (futures_awaiting rfl).trans (.of_eq ?_)⟩
    · simp [others, Awaited.waiting?, waits, same]
    · simp [others, Awaited.waiting?, same]

/-- A step that waits for a bag of arguments holds nothing itself: its run holds the bag. -/
theorem pollsFuture_bag (phase : schedule.phase = .awaiting (front ++ .waiting parked :: back) line)
    (line' : List Nat) {key : ArgumentKey} (wait : parked.wait = .arguments key) :
    schedule.PollsFuture front back parked line' := by
  have before := futures_awaiting phase
  have no_wait : (Awaited.waiting parked).waiting?.bind (·.wait.future?) = none := by
    simp [Awaited.waiting?, wait, Wait.future?]
  rw [no_wait] at before
  have drives : schedule.future? parked =
      (schedule.arguments? parked.owner key).bind SharedArguments.future? := by
    simp [future?, wait]
  unfold PollsFuture worldAfter left? Schedule.poll
  rw [drives]
  simp only [wait]
  cases found : schedule.arguments? parked.owner key with
  | none =>
      refine ⟨rfl, _, before, (futures_awaiting rfl).trans (.of_eq ?_)⟩
      rw [no_wait]
      rfl
  | some bag =>
      obtain ⟨⟨job, run⟩, here, there⟩ := Option.bind_eq_some_iff.mp found
      obtain ⟨others, bags, insert⟩ := bagFutures_insert here there
      have gather : ∀ {own bags : List (Future σ)}, bags.Perm (own ++ others) →
          (elsewhere front back schedule.buckets ++ bags).Perm
            (own ++ (elsewhere front back schedule.buckets ++ others)) :=
        fun bags => (bags.append_left _).trans (List.perm_append_comm_assoc _ _ _)
      cases bag with
      | ready result =>
          refine ⟨rfl, _, before.trans (gather bags), (futures_awaiting rfl).trans ?_⟩
          exact gather (insert (.ready result))
      | pending rest =>
          simp only [Option.bind_some, SharedArguments.future?, Future.poll]
          rcases polled : rest.poll schedule.world with ⟨result | rest', world⟩
          · simp only [SharedArguments.poll_ready polled]
            refine ⟨rfl, _, before.trans (gather bags), (futures_awaiting rfl).trans ?_⟩
            exact gather (insert (.ready result))
          · simp only [SharedArguments.poll_pending polled]
            refine ⟨rfl, _, before.trans (gather bags), (futures_awaiting rfl).trans ?_⟩
            rw [show SharedArguments.result? (.pending rest' : SharedArguments σ) = none from rfl]
            simp only [no_wait]
            exact gather (insert (.pending rest'))

theorem futures_poll (phase : schedule.phase = .awaiting (front ++ .waiting parked :: back) line)
    (line' : List Nat) : schedule.PollsFuture front back parked line' := by
  obtain ⟨owner, step, wait⟩ := parked
  cases wait with
  | value rest | type rest | authorization rest | directive rest =>
      exact pollsFuture_own phase line' rfl (fun _ => rfl) rfl rfl
  | arguments key => exact pollsFuture_bag phase line' rfl

end

/-- What is held of a source by all that a poll does not drive forward stays held. -/
theorem holds_poll (watched : SourceId) {front back : List (Awaited σ)} {parked : ParkedStep σ}
    {line : List Nat} (phase : schedule.phase = .awaiting (front ++ .waiting parked :: back) line)
    (line' : List Nat) :
    (schedule.poll parked).2.world = schedule.worldAfter parked ∧ ∃ others,
      (schedule.holds watched).Perm
        (((schedule.future? parked).bind (Future.progressAt watched)).toList ++ others) ∧
      (holds watched { (schedule.poll parked).2 with
          phase := .awaiting (front ++ (schedule.poll parked).1 :: back) line' }).Perm
        (((schedule.left? parked).bind (Future.progressAt watched)).toList ++ others) := by
  obtain ⟨world, others, before, after⟩ := futures_poll phase line'
  have held (future? : Option (Future σ)) :
      (future?.toList ++ others).filterMap (Future.progressAt watched) =
        (future?.bind (Future.progressAt watched)).toList ++
          others.filterMap (Future.progressAt watched) := by
    cases future? with
    | none => rfl
    | some future => exact filterMap_cons_toList _ _ _
  refine ⟨world, others.filterMap (Future.progressAt watched), ?_, ?_⟩
  · rw [holds_eq, ← held]
    exact before.filterMap _
  · rw [holds_eq, ← held]
    exact after.filterMap _

/-! ### The ledger of a schedule -/

/-- A ledger of a source, begun with what a book says, accounts for what a schedule knows and holds
of the source. -/
structure Accounts (watched : SourceId) (book : SourceBook) (ledger : Ledger)
    (schedule : Schedule σ) : Prop where
  tallied : Tallied watched book ledger.events schedule.world (schedule.holds watched)
  kept : Kept watched [] ledger schedule.world

namespace Accounts

variable {book : SourceBook} {ledger entries : Ledger}

theorem enter (accounts : Accounts watched book ledger schedule)
    (tallied : Tallied watched (book.enterAll ledger.events) entries.events next.world
      (next.holds watched))
    (kept : Kept watched ledger entries next.world) :
    Accounts watched book (ledger ++ entries) next where
  tallied := by
    rw [Ledger.events_append]
    exact .append accounts.tallied.lawful tallied
  kept := .append accounts.kept.honest kept

/-- A transition that does not touch a source. -/
theorem aside (accounts : Accounts watched book ledger schedule)
    (world : next.world = schedule.world)
    (holds : (schedule.holds watched).Perm (next.holds watched)) :
    Accounts watched book (ledger ++ []) next :=
  accounts.enter (.none (world ▸ accounts.tallied.tally.held_perm holds))
    (.none (world ▸ accounts.kept.recorded))

theorem flush (accounts : Accounts watched book ledger schedule)
    {bucket : List (ParkedStep σ)} {flushes : List (World.Flush σ)}
    (phase : schedule.phase = .flushing bucket flushes) :
    Accounts watched book (ledger ++ World.flushLedger watched flushes schedule.world)
      { schedule with
        world := ((World.pollFlushes flushes).run schedule.world).2
        phase := .flushing bucket ((World.pollFlushes flushes).run schedule.world).1 } := by
  have tally := accounts.tallied.tally
  have held : schedule.holds watched = flushes.filterMap (World.Flush.progressAt watched) ++
      ((schedule.parkedSteps.filterMap fun parked => parked.wait.progressAt watched) ++
        schedule.runs.flatMap fun entry => entry.2.arguments.holds watched) := by
    unfold Schedule.holds
    rw [phase, List.append_assoc]
    rfl
  rw [held] at tally
  refine accounts.enter ?_ (World.kept_pollFlushes flushes accounts.kept.recorded tally)
  have polled := World.tallied_pollFlushes flushes tally
  refine ⟨polled.lawful, polled.tally.held_perm (.of_eq ?_)⟩
  unfold Schedule.holds parkedSteps
  rw [phase, List.append_assoc]
  rfl

/-- A poll of a parked step keeps the account. -/
theorem poll (accounts : Accounts watched book ledger schedule) {front back : List (Awaited σ)}
    {parked : ParkedStep σ} {line line' : List Nat}
    (phase : schedule.phase = .awaiting (front ++ .waiting parked :: back) line) :
    Accounts watched book (ledger ++ schedule.pollLedger watched parked)
      { (schedule.poll parked).2 with
        phase := .awaiting (front ++ (schedule.poll parked).1 :: back) line' } := by
  obtain ⟨world, others, before, after⟩ := holds_poll watched phase line'
  have tally := accounts.tallied.tally.held_perm before
  unfold worldAfter at world
  unfold left? at after
  unfold pollLedger
  cases drives : schedule.future? parked with
  | none =>
      rw [drives] at world before after
      exact accounts.aside world (before.trans after.symm)
  | some future =>
      rw [drives] at world after tally
      rw [Option.bind_some] at tally after
      have tallied := future.tallied_poll tally
      have kept := future.kept_poll accounts.kept.recorded tally
      rw [← show (schedule.poll parked).2.world = (future.poll schedule.world).2 from world]
        at tallied kept
      rw [← Future.events_ledger] at tallied
      exact accounts.enter ⟨tallied.lawful, tallied.tally.held_perm after.symm⟩ kept

theorem pollAt (accounts : Accounts watched book ledger schedule)
    {bucket : List (Awaited σ)} {place : Nat} {line : List Nat}
    (phase : schedule.phase = .awaiting bucket (place :: line))
    (enters : schedule.Enters watched entries (schedule.pollAt bucket place line)) :
    Accounts watched book (ledger ++ entries) (schedule.pollAt bucket place line) := by
  unfold Enters at enters
  simp only [phase] at enters
  rcases schedule.pollAt_cases bucket place line with
    ⟨parked, front, back, line', found, rfl, same⟩ | ⟨nobody, same⟩
  · simp only [found] at enters
    subst enters
    rw [same]
    exact accounts.poll phase
  · split at enters
    · exact absurd ‹_› (nobody _)
    · subst enters
      rw [same]
      refine accounts.aside rfl (.of_eq ?_)
      unfold Schedule.holds parkedSteps
      rw [phase]
      rfl

/-- Every transition of a schedule keeps the account. -/
theorem step (accounts : Accounts watched book ledger schedule) (quiet : schedule.Quiet)
    (turn : schedule.step = .again next) (enters : schedule.Enters watched entries next) :
    Accounts watched book (ledger ++ entries) next := by
  have quiet' : next.Quiet := quiet.step turn
  -- Nothing that is polled is left when ready steps are run: it is held before and after.
  have still {owner other : Nat} (phase : schedule.phase = .draining owner)
      (phase' : next.phase = .draining other) :
      (schedule.holds watched).Perm (next.holds watched) := by
    rw [quiet.holds_draining phase watched, quiet'.holds_draining phase' watched]
  cases goesOn_of_step turn with
  | @advanced owner job run step ready progress s phase here first =>
      rw [enters_ready phase here first] at enters
      have phase' : ((({ schedule with world := s.world } : Schedule σ).modifyRun owner
          fun _ => s.run).place owner progress).phase = .draining owner := by
        cases progress <;> exact phase
      have tally := accounts.tallied.tally.held_perm (still phase phase')
      exact accounts.enter (enters.tallied tally) (enters.kept accounts.kept.recorded)
  | released phase here idle first none_parked =>
      obtain rfl := (enters_released phase here idle first none_parked).mp enters
      refine accounts.enter ⟨⟨trivial, trivial⟩, ?_⟩ ⟨⟨(fun k o same => by cases same), trivial⟩, ?_⟩
      · exact (accounts.tallied.tally.held_perm (still phase phase)).clear
      · exact World.recorded_clearCache _ _
  | passed phase here idle waits =>
      obtain rfl := (enters_passed phase here idle waits).mp enters
      exact accounts.aside rfl (still phase rfl)
  | taken phase none_left first =>
      simp only [Enters, phase, none_left] at enters
      subst enters
      refine accounts.aside rfl (.of_eq ?_)
      unfold Schedule.holds parkedSteps
      rw [phase, first]
      simp only [Phase.flushes, Phase.waiting, World.dueFetches_fresh]
      rfl
  | fetching phase =>
      simp only [Enters, phase] at enters
      exact enters ▸ accounts.flush phase
  | fetched phase =>
      simp only [Enters, phase] at enters
      subst enters
      refine accounts.aside rfl (.of_eq ?_)
      unfold Schedule.holds parkedSteps
      rw [phase]
      simp only [Phase.waiting, waiting_awaiting]
      rfl
  | polled phase => exact accounts.pollAt phase enters
  | linedUp phase =>
      simp only [Enters, phase] at enters
      subst enters
      refine accounts.aside rfl (.of_eq ?_)
      unfold Schedule.holds parkedSteps
      rw [phase]
      rfl
  | resumed phase found resumes =>
      simp only [Enters, phase] at enters
      subst enters
      obtain ⟨world, phase', -⟩ := resumeAll_eq _ resumes
      refine accounts.aside world (.of_eq ?_)
      rw [quiet'.holds_draining phase' watched]
      refine quiet.holds_eq_nil ?_ ?_ watched
      · rw [phase]
        rfl
      · rw [phase]
        exact (own_answers 0 found).1

end Accounts

/-- What is entered on the way from one schedule to another. -/
inductive Logged (watched : SourceId) (first : Schedule σ) : Ledger → Schedule σ → Prop
  | start : Logged watched first [] first
  | step {middle last : Schedule σ} {ledger entries : Ledger}
      (logged : Logged watched first ledger middle) (turn : middle.step = .again last)
      (enters : middle.Enters watched entries last) : Logged watched first (ledger ++ entries) last

variable {first last : Schedule σ} {book : SourceBook} {before ledger : Ledger}

/-- Something has been entered, whatever a schedule has gone through. -/
theorem Visits.logged (visits : first.Visits last) (watched : SourceId) :
    ∃ ledger, first.Logged watched ledger last := by
  induction visits with
  | start => exact ⟨_, .start⟩
  | step _ turn ih =>
      obtain ⟨ledger, logged⟩ := ih
      obtain ⟨entries, enters⟩ := enters_of_step watched turn
      exact ⟨_, logged.step turn enters⟩

theorem Logged.accounts (logged : first.Logged watched ledger last) (quiet : first.Quiet)
    (accounts : Accounts watched book before first) :
    last.Quiet ∧ Accounts watched book (before ++ ledger) last := by
  induction logged with
  | start => exact ⟨quiet, (List.append_nil before).symm ▸ accounts⟩
  | step _ turn enters ih =>
      obtain ⟨quiet, accounts⟩ := ih
      rw [← List.append_assoc]
      exact ⟨quiet.step turn, accounts.step quiet turn enters⟩

end Schedule

/-! ### After a field is released -/

/-- Nobody has a fetch in flight who holds nothing. -/
theorem Seating.idle_of_nobody {turns : Turns} {inFlight : Option (List String)}
    (seating : Seating turns ([] : List (FetchProgress σ)) inFlight) : inFlight = none := by
  cases seating with
  | idle next => rfl
  | called distinct drawn seats => rfl
  | serving rest distinct drawn seats => exact absurd seats.length_eq nofun

theorem Tally.idle_of_nobody {world : World σ} {book : SourceBook}
    (tally : Tally watched world [] book) : book.inFlight = none := by
  cases found : world.source? watched with
  | none =>
      rw [(tally.of_none found).2]
      rfl
  | some state => exact (tally.of_some found).2.2.idle_of_nobody

namespace Ledger

/-- A fetch that was begun and has ended said an outcome of a key. -/
def Fetches (ledger : Ledger) (key : String) (said : LoadOutcome) : Prop :=
  ∃ (begun during later : Ledger) (keys : List String) (name : String)
    (outcome : Except ExecutionError (List Value)),
    ledger = begun ++ .fetched keys :: (during ++ .answered name keys outcome :: later) ∧
      (∀ event ∈ during, ∀ keys, event.event? ≠ some (.fetched keys) ∧
        event.event? ≠ some (.answered keys)) ∧
      SourceState.Says name keys outcome key said

/-- A fetch that goes on was begun. -/
theorem begun_of_inFlight {book : SourceBook} (idle : book.inFlight = none) {keys : List String}
    (ledger : Ledger) : (book.enterAll ledger.events).inFlight = some keys →
      ∃ begun during, ledger = begun ++ .fetched keys :: during ∧
        ∀ event ∈ during, ∀ keys, event.event? ≠ some (.fetched keys) ∧
          event.event? ≠ some (.answered keys) := by
  induction ledger using List.reverseRecOn with
  | nil =>
      intro goes_on
      cases idle.symm.trans goes_on
  | append_singleton ledger event ih =>
      intro goes_on
      have quiet : (book.enterAll (events ledger)).inFlight = some keys →
          (∀ keys, event.event? ≠ some (.fetched keys) ∧ event.event? ≠ some (.answered keys)) →
          ∃ begun during, ledger ++ [event] = begun ++ .fetched keys :: during ∧
            ∀ event ∈ during, ∀ keys, event.event? ≠ some (.fetched keys) ∧
              event.event? ≠ some (.answered keys) := by
        intro still silent
        obtain ⟨begun, during, rfl, none_else⟩ := ih still
        refine ⟨begun, during ++ [event], by simp, fun other mem => ?_⟩
        rcases List.mem_append.mp mem with mem | mem
        · exact none_else other mem
        · exact List.mem_singleton.mp mem ▸ silent
      rw [events_append, SourceBook.enterAll_append] at goes_on
      cases event with
      | asked key =>
          refine quiet ?_ fun _ => by simp [LoadEvent.event?]
          simp only [events, List.filterMap_cons, LoadEvent.event?, List.filterMap_nil,
            SourceBook.enterAll, List.foldl_cons, List.foldl_nil, SourceBook.enter] at goes_on
          split at goes_on <;> exact goes_on
      | cleared | loaded key said => exact quiet goes_on fun _ => by simp [LoadEvent.event?]
      | fetched others =>
          injection goes_on with same
          exact ⟨ledger, [], by rw [same], fun _ mem => absurd mem List.not_mem_nil⟩
      | answered name others outcome => cases goes_on

/-- What is recalled was said by a fetch that was begun when none went on. -/
theorem Recalls.fetches {book : SourceBook} (idle : book.inFlight = none) {ledger rest : Ledger}
    (lawful : book.Lawful (ledger ++ rest).events) {key : String} {said : LoadOutcome}
    (recalls : ledger.Recalls key said) : ledger.Fetches key said := by
  obtain ⟨before, later, name, keys, outcome, rfl, -, told⟩ := recalls
  rw [List.append_assoc, events_append] at lawful
  have ends := (SourceBook.lawful_append.mp lawful).2
  rw [List.cons_append, events_cons] at ends
  obtain ⟨begun, during, rfl, none_else⟩ := begun_of_inFlight idle before ends.1
  exact ⟨begun, during, later, keys, name, outcome, by simp, none_else, told⟩

end Ledger

namespace Schedule

/-- A root field that was held back is released. -/
structure Releases (schedule : Schedule σ) (owner : Nat) (field : Step σ) (next : Schedule σ) :
    Prop where
  turn : schedule.step = .again next
  phase : schedule.phase = .draining owner
  idle : ∃ job run held, schedule.runs[owner]? = some (job, run) ∧ run.ready = [] ∧
    run.parked = 0 ∧ run.held = field :: held

/-- Whoever is given an outcome once a field has been released is given that of a fetch that was
begun and has ended since. -/
theorem Releases.fetches {schedule released last : Schedule σ} {owner : Nat} {field : Step σ}
    (releases : schedule.Releases owner field released) (quiet : schedule.Quiet)
    {book : SourceBook} {before : Ledger} (accounts : Accounts watched book before schedule)
    {ledger : Ledger} (logged : released.Logged watched ledger last) {first rest : Ledger}
    {key : String} {said : LoadOutcome} (split : ledger = first ++ .loaded key said :: rest) :
    first.Fetches key said := by
  obtain ⟨job, run, held, found, none_ready, none_parked, top⟩ := releases.idle
  have enters : schedule.Enters watched [LoadEvent.cleared] released :=
    (enters_released releases.phase found none_ready top none_parked).mpr rfl
  have quiet' : released.Quiet := quiet.step releases.turn
  have accounts' := accounts.step quiet releases.turn enters
  have turn := (step_release releases.phase found none_ready top none_parked).symm.trans releases.turn
  injection turn with turn
  have phase' : released.phase = .draining owner := by
    rw [← turn]
    exact releases.phase
  have tally := accounts'.tallied.tally
  rw [quiet'.holds_draining phase' watched] at tally
  -- From here on the ledger is begun anew.
  have anew : Accounts watched (book.enterAll (before ++ [LoadEvent.cleared]).events) [] released := by
    refine ⟨.none ?_, .none ?_⟩
    · rw [quiet'.holds_draining phase' watched]
      exact tally
    · rw [← turn]
      exact World.recorded_clearCache _ _
  obtain ⟨-, after⟩ := logged.accounts quiet' anew
  have recalls := after.kept.honest.recalls split
  have lawful := after.tallied.lawful
  rw [List.nil_append, split] at lawful
  exact recalls.fetches tally.idle_of_nobody lawful

end Schedule

end GraphExec
