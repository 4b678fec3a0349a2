import GraphExec.Proofs.Run.Buckets
import GraphExec.Proofs.Run.Loads

/-!
# What is fetched for a bucket

Before a bucket is awaited, all keys that are due are fetched: at each source by one fetch, which
takes the keys that were asked for, each once, in the order in which they were first asked for. When
the fetches have ended, no key is due.
-/

namespace GraphExec

variable {σ : Type} {watched : SourceId}

/-! ### Keys that are wanted -/

namespace SourceBook

/-- The keys that have been asked for since the last fetch began and whose outcomes were not known,
each as often as it was asked for. -/
def wantedFrom : SourceBook → List String → List SourceEvent → List String
  | _, keys, [] => keys
  | book, keys, .asked key :: rest =>
    wantedFrom (book.enter (.asked key)) (if key ∈ book.known then keys else keys ++ [key]) rest
  | book, _, .fetched taken :: rest => wantedFrom (book.enter (.fetched taken)) [] rest
  | book, keys, .answered taken :: rest => wantedFrom (book.enter (.answered taken)) keys rest
  | book, keys, .cleared :: rest => wantedFrom (book.enter .cleared) keys rest

/-- The keys that are wanted after some events at a source that has not been used before. -/
def wanted (events : List SourceEvent) : List String :=
  wantedFrom blank [] events

/-- What is due are the keys that are wanted, each once, in the order in which they were first asked
for. -/
theorem due_eq_wantedFrom (events : List SourceEvent) :
    ∀ {book : SourceBook} {keys : List String}, book.due = keys.eraseDups →
      (book.enterAll events).due = (book.wantedFrom keys events).eraseDups := by
  induction events with
  | nil => exact fun due => due
  | cons event rest ih =>
      intro book keys due
      cases event with
      | asked key =>
          refine @ih _ (if key ∈ book.known then keys else keys ++ [key]) ?_
          unfold enter
          by_cases known : key ∈ book.known
          · simp only [if_pos known]
            exact due
          · simp only [if_neg known]
            rw [due, addName_eraseDups]
      | fetched taken => exact @ih _ [] rfl
      | answered taken => exact ih due
      | cleared => exact ih due

theorem due_eq_wanted (events : List SourceEvent) :
    (blank.enterAll events).due = (wanted events).eraseDups :=
  due_eq_wantedFrom events rfl

end SourceBook

/-! ### Events of a fetch -/

/-- A fetch begins or ends. -/
def LoadEvent.IsOfFetch (event : LoadEvent) : Prop :=
  (∃ keys, event = .fetched keys) ∨ ∃ name keys outcome, event = .answered name keys outcome

namespace Ledger

/-- If fetches only begin and end, and none goes on in the end, then what was due at first has been
fetched at once, or nothing has been fetched. -/
theorem one_fetch {ledger : Ledger} {book : SourceBook} (idle : book.inFlight = none)
    (of_fetch : ∀ event ∈ ledger, event.IsOfFetch) (lawful : book.Lawful ledger.events)
    (ended : (book.enterAll ledger.events).inFlight = none) :
    ledger = [] ∨ (book.due ≠ [] ∧
      ∃ name outcome, ledger = [.fetched book.due, .answered name book.due outcome]) := by
  cases ledger with
  | nil => exact .inl rfl
  | cons first rest =>
      rcases of_fetch first List.mem_cons_self with ⟨keys, rfl⟩ | ⟨name, keys, outcome, rfl⟩
      · obtain ⟨-, rfl, some_due⟩ := lawful.1
        refine .inr ⟨some_due, ?_⟩
        cases rest with
        | nil => cases ended
        | cons second rest =>
            have lawful := lawful.2
            rcases of_fetch second (List.mem_cons_of_mem _ List.mem_cons_self) with
              ⟨keys, rfl⟩ | ⟨name, keys, outcome, rfl⟩
            · exact absurd lawful.1.1 (by intro none_goes_on; cases none_goes_on)
            · obtain rfl : book.due = keys := Option.some.inj lawful.1
              refine ⟨name, outcome, ?_⟩
              cases rest with
              | nil => rfl
              | cons third rest =>
                  have lawful := lawful.2
                  have mem := List.mem_cons_of_mem (.fetched book.due)
                    (List.mem_cons_of_mem (.answered name book.due outcome)
                      (List.mem_cons_self (a := third) (l := rest)))
                  rcases of_fetch third mem with ⟨keys, rfl⟩ | ⟨name, keys, outcome, rfl⟩
                  · obtain ⟨-, none_due, some_due⟩ := lawful.1
                    exact absurd none_due some_due
                  · cases lawful.1
      · exact absurd lawful.1 (by
          intro goes_on
          rw [show book.inFlight = some keys from goes_on] at idle
          cases idle)

end Ledger

namespace World

theorem isOfFetch_endLedger (name : String) (keys : List String) (fetch : Fetch σ) (app : σ) :
    ∀ event ∈ endLedger name keys fetch app, event.IsOfFetch := by
  intro event mem
  unfold endLedger at mem
  split at mem
  · rw [List.mem_singleton.mp mem]
    exact .inr ⟨_, _, _, rfl⟩
  · exact absurd mem List.not_mem_nil

theorem isOfFetch_serveLedger (id : SourceId) (world : World σ) :
    ∀ event ∈ serveLedger id world, event.IsOfFetch := by
  intro event mem
  unfold serveLedger at mem
  split at mem
  · exact absurd mem List.not_mem_nil
  · split at mem
    · exact absurd mem List.not_mem_nil
    · rcases List.mem_cons.mp mem with rfl | mem
      · exact .inl ⟨_, rfl⟩
      · exact isOfFetch_endLedger _ _ _ _ event mem

theorem isOfFetch_beginLedger (id : SourceId) (world : World σ) :
    ∀ event ∈ beginLedger id world, event.IsOfFetch := by
  intro event mem
  unfold beginLedger at mem
  split at mem
  · exact isOfFetch_serveLedger _ _ event mem
  · exact absurd mem List.not_mem_nil

theorem isOfFetch_resumeLedger (id : SourceId) (progress : FetchProgress σ) (world : World σ) :
    ∀ event ∈ resumeLedger id progress world, event.IsOfFetch := by
  intro event mem
  unfold resumeLedger at mem
  split at mem
  · split at mem
    · exact isOfFetch_serveLedger _ _ event mem
    · exact absurd mem List.not_mem_nil
  · exact isOfFetch_endLedger _ _ _ _ event mem

theorem mem_of_entriesFrom {id : SourceId} {ledger : Ledger} {event : LoadEvent}
    (mem : event ∈ entriesFrom watched id ledger) : event ∈ ledger := by
  unfold entriesFrom at mem
  split at mem
  · exact mem
  · exact absurd mem List.not_mem_nil

theorem isOfFetch_flush (id : SourceId) (progress? : Option (FetchProgress σ)) (world : World σ) :
    ∀ event ∈ (Future.flush id progress?).ledger watched world, event.IsOfFetch := by
  intro event mem
  cases progress? with
  | none => exact isOfFetch_beginLedger _ _ event (mem_of_entriesFrom mem)
  | some progress => exact isOfFetch_resumeLedger _ _ _ event (mem_of_entriesFrom mem)

/-- Nothing but fetches happens while fetches are polled. -/
theorem isOfFetch_flushLedger (flushes : List (Flush σ)) :
    ∀ world : World σ, ∀ event ∈ flushLedger watched flushes world, event.IsOfFetch := by
  induction flushes with
  | nil => exact fun _ _ mem => absurd mem List.not_mem_nil
  | cons flush rest ih =>
      intro world event mem
      rcases List.mem_append.mp mem with mem | mem
      · exact isOfFetch_flush _ _ _ event mem
      · exact ih _ event mem

/-! ### Keys that are due -/

variable {world : World σ} {id : SourceId}

/-- Going on with a fetch asks for nothing. -/
theorem due_runFetch (id : SourceId) (name : String) (keys : List String) (fetch : Fetch σ)
    (world : World σ) : (runFetch id name keys fetch world).2.due watched = world.due watched := by
  unfold runFetch due
  split
  · rfl
  · by_cases here : watched = id
    · subst here
      simp only [source?_modifySource_self, source?_tell, source?_app]
      cases world.source? watched <;> rfl
    · simp only [source?_modifySource_other here, source?_tell, source?_app]

/-- Whoever is served leaves nothing due. -/
theorem due_serve_self (id : SourceId) (world : World σ) : (serve id world).2.due id = [] := by
  unfold serve
  cases found : world.source? id with
  | none => simp [due, found]
  | some state =>
      by_cases empty : state.pending.isEmpty
      · simp only [empty, if_true]
        simpa [due, found] using empty
      · simp only [empty, if_false, Bool.false_eq_true]
        rw [due_runFetch]
        simp [due, found]

theorem due_serve (id : SourceId) (world : World σ) :
    (serve id world).2.due watched = world.due watched ∨ (serve id world).2.due watched = [] := by
  by_cases same : watched = id
  · subst same
    exact .inr (due_serve_self _ _)
  · left
    unfold due
    rw [source?_serve same]

/-- A ticket that is drawn changes nothing that is due. -/
theorem due_modifySource_turns (turns : Turns) :
    (world.modifySource id fun state => { state with turns }).due watched = world.due watched := by
  unfold due
  by_cases same : watched = id
  · subst same
    rw [source?_modifySource_self]
    cases world.source? watched <;> rfl
  · rw [source?_modifySource_other same]

/-- A poll of a fetch leaves what is due at a source, or nothing. -/
theorem due_flush (id : SourceId) (progress? : Option (FetchProgress σ)) (world : World σ) :
    ((Future.flush id progress?).poll world).2.due watched = world.due watched ∨
      ((Future.flush id progress?).poll world).2.due watched = [] := by
  cases progress? with
  | none =>
      rw [Future.poll_flush_none]
      unfold beginFetch
      split
      · exact .inl rfl
      · rename_i state _
        dsimp only
        split
        · exact (due_serve id _).imp_left (·.trans (due_modifySource_turns _))
        · exact .inl (due_modifySource_turns _)
  | some progress =>
      rw [Future.poll_flush_some]
      cases progress with
      | queued ticket =>
          unfold resumeFetch
          dsimp only
          split
          · exact .inl rfl
          · split
            · exact due_serve id world
            · exact .inl rfl
      | running keys rest => exact .inl (due_runFetch _ _ _ _ _)

/-- A fetch that begins when nobody is served leaves nothing due. -/
theorem due_flush_begun {state : SourceState σ} (found : world.source? id = some state)
    (free : state.turns.serving = none) :
    ((Future.flush id none).poll world).2.due id = [] := by
  have served : state.turns.draw.2.serving = some state.turns.draw.1 := by
    simp [Turns.draw, free]
  rw [Future.poll_flush_none]
  unfold beginFetch
  simp only [found, served, if_true]
  exact due_serve_self id _

theorem due_pollFlushes (flushes : List (Flush σ)) : ∀ world : World σ, world.due watched = [] →
    (pollFlushes flushes world).2.due watched = [] := by
  induction flushes with
  | nil => exact fun _ none_due => none_due
  | cons flush rest ih =>
      intro world none_due
      rw [(pollFlushes_left watched flush rest world).1]
      exact ih _ ((due_flush flush.1 flush.2 world).elim (·.trans none_due) id)

/-- When fetches are begun, nothing is due any more at a source of one of them where nobody is
served. -/
theorem due_pollFlushes_begun {state : SourceState σ} (free : state.turns.serving = none)
    (flushes : List (Flush σ)) : ∀ world : World σ, world.source? watched = some state →
    (∀ flush ∈ flushes, flush.2 = none) → (watched, none) ∈ flushes →
    (pollFlushes flushes world).2.due watched = [] := by
  induction flushes with
  | nil => exact fun _ _ _ mem => absurd mem List.not_mem_nil
  | cons flush rest ih =>
      intro world found fresh mem
      rw [(pollFlushes_left watched flush rest world).1]
      obtain ⟨id, progress?⟩ := flush
      obtain rfl : progress? = none := fresh _ List.mem_cons_self
      by_cases same : watched = id
      · subst same
        exact due_pollFlushes rest _ (due_flush_begun found free)
      · have mem := (List.mem_cons.mp mem).resolve_left fun here => same (congrArg Prod.fst here)
        refine ih _ ?_ (fun flush mem => fresh flush (List.mem_cons_of_mem _ mem)) mem
        rw [Future.poll_flush_none, source?_beginFetch same, found]

/-- A fetch of a source with keys that are due is among those that are made, none of which has been
begun. -/
theorem mem_dueFetches {state : SourceState σ} (found : world.source? watched = some state)
    (some_due : state.pending ≠ []) : (watched, none) ∈ world.dueFetches := by
  obtain ⟨entry, sought, rfl⟩ := Option.map_eq_some_iff.mp found
  have same : entry.1 = watched := by simpa using List.find?_some sought
  refine List.mem_map.mpr ⟨entry, List.mem_filter.mpr ⟨List.mem_of_find?_eq_some sought, ?_⟩, ?_⟩
  · simpa using some_due
  · rw [same]

theorem dueFetches_unbegun (world : World σ) : ∀ flush ∈ world.dueFetches, flush.2 = none := by
  intro flush mem
  obtain ⟨entry, -, rfl⟩ := List.mem_map.mp mem
  rfl

end World

theorem Tally.due_eq {world : World σ} {held : List (FetchProgress σ)} {book : SourceBook}
    (tally : Tally watched world held book) : world.due watched = book.due := by
  unfold World.due
  cases found : world.source? watched with
  | none =>
      rw [(tally.of_none found).2]
      rfl
  | some state => exact (tally.of_some found).1

/-- Nobody is served who holds nothing. -/
theorem Seating.free_of_nobody {turns : Turns} {inFlight : Option (List String)}
    (seating : Seating turns ([] : List (FetchProgress σ)) inFlight) : turns.serving = none := by
  cases seating with
  | idle next => rfl
  | called _ _ seats => exact absurd seats.length_eq (by simp)
  | serving _ _ _ seats => exact absurd seats.length_eq (by simp)

theorem Tally.free_of_nobody {world : World σ} {book : SourceBook} {state : SourceState σ}
    (tally : Tally watched world [] book) (found : world.source? watched = some state) :
    state.turns.serving = none :=
  (tally.of_some found).2.2.free_of_nobody

/-! ### Fetches for a bucket -/

namespace Schedule

variable {schedule next taken opened last : Schedule σ} {depth : Nat}
  {bucket : List (ParkedStep σ)} {passed : List (Schedule σ)}

/-- Fetches are made for a bucket. -/
def IsFlushing (schedule : Schedule σ) : Prop :=
  ∃ bucket flushes, schedule.phase = .flushing bucket flushes

/-- The bucket of a depth is taken up. -/
structure Takes (schedule : Schedule σ) (depth : Nat) (bucket : List (ParkedStep σ))
    (next : Schedule σ) : Prop where
  turn : schedule.step = .again next
  passed : ∃ owner, schedule.phase = .draining owner ∧ schedule.runs[owner]? = none
  buckets : schedule.buckets = (depth, bucket) :: next.buckets

/-- What the fetches for a bucket enter into the ledger of a source in the next transition. -/
def fetchLedger (watched : SourceId) (schedule : Schedule σ) : Ledger :=
  match schedule.phase with
  | .flushing _ flushes => World.flushLedger watched flushes schedule.world
  | _ => []

/-- What the fetches for a bucket have entered on the way through schedules. -/
def fetchLedgers (watched : SourceId) (passed : List (Schedule σ)) : Ledger :=
  passed.flatMap (fetchLedger watched)

theorem Takes.opened_eq (takes : taken.Takes depth bucket opened) :
    opened = { taken with
      buckets := opened.buckets
      phase := .flushing bucket taken.world.dueFetches } := by
  obtain ⟨owner, phase, none_left⟩ := takes.passed
  have turn := (step_take phase none_left takes.buckets).symm.trans takes.turn
  injection turn with turn
  rw [← turn]

/-- Fetches for a bucket are begun when it is taken up. -/
theorem takes_of_flushing (turn : schedule.step = .again next) (flushing : next.IsFlushing) :
    schedule.IsFlushing ∨ ∃ depth bucket, schedule.Takes depth bucket next := by
  obtain ⟨bucket', flushes, now⟩ := flushing
  cases goesOn_of_step turn with
  | @advanced owner job run step ready progress s phase =>
      cases progress <;> cases phase.symm.trans now
  | released phase => cases phase.symm.trans now
  | passed phase | fetched phase | linedUp phase => cases now
  | taken phase none_left first =>
      exact .inr ⟨_, _, turn, ⟨_, phase, none_left⟩, first⟩
  | fetching phase => exact .inl ⟨_, _, phase⟩
  | @polled bucket place line phase =>
      rcases schedule.pollAt_cases bucket place line with ⟨_, _, _, _, -, -, same⟩ | ⟨-, same⟩
      · cases (congrArg Schedule.phase same).symm.trans now
      · cases (congrArg Schedule.phase same).symm.trans now
  | resumed phase found resumes => cases (resumeAll_eq _ resumes).2.1.symm.trans now

/-- While fetches are made for a bucket, it has been taken up before. -/
theorem Course.takes {first : Schedule σ} {owner : Nat} (phase : first.phase = .draining owner)
    (course : first.Course passed last) (flushing : last.IsFlushing) :
    ∃ earlier taken depth bucket opened fetching, first.Course earlier taken ∧
      taken.Takes depth bucket opened ∧ opened.Course fetching last ∧
      ∀ schedule ∈ fetching, schedule.IsFlushing := by
  induction course with
  | start =>
      obtain ⟨bucket, flushes, now⟩ := flushing
      rw [phase] at now
      cases now
  | @step passed middle last course turn ih =>
      rcases takes_of_flushing turn flushing with earlier | ⟨depth, bucket, takes⟩
      · obtain ⟨earlier, taken, depth, bucket, opened, fetching, before, takes, during, all⟩ :=
          ih earlier
        refine ⟨earlier, taken, depth, bucket, opened, _, before, takes, during.step turn,
          fun schedule mem => ?_⟩
        rcases List.mem_append.mp mem with mem | mem
        · exact all schedule mem
        · rw [List.mem_singleton.mp mem]
          assumption
      · exact ⟨passed, middle, depth, bucket, last, [], course, takes, .start,
          fun _ mem => absurd mem List.not_mem_nil⟩

/-- Only what surrounds the runs changes while fetches are made for a bucket. -/
structure Fetches (taken : Schedule σ) (bucket : List (ParkedStep σ)) (opened last : Schedule σ) :
    Prop where
  runs : last.runs = taken.runs
  buckets : last.buckets = opened.buckets
  phase : (∃ flushes, last.phase = .flushing bucket flushes) ∨
    last.phase = .awaiting (bucket.map .waiting) []

theorem Fetches.step {middle : Schedule σ} (fetches : taken.Fetches bucket opened middle)
    (flushing : middle.IsFlushing) (turn : middle.step = .again last) :
    taken.Fetches bucket opened last := by
  obtain ⟨bucket', flushes, now⟩ := flushing
  obtain rfl : bucket' = bucket := by
    rcases fetches.phase with ⟨flushes', phase⟩ | phase
    · rw [phase] at now
      injection now with now
      exact now.symm
    · rw [phase] at now
      cases now
  cases goesOn_of_step turn with
  | fetching phase =>
      cases now.symm.trans phase
      exact ⟨fetches.runs, fetches.buckets, .inl ⟨_, rfl⟩⟩
  | fetched phase =>
      cases now.symm.trans phase
      exact ⟨fetches.runs, fetches.buckets, .inr rfl⟩
  | advanced phase | released phase | passed phase | taken phase | polled phase | linedUp phase
  | resumed phase => cases now.symm.trans phase

theorem Takes.fetches (takes : taken.Takes depth bucket opened) (course : opened.Course passed last)
    (flushing : ∀ schedule ∈ passed, schedule.IsFlushing) : taken.Fetches bucket opened last := by
  induction course with
  | start =>
      rw [takes.opened_eq]
      exact ⟨rfl, rfl, .inl ⟨_, rfl⟩⟩
  | step course turn ih =>
      have before := ih fun schedule mem => flushing schedule (List.mem_append_left _ mem)
      exact before.step (flushing _ (List.mem_append_right _ (List.mem_singleton_self _))) turn

/-- The ledger accounts for what fetches for a bucket enter. -/
theorem Course.accounts {book : SourceBook} {told : Ledger}
    (course : opened.Course passed last) (flushing : ∀ schedule ∈ passed, schedule.IsFlushing)
    (quiet : opened.Quiet) (accounts : Accounts watched book told opened) :
    Accounts watched book (told ++ fetchLedgers watched passed) last := by
  induction course with
  | start => exact (List.append_nil told).symm ▸ accounts
  | @step passed middle last course turn ih =>
      have before := ih fun schedule mem => flushing schedule (List.mem_append_left _ mem)
      obtain ⟨bucket, flushes, phase⟩ :=
        flushing middle (List.mem_append_right _ (List.mem_singleton_self _))
      have enters : middle.Enters watched (middle.fetchLedger watched) last := by
        unfold Enters fetchLedger
        rw [phase]
      unfold fetchLedgers
      rw [List.flatMap_append, List.flatMap_singleton, ← List.append_assoc]
      exact before.step (course.visits.quiet quiet) turn enters

theorem isOfFetch_fetchLedgers (passed : List (Schedule σ)) :
    ∀ event ∈ fetchLedgers watched passed, event.IsOfFetch := by
  intro event mem
  obtain ⟨schedule, -, mem⟩ := List.mem_flatMap.mp mem
  unfold fetchLedger at mem
  split at mem
  · exact World.isOfFetch_flushLedger _ _ event mem
  · exact absurd mem List.not_mem_nil

/-- When nothing is to be fetched, no key is due. -/
theorem due_of_no_fetch {world : World σ} (none_made : world.dueFetches = []) :
    world.due watched = [] := by
  unfold World.due
  cases found : world.source? watched with
  | none => rfl
  | some state =>
      refine Classical.byContradiction fun some_due => ?_
      have made := World.mem_dueFetches found some_due
      rw [none_made] at made
      exact List.not_mem_nil made

/-- The fetches that are due leave no key due. -/
theorem due_of_fetches {world : World σ} {book : SourceBook} (tally : Tally watched world [] book) :
    ((World.pollFlushes world.dueFetches).run world).2.due watched = [] := by
  cases found : world.source? watched with
  | none =>
      refine World.due_pollFlushes _ _ ?_
      unfold World.due
      rw [found]
      rfl
  | some state =>
      by_cases some_due : state.pending = []
      · refine World.due_pollFlushes _ _ ?_
        unfold World.due
        rw [found]
        exact some_due
      · exact World.due_pollFlushes_begun (tally.free_of_nobody found) _ _ found
          world.dueFetches_unbegun (World.mem_dueFetches found some_due)

/-- Once fetches have been begun, nothing is due any more. -/
theorem Takes.due (takes : taken.Takes depth bucket opened) (course : opened.Course passed last)
    (flushing : ∀ schedule ∈ passed, schedule.IsFlushing) {book : SourceBook}
    (tally : Tally watched taken.world [] book) :
    (last.phase = .flushing bucket taken.world.dueFetches ∧ last.world = taken.world) ∨
      last.world.due watched = [] := by
  induction course with
  | start =>
      rw [takes.opened_eq]
      exact .inl ⟨rfl, rfl⟩
  | @step passed middle last course turn ih =>
      have before := ih fun schedule mem => flushing schedule (List.mem_append_left _ mem)
      obtain ⟨bucket', flushes', now⟩ :=
        flushing middle (List.mem_append_right _ (List.mem_singleton_self _))
      right
      cases goesOn_of_step turn with
      | fetching phase =>
          rcases before with ⟨phase', world⟩ | none_left
          · cases phase.symm.trans phase'
            rw [world]
            exact due_of_fetches tally
          · exact World.due_pollFlushes _ _ none_left
      | fetched phase =>
          rcases before with ⟨phase', world⟩ | none_left
          · injection phase.symm.trans phase' with _ none_made
            show middle.world.due watched = []
            rw [world]
            exact due_of_no_fetch none_made.symm
          · exact none_left
      | advanced phase | released phase | passed phase | taken phase | polled phase | linedUp phase
      | resumed phase => cases now.symm.trans phase

/-- Before a bucket is awaited, one fetch is made at each source where keys are wanted, of those
keys, each once, in the order in which they were first asked for; and no key is due afterwards. -/
theorem Takes.fetched (takes : taken.Takes depth bucket opened) (course : opened.Course passed last)
    (flushing : ∀ schedule ∈ passed, schedule.IsFlushing)
    (awaits : last.phase = .awaiting (bucket.map .waiting) []) (quiet : taken.Quiet)
    {told : Ledger} (accounts : Accounts watched .blank told taken) :
    taken.world.due watched = (SourceBook.wanted told.events).eraseDups ∧
      last.world.due watched = [] ∧
      (((SourceBook.wanted told.events).eraseDups = [] ∧ fetchLedgers watched passed = []) ∨
        ((SourceBook.wanted told.events).eraseDups ≠ [] ∧ ∃ name outcome,
          fetchLedgers watched passed =
            [.fetched (SourceBook.wanted told.events).eraseDups,
              .answered name (SourceBook.wanted told.events).eraseDups outcome])) := by
  obtain ⟨owner, phase, -⟩ := takes.passed
  have nobody := quiet.holds_draining phase watched
  have tally := accounts.tallied.tally
  rw [nobody] at tally
  have wanted : (SourceBook.blank.enterAll told.events).due =
      (SourceBook.wanted told.events).eraseDups := SourceBook.due_eq_wanted _
  have due : taken.world.due watched = (SourceBook.wanted told.events).eraseDups :=
    tally.due_eq.trans wanted
  have none_due : last.world.due watched = [] := by
    rcases takes.due course flushing tally with ⟨still, -⟩ | none_due
    · rw [awaits] at still
      cases still
    · exact none_due
  refine ⟨due, none_due, ?_⟩
  -- What is held has not changed since the bucket was taken up, when nothing was.
  have fetches := takes.fetches course flushing
  have steps : ∀ {other : Schedule σ}, other.phase.waiting = bucket →
      other.buckets = opened.buckets → other.parkedSteps = taken.parkedSteps := by
    intro other waiting buckets
    unfold parkedSteps
    rw [waiting, buckets, phase, takes.buckets]
    rfl
  have same_holds : ∀ {other : Schedule σ}, other.phase.waiting = bucket →
      other.buckets = opened.buckets → other.runs = taken.runs →
      other.phase.flushes.filterMap (World.Flush.progressAt watched) = [] →
      other.holds watched = [] := by
    intro other waiting buckets runs no_flush
    rw [← nobody]
    unfold holds
    rw [no_flush, steps waiting buckets, runs, phase]
    rfl
  have opened_eq := takes.opened_eq
  have world : opened.world = taken.world := by rw [opened_eq]
  have holds_opened : opened.holds watched = [] := by
    refine same_holds ?_ rfl ?_ ?_
    · rw [opened_eq]
      rfl
    · rw [opened_eq]
    · rw [opened_eq]
      exact World.dueFetches_fresh _
  have accounts_opened : Accounts watched .blank told opened := by
    have aside := accounts.aside world (.of_eq (nobody.trans holds_opened.symm))
    rwa [List.append_nil] at aside
  have holds_last : last.holds watched = [] := by
    refine same_holds ?_ fetches.buckets fetches.runs ?_
    · rw [awaits]
      exact waiting_awaiting bucket
    · rw [awaits]
      rfl
  have accounts_last := course.accounts flushing (quiet.step takes.turn) accounts_opened
  have tally_last := accounts_last.tallied.tally
  rw [holds_last, Ledger.events_append, SourceBook.enterAll_append] at tally_last
  have lawful := accounts_last.tallied.lawful
  rw [Ledger.events_append, SourceBook.lawful_append] at lawful
  rcases Ledger.one_fetch tally.idle_of_nobody (isOfFetch_fetchLedgers passed) lawful.2
      tally_last.idle_of_nobody with none_made | ⟨some_due, name, outcome, made⟩
  · refine .inl ⟨?_, none_made⟩
    rw [none_made] at tally_last
    rw [← wanted]
    exact tally_last.due_eq.symm.trans none_due
  · rw [wanted] at some_due made
    exact .inr ⟨some_due, name, outcome, made⟩

end Schedule

end GraphExec
