import GraphExec.Proofs.Run.Attended
import GraphExec.Proofs.Termination.Burdens
import GraphExec.Proofs.Termination.Polls

/-!
# What is awaited is secured

From the time that a bucket is taken up until its steps are resumed the cache is not cleared. So the
fetch that somebody waits for secures the key that it was called for, and a poll of a step that can
go on gets on with what the step waits for. A poll of a step that cannot go on changes nothing at
all.
-/

namespace GraphExec

variable {σ : Type} {watched : SourceId}

/-- If a future waits for a key that is being fetched, the fetch secures the key. -/
def Future.Secured (watched : SourceId) (book : SourceBook) : Future σ → Prop
  | .lazy rest => rest.Secured watched book
  | .flush _ _ => True

namespace Future

variable {future rest : Future σ} {book : SourceBook} {world : World σ}

theorem secured_of_fresh (fresh : future.progressAt watched = none) :
    future.Secured watched book := by
  cases future with
  | lazy rest => exact Pending.secured_of_fresh fresh
  | flush id progress? => trivial

theorem Secured.enterAll {events : List SourceEvent} (secured : future.Secured watched book)
    (lawful : book.Lawful events) (uncleared : SourceEvent.cleared ∉ events) :
    future.Secured watched (book.enterAll events) := by
  cases future with
  | lazy rest => exact Pending.Secured.enterAll secured lawful uncleared
  | flush id progress? => trivial

theorem Secured.left {others : List (FetchProgress σ)} (secured : future.Secured watched book)
    (tally : Tally watched world ((future.progressAt watched).toList ++ others) book)
    (leaves : (future.poll world).1 = some rest) :
    rest.Secured watched (book.enterAll (future.account watched world)) := by
  cases future with
  | lazy pending =>
      rcases polled : pending.poll world with ⟨answer | pending', after⟩
      · simp only [poll, polled] at leaves
        cases leaves
      · simp only [poll, polled] at leaves
        obtain rfl := Option.some.inj leaves
        exact (Pending.Secured.left secured tally (congrArg Prod.fst polled)).1
  | flush id progress? =>
      cases progress? with
      | none =>
          rw [poll_flush_none] at leaves
          rcases begun : World.beginFetch id world with ⟨⟨⟨⟩⟩ | progress, after⟩ <;>
            rw [begun] at leaves
          · cases leaves
          · obtain rfl := Option.some.inj leaves
            trivial
      | some progress =>
          rw [poll_flush_some] at leaves
          rcases resumed : World.resumeFetch id progress world with ⟨⟨⟨⟩⟩ | progress', after⟩ <;>
            rw [resumed] at leaves
          · cases leaves
          · obtain rfl := Option.some.inj leaves
            trivial

end Future

namespace Schedule

variable {schedule next : Schedule σ} {book : SourceBook}

/-- The ledger of a source accounts for all that is polled, and every fetch that somebody waits for
secures its key. -/
def Secure (watched : SourceId) (schedule : Schedule σ) : Prop :=
  ∃ book ledger, Accounts watched book ledger schedule ∧
    ∀ future ∈ schedule.futures, future.Secured watched (book.enterAll ledger.events)

theorem Secure.tally (secure : schedule.Secure watched) :
    ∃ book, Tally watched schedule.world (schedule.holds watched) book := by
  obtain ⟨book, ledger, accounts, -⟩ := secure
  exact ⟨_, accounts.tallied.tally⟩

/-- What has not been polled is secured. -/
theorem PolledFor.secured (polled : schedule.PolledFor []) {future : Future σ}
    (mem : future ∈ schedule.futures) : future.Secured watched book := by
  cases holds : future.progressAt watched with
  | none => exact Future.secured_of_fresh holds
  | some progress =>
      obtain ⟨flush, -, rfl⟩ | ⟨parked, mem, -⟩ := polled.drives mem holds
      · trivial
      · exact absurd mem List.not_mem_nil

/-- A poll leaves everything secured. -/
theorem Secure.poll (secure : schedule.Secure watched) {front back : List (Awaited σ)}
    {parked : ParkedStep σ} {line line' : List Nat}
    (phase : schedule.phase = .awaiting (front ++ .waiting parked :: back) line) :
    Secure watched { (schedule.poll parked).2 with
      phase := .awaiting (front ++ (schedule.poll parked).1 :: back) line' } := by
  obtain ⟨book, ledger, accounts, secured⟩ := secure
  refine ⟨book, _, accounts.poll phase, fun future mem => ?_⟩
  obtain ⟨-, others, before, after⟩ := futures_poll phase line'
  have mem := after.mem_iff.mp mem
  have among {other : Future σ} (there : other ∈ (schedule.future? parked).toList ++ others) :
      other.Secured watched (book.enterAll ledger.events) :=
    secured other (before.mem_iff.mpr there)
  unfold pollLedger
  unfold left? at mem
  cases drives : schedule.future? parked with
  | none =>
      rw [drives] at mem among
      rw [List.append_nil]
      exact among mem
  | some driven =>
      rw [drives] at mem among
      simp only
      rw [Ledger.events_append, SourceBook.enterAll_append, Future.events_ledger]
      have tally := accounts.tallied.tally
      rw [holds_eq] at tally
      rw [drives] at before
      have tally := tally.held_perm ((before.filterMap _).trans (.of_eq (filterMap_cons_toList _ _ _)))
      rcases List.mem_append.mp mem with mem | mem
      · have leaves := Option.mem_toList.mp mem
        exact Future.Secured.left (among List.mem_cons_self) tally leaves
      · exact Future.Secured.enterAll (among (List.mem_cons_of_mem _ mem)) (driven.tallied_poll tally).lawful
          (driven.uncleared_account watched schedule.world)

/-- Another line changes nothing about what is polled. -/
theorem Secure.line (secure : schedule.Secure watched) {bucket : List (Awaited σ)}
    {line : List Nat} (phase : schedule.phase = .awaiting bucket line) (line' : List Nat) :
    Secure watched { schedule with phase := .awaiting bucket line' } := by
  have same : futures { schedule with phase := .awaiting bucket line' } = schedule.futures := by
    unfold futures parkedSteps
    rw [phase]
    rfl
  obtain ⟨book, ledger, accounts, secured⟩ := secure
  refine ⟨book, _, accounts.aside rfl (.of_eq ?_), fun future mem => ?_⟩
  · rw [holds_eq, holds_eq, same]
  · rw [List.append_nil]
    exact secured future (same ▸ mem)

/-- Every transition of a schedule leaves everything secured. -/
theorem Secure.step (secure : schedule.Secure watched) (quiet : schedule.Quiet)
    (attentive : schedule.Attentive) (lined : schedule.Lined)
    (turn : schedule.step = .again next) : next.Secure watched := by
  have of_unpolled (polled : next.PolledFor []) : next.Secure watched := by
    obtain ⟨book, ledger, accounts, -⟩ := secure
    obtain ⟨entries, enters⟩ := enters_of_step watched turn
    exact ⟨book, _, accounts.step quiet turn enters, fun future mem => polled.secured mem⟩
  have quiet' := quiet.step turn
  have attentive' := (attentive.step lined quiet turn).1
  have drained {owner : Nat} (phase : next.phase = .draining owner) : next.Secure watched :=
    of_unpolled (quiet'.unpolled phase)
  have elsewhere (not_awaiting : ∀ bucket line, next.phase ≠ .awaiting bucket line) :
      next.Secure watched := of_unpolled (attentive'.unpolled not_awaiting)
  cases goesOn_of_step turn with
  | @advanced _ _ _ _ _ progress _ phase => cases progress <;> exact drained phase
  | released phase => exact drained phase
  | passed => exact drained rfl
  | taken | fetching => exact elsewhere nofun
  | fetched phase =>
      have unpolled := attentive.unpolled fun _ _ awaits => by cases phase.symm.trans awaits
      exact of_unpolled (unpolled.flush phase _ (waiting_fetched _))
  | @polled bucket place line phase =>
      rcases schedule.pollAt_cases bucket place line with
        ⟨parked, front, back, line', -, rfl, same⟩ | ⟨-, same⟩
      · rw [same]
        exact secure.poll phase
      · rw [same]
        exact secure.line phase _
  | linedUp phase => exact secure.line phase _
  | resumed phase found resumes => exact drained (resumeAll_eq _ resumes).2.1

/-! ### Polls that get on -/

/-- What is polled of a schedule is in step with all sources. -/
theorem sure_of_mem (secure : ∀ watched, schedule.Secure watched) {α : Type}
    {rest : Pending σ α} (mem : .lazy rest ∈ schedule.futures) : rest.Sure schedule.world := by
  intro watched
  obtain ⟨book, ledger, accounts, secured⟩ := secure watched
  obtain ⟨front, back, split⟩ := List.append_of_mem mem
  have tally := accounts.tallied.tally
  rw [holds_eq, split] at tally
  refine ⟨(front ++ back).filterMap (Future.progressAt watched), _, ?_, secured _ mem⟩
  exact tally.held_perm ((List.perm_middle.filterMap _).trans
    (.of_eq (filterMap_cons_toList _ _ _)))

/-- A poll of a step that can go on gets on with what it waits for. -/
theorem gets_on (secure : ∀ watched, schedule.Secure watched) {parked : ParkedStep σ}
    {job : Job σ} {run : Run σ} (mem : parked ∈ schedule.parkedSteps)
    (found : schedule.runs[parked.owner]? = some (job, run))
    (stocked : ∀ key, parked.wait = .arguments key → ∃ bag, run.arguments.get? key = some bag)
    (can : schedule.canGoOn parked = true) :
    parked.wait.GetsOn ⟨run, schedule.world⟩ (parked.wait.poll ⟨run, schedule.world⟩).2
      (parked.wait.poll ⟨run, schedule.world⟩).1 := by
  have by_kind {α : Type} (rest : Pending σ α) (answer : α → Resumption σ)
      (wait : Pending σ α → Wait σ) (drives : schedule.future? parked = some (.lazy rest))
      (later : ∀ rest', rest'.Later rest → (wait rest').Later (wait rest)) :
      (wait rest).GetsOn ⟨run, schedule.world⟩
        (Wait.pollBy rest answer wait ⟨run, schedule.world⟩).2
        (Wait.pollBy rest answer wait ⟨run, schedule.world⟩).1 := by
    have sure := sure_of_mem secure (mem_futures mem drives)
    rw [canGoOn_eq, drives] at can
    unfold Wait.pollBy
    rcases polled : rest.poll schedule.world with ⟨result | rest', after⟩
    · rw [show rest.poll.run schedule.world = _ from polled]
      exact .answered
    · rw [show rest.poll.run schedule.world = _ from polled]
      exact .own rfl (later _ (sure.later_poll (congrArg Prod.fst polled) can))
  cases wait : parked.wait with
  | value rest =>
      exact by_kind rest .value .value (by simp [future?, wait, Wait.future?]) fun _ => .value
  | type rest =>
      exact by_kind rest .type .type (by simp [future?, wait, Wait.future?]) fun _ => .type
  | authorization rest =>
      exact by_kind rest .authorization .authorization (by simp [future?, wait, Wait.future?])
        fun _ => .authorization
  | directive rest =>
      exact by_kind rest .directive .directive (by simp [future?, wait, Wait.future?])
        fun _ => .directive
  | arguments key =>
      obtain ⟨bag, there⟩ := stocked key wait
      simp only [Wait.poll, Wait.pollBag, there]
      cases bag with
      | ready result => exact .answered
      | pending rest =>
          have drives : schedule.future? parked = some (.lazy rest) := by
            simp [future?, wait, arguments?, found, there, SharedArguments.future?]
          have sure := sure_of_mem secure (mem_futures mem drives)
          rw [canGoOn_eq, drives] at can
          rcases polled : rest.poll schedule.world with ⟨result | rest', after⟩
          · rw [SharedArguments.poll_ready polled]
            exact .answered
          · rw [SharedArguments.poll_pending polled]
            exact .bag there rfl (sure.later_poll (congrArg Prod.fst polled) can)

theorem modifyRun_eq_self {owner : Nat} {f : Run σ → Run σ}
    (same : ∀ job run, schedule.runs[owner]? = some (job, run) → f run = run) :
    schedule.modifyRun owner f = schedule := by
  have runs : (schedule.modifyRun owner f).runs = schedule.runs := by
    refine List.ext_getElem? fun other => ?_
    rw [getElem?_modifyRun]
    split
    · rename_i here
      subst here
      cases found : schedule.runs[owner]? with
      | none => rfl
      | some entry => rw [Option.map_some, same entry.1 entry.2 found]
    · rfl
  show { schedule with runs := (schedule.modifyRun owner f).runs } = schedule
  rw [runs]

/-- A poll of a step that cannot go on changes nothing. -/
theorem poll_of_not_canGoOn (secure : ∀ watched, schedule.Secure watched)
    {parked : ParkedStep σ} (mem : parked ∈ schedule.parkedSteps)
    (cannot : schedule.canGoOn parked = false) :
    schedule.poll parked = (.waiting parked, schedule) := by
  have stays {α : Type} {rest : Pending σ α} (drives : schedule.future? parked = some (.lazy rest)) :
      rest.poll schedule.world = (.pending rest, schedule.world) := by
    rw [canGoOn_eq, drives] at cannot
    exact (sure_of_mem secure (mem_futures mem drives)).poll_of_not_canGoOn cannot
  have by_kind {α : Type} (rest : Pending σ α) (answer : α → Resumption σ)
      (wait : Pending σ α → Wait σ) (waits : parked.wait = wait rest)
      (drives : schedule.future? parked = some (.lazy rest))
      (polls : schedule.poll parked = schedule.pollBy parked rest answer wait) :
      schedule.poll parked = (.waiting parked, schedule) := by
    rw [polls]
    unfold pollBy
    rw [show rest.poll.run schedule.world = _ from stays drives]
    simp only [← waits]
  obtain ⟨owner, step, wait⟩ := parked
  cases wait with
  | value rest => exact by_kind rest .value .value rfl (by simp [future?, Wait.future?]) rfl
  | type rest => exact by_kind rest .type .type rfl (by simp [future?, Wait.future?]) rfl
  | authorization rest =>
      exact by_kind rest .authorization .authorization rfl (by simp [future?, Wait.future?]) rfl
  | directive rest =>
      exact by_kind rest .directive .directive rfl (by simp [future?, Wait.future?]) rfl
  | arguments key =>
      unfold Schedule.poll
      simp only
      cases found : schedule.arguments? owner key with
      | none => rfl
      | some bag =>
          obtain ⟨⟨job, run⟩, here, there⟩ := Option.bind_eq_some_iff.mp found
          cases bag with
          | ready result =>
              rw [canGoOn_eq] at cannot
              simp [future?, found, SharedArguments.future?] at cannot
          | pending rest =>
              have drives : schedule.future? ⟨owner, step, .arguments key⟩ = some (.lazy rest) := by
                simp [future?, found, SharedArguments.future?]
              -- The bag is put back as it was, which changes nothing about its run.
              simp only [SharedArguments.poll_pending (stays drives), SharedArguments.result?]
              refine congrArg _ (modifyRun_eq_self fun job' run' here' => ?_)
              obtain ⟨rfl, rfl⟩ := Prod.mk.inj (Option.some.inj (here'.symm.trans here))
              obtain ⟨front, back, split, put⟩ := ArgumentStore.split_of_get? there
              rw [put, ← split]

end Schedule

end GraphExec
