import GraphExec.Proofs.Loading.Fair
import GraphExec.Proofs.Termination.Chains

/-!
# Polls that get on

A poll of something that can go on is answered, or leaves less to be done: a part of the lazy, or of
the fetch of the key that it waits for. That fetch is the last one, for as long as the cache is not
cleared it secures the key. A poll of something that cannot go on changes nothing.
-/

namespace GraphExec

variable {σ α : Type}

namespace World

variable {id : SourceId} {world : World σ}

theorem leaves_runFetch {name : String} {keys : List String} {fetch : Fetch σ}
    {left : FetchProgress σ}
    (goes : (runFetch id name keys fetch world).1 = .pending left) :
    ∃ rest, left = .running keys rest ∧ rest.Leaves fetch := by
  unfold runFetch at goes
  rcases polled : fetch.poll world.app with ⟨app, outcome | rest⟩ <;> rw [polled] at goes
  · cases goes
  · injection goes with same
    exact ⟨rest, same.symm, fetch.leaves_poll polled⟩

/-- Less is left of the fetch of one who is served. -/
theorem later_resumeFetch {progress left : FetchProgress σ} (serves : world.Serves id progress)
    (goes : (resumeFetch id progress world).1 = .pending left) : left.Later progress := by
  cases progress with
  | running keys fetch =>
      obtain ⟨rest, rfl, leaves⟩ := leaves_runFetch goes
      exact .left leaves
  | queued ticket =>
      have served := serves ticket rfl
      unfold isServed at served
      simp only [resumeFetch] at goes
      cases found : world.source? id with
      | none =>
          rw [found] at served
          cases served
      | some state =>
          simp only [found, Option.any_some, decide_eq_true_eq] at served
          simp only [found, served, if_true] at goes
          unfold serve at goes
          simp only [found] at goes
          by_cases empty : state.pending.isEmpty
          · simp only [empty, if_true] at goes
            cases goes
          · simp only [empty, if_false, Bool.false_eq_true] at goes
            obtain ⟨rest, rfl, -⟩ := leaves_runFetch goes
            exact .begun ticket _ rest

/-- Whoever is not served goes on waiting. -/
theorem resumeFetch_of_queued {ticket : Nat} {state : SourceState σ}
    (found : world.source? id = some state) (waits : world.isServed id ticket = false) :
    resumeFetch id (.queued ticket) world = (.pending (.queued ticket), world) := by
  simp only [isServed, found, Option.any_some, decide_eq_false_iff_not] at waits
  simp only [resumeFetch, found, if_neg waits]

end World

namespace Pending

/-- If the key that is waited for is being fetched, the fetch secures it. -/
def Secured (watched : SourceId) (book : SourceBook) : Pending σ α → Prop
  | start _ => True
  | waiting key progress? _ => key.id = watched →
    ∀ progress, progress? = some progress → progress.Secures book key.key

variable {watched : SourceId} {book : SourceBook} {pending rest : Pending σ α} {world : World σ}

/-- Whatever has not been polled is secured. -/
theorem secured_of_fresh (fresh : pending.progressAt watched = none) :
    pending.Secured watched book := by
  cases pending with
  | start lazy => trivial
  | waiting key progress? next =>
      intro same progress going
      rw [progressAt, if_pos same, going] at fresh
      cases fresh

/-- What others do, short of clearing the cache, keeps what is secured. -/
theorem Secured.enterAll {events : List SourceEvent} (secured : pending.Secured watched book)
    (lawful : book.Lawful events) (uncleared : SourceEvent.cleared ∉ events) :
    pending.Secured watched (book.enterAll events) := by
  cases pending with
  | start lazy => trivial
  | waiting key progress? next =>
      exact fun same progress going => (secured same progress going).enterAll lawful uncleared

/-- If no more than one fetch is called for a key, then that one secures the key. -/
theorem Patient.secured {effort : Effort} (patient : pending.Patient watched book effort)
    (called : effort.clears < effort.calls) : pending.Secured watched book := by
  cases pending with
  | start lazy => trivial
  | waiting key progress? next =>
      intro same progress going
      obtain ⟨progress', going', bound, secures⟩ := patient same
      obtain rfl := Option.some.inj (going.symm.trans going')
      exact secures (Nat.le_antisymm bound called)

/-- Once a fetch of a key goes on which is secured, no more is done for the key. -/
theorem Secured.patient {key : LoadKey σ} {progress : FetchProgress σ}
    {next : LoadOutcome → Lazy σ α}
    (secured : Secured watched book (.waiting key (some progress) next)) :
    Patient watched book ⟨1, 0⟩ (.waiting key (some progress) next) :=
  fun same => ⟨progress, rfl, Nat.le_refl _, fun _ => secured same progress rfl⟩

/-- A key of which no fetch has been called is awaited as at first. -/
theorem poll_unbegun (watched : SourceId) (key : LoadKey σ) (next : LoadOutcome → Lazy σ α)
    (world : World σ) :
    (waiting key none next).poll world = (Lazy.await key next).poll world ∧
      (waiting key none next).account watched world =
        (Lazy.await key next).account watched world := by
  rcases awaited : World.awaitKey key world with ⟨outcome | progress?, after⟩
  · simp only [poll, Lazy.poll, account, Lazy.account, World.resumeKey, World.keyAccount, awaited,
      and_self]
  · simp only [poll, Lazy.poll, account, Lazy.account, World.resumeKey, World.keyAccount, awaited,
      and_self]

/-- What a poll leaves is secured, and the key that it waits for is being fetched. -/
theorem Secured.left {others : List (FetchProgress σ)} (secured : pending.Secured watched book)
    (tally : Tally watched world ((pending.progressAt watched).toList ++ others) book)
    (waits : (pending.poll world).1 = .pending rest) :
    rest.Secured watched (book.enterAll (pending.account watched world)) ∧
      ∀ key next, key.id = watched → rest ≠ .waiting key none next := by
  have of_patient {effort : Effort} {book : SourceBook} (patient : rest.Patient watched book effort)
      (called : effort.clears < effort.calls) : rest.Secured watched book ∧
        ∀ key next, key.id = watched → rest ≠ .waiting key none next := by
    refine ⟨patient.secured called, fun key next same left => ?_⟩
    rw [left] at patient
    obtain ⟨progress, going, -⟩ := patient same
    cases going
  cases pending with
  | start lazy => exact of_patient (lazy.patient_poll tally waits) Nat.one_pos
  | waiting key progress? next =>
      cases progress? with
      | none =>
          have tally' : Tally watched world others book := by
            rw [progressAt_waiting] at tally
            simpa [heldAt] using tally
          obtain ⟨same, account⟩ := poll_unbegun watched key next world
          rw [same] at waits
          rw [account]
          exact of_patient ((Lazy.await key next).patient_poll tally' waits) Nat.one_pos
      | some progress =>
          have patient := patient_poll secured.patient tally waits
          rcases resumed : World.resumeKey key (some progress) world with ⟨outcome | left, after⟩
          · simp only [effort, resumed] at patient
            exact of_patient patient Nat.one_pos
          · simp only [effort, resumed] at patient
            exact of_patient patient (Nat.lt_of_lt_of_le Nat.one_pos (Nat.le_add_right _ _))

end Pending

/-- A poll leaves a part of a lazy, or the lazy itself if it waits for a key. -/
theorem Lazy.left_poll (lazy : Lazy σ α) : ∀ {world : World σ} {rest : Pending σ α},
    (lazy.poll world).1 = .pending rest →
      rest.lazy.Within lazy ∨
        rest.lazy = lazy ∧ ∃ key progress? next, rest = .waiting key progress? next := by
  have onward {part lazy : Lazy σ α} {rest : Pending σ α} (one : part.Part lazy)
      (left : rest.lazy.Within part ∨
        rest.lazy = part ∧ ∃ key progress? next, rest = .waiting key progress? next) :
      rest.lazy.Within lazy := by
    rcases left with within | ⟨same, -⟩
    · exact within.tail one
    · exact same ▸ .single one
  induction lazy with
  | done answer =>
      intro world rest waits
      cases waits
  | read next ih =>
      intro world rest waits
      exact .inl (onward (.read world.app) (ih _ waits))
  | write state next ih =>
      intro world rest waits
      exact .inl (onward .write (ih waits))
  | useSource id source next ih =>
      intro world rest waits
      exact .inl (onward .useSource (ih waits))
  | request key next ih =>
      intro world rest waits
      exact .inl (onward .request (ih waits))
  | pause next =>
      intro world rest waits
      injection waits with waits
      subst waits
      exact .inl (.single .pause)
  | await key next ih =>
      intro world rest waits
      unfold poll at waits
      rcases awaited : World.awaitKey key world with ⟨outcome | progress?, after⟩ <;>
        simp only [awaited] at waits
      · exact .inl (onward (.await outcome) (ih outcome waits))
      · injection waits with waits
        subst waits
        exact .inr ⟨rfl, key, progress?, next, rfl⟩

namespace Pending

variable {watched : SourceId} {pending rest : Pending σ α} {world : World σ}

/-- What is polled is in step with all sources, and secured. -/
def Sure (pending : Pending σ α) (world : World σ) : Prop :=
  ∀ watched, ∃ others book,
    Tally watched world ((pending.progressAt watched).toList ++ others) book ∧
      pending.Secured watched book

/-- A poll of something that can go on gets on, unless it is answered. -/
theorem Sure.later_poll (sure : pending.Sure world)
    (waits : (pending.poll world).1 = .pending rest) (can : pending.canGoOn world = true) :
    rest.Later pending := by
  have fetched (key : LoadKey σ) (next : LoadOutcome → Lazy σ α) :
      rest ≠ .waiting key none next := by
    obtain ⟨others, book, tally, secured⟩ := sure key.id
    exact (Secured.left secured tally waits).2 key next rfl
  have of_left {lazy : Lazy σ α} (unbegun : pending.progress? = none) (here : pending.lazy = lazy)
      (left : rest.lazy.Within lazy ∨
        rest.lazy = lazy ∧ ∃ key progress? next, rest = .waiting key progress? next) :
      rest.Later pending := by
    rcases left with within | ⟨same, key, progress?, next, rfl⟩
    · exact .further (here ▸ within)
    · cases progress? with
      | none => exact absurd rfl (fetched key next)
      | some progress => exact .called (same.trans here.symm) unbegun rfl
  cases pending with
  | start lazy => exact of_left rfl rfl (lazy.left_poll waits)
  | waiting key progress? next =>
      cases progress? with
      | none =>
          rw [(poll_unbegun key.id key next world).1] at waits
          exact of_left rfl rfl ((Lazy.await key next).left_poll waits)
      | some progress =>
          obtain ⟨others, book, tally, secured⟩ := sure key.id
          have patient := patient_poll (Secured.patient secured) tally waits
          rcases fetching : World.resumeFetch key.id progress world with ⟨⟨⟨⟩⟩ | left, after⟩
          · rcases awaited : World.awaitKey key after with ⟨outcome | progress?, later⟩
            · simp only [poll, World.resumeKey, fetching, awaited] at waits
              refine .further ?_
              show rest.lazy.Within (.await key next)
              rcases (next outcome).left_poll waits with within | ⟨same, -⟩
              · exact within.tail (.await outcome)
              · exact same ▸ .single (.await outcome)
            · -- Another fetch would be called for a key that has been secured.
              simp only [poll, World.resumeKey, fetching, awaited] at waits
              injection waits with waits
              subst waits
              obtain ⟨-, -, bound, -⟩ := patient rfl
              simp [effort, World.resumeKey, World.callsIn, fetching, awaited] at bound
          · simp only [poll, World.resumeKey, fetching] at waits
            injection waits with waits
            subst waits
            refine .fetching rfl rfl rfl (World.later_resumeFetch (fun ticket same => ?_)
              (congrArg Prod.fst fetching))
            rw [same] at can
            exact can

/-- A poll of something that cannot go on changes nothing. -/
theorem Sure.poll_of_not_canGoOn (sure : pending.Sure world)
    (cannot : pending.canGoOn world = false) : pending.poll world = (.pending pending, world) := by
  cases pending with
  | start lazy => cases cannot
  | waiting key progress? next =>
      cases progress? with
      | none => cases cannot
      | some progress =>
          cases progress with
          | running keys fetch => cases cannot
          | queued ticket =>
              obtain ⟨others, book, tally, -⟩ := sure key.id
              have held : FetchProgress.queued ticket ∈
                  ((waiting key (some (.queued ticket)) next).progressAt key.id).toList ++
                    others := by
                rw [progressAt_waiting, heldAt, if_pos rfl]
                exact List.mem_cons_self
              obtain ⟨state, found, -⟩ := tally.in_use held
              have waits := World.resumeFetch_of_queued found cannot
              simp only [poll, World.resumeKey, waits]

end Pending

end GraphExec
