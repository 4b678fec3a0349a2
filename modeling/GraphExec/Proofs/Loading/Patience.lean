import GraphExec.Proofs.Loading.Ledger

/-!
# How long a key is awaited

Whoever awaits a key asks for it and fetches what is due. While the cache is not cleared the key is
due, in flight or known from then on, and when the one fetch that was called for it has ended it is
known: nobody fetches twice for a key that is not forgotten.
-/

namespace GraphExec

variable {σ α : Type}

/-! ### Nothing is forgotten by polls -/

namespace World

theorem uncleared_fetchAccount (keys : List String) (polled : Polled Unit (FetchProgress σ)) :
    SourceEvent.cleared ∉ fetchAccount keys polled := by
  unfold fetchAccount endAccount
  split
  · exact List.not_mem_nil
  · rcases polled with ⟨⟨⟩⟩ | progress <;> simp

theorem uncleared_beginAccount (id : SourceId) (world : World σ) :
    SourceEvent.cleared ∉ beginAccount id world := by
  unfold beginAccount
  split
  · exact uncleared_fetchAccount _ _
  · exact List.not_mem_nil

theorem uncleared_resumeAccount (id : SourceId) (progress : FetchProgress σ) (world : World σ) :
    SourceEvent.cleared ∉ resumeAccount id progress world := by
  cases progress with
  | queued ticket =>
      simp only [resumeAccount]
      split
      · exact uncleared_fetchAccount _ _
      · exact List.not_mem_nil
  | running keys rest =>
      simp only [resumeAccount, endAccount]
      split <;> simp

theorem uncleared_awaitAccount (key : LoadKey σ) (world : World σ) :
    SourceEvent.cleared ∉ awaitAccount key world := by
  unfold awaitAccount
  split
  · exact List.not_mem_nil
  · simpa using uncleared_beginAccount key.id (world.request key)

theorem uncleared_keyAccount (key : LoadKey σ) (progress? : Option (FetchProgress σ))
    (world : World σ) : SourceEvent.cleared ∉ keyAccount key progress? world := by
  cases progress? with
  | none => exact uncleared_awaitAccount key world
  | some progress =>
      simp only [keyAccount, List.mem_append, not_or]
      refine ⟨uncleared_resumeAccount key.id progress world, ?_⟩
      split
      · exact List.not_mem_nil
      · exact uncleared_awaitAccount key _

end World

theorem uncleared_seenFrom (watched id : SourceId) {events : List SourceEvent}
    (uncleared : SourceEvent.cleared ∉ events) :
    SourceEvent.cleared ∉ seenFrom watched id events := by
  unfold seenFrom
  split
  · exact uncleared
  · exact List.not_mem_nil

theorem Action.uncleared_account (watched : SourceId) (action : Action σ α) :
    ∀ world, SourceEvent.cleared ∉ action.account watched world := by
  induction action with
  | done answer => exact fun _ => List.not_mem_nil
  | read next ih => exact fun world => ih world.app world
  | write state next ih => exact fun _ => ih _
  | useSource id source next ih => exact fun _ => ih _
  | request key next ih =>
      intro world
      rw [account, List.mem_append, not_or]
      exact ⟨uncleared_seenFrom watched key.id (by simp), ih _⟩

theorem Lazy.uncleared_account (watched : SourceId) (lazy : Lazy σ α) :
    ∀ world, SourceEvent.cleared ∉ lazy.account watched world := by
  induction lazy with
  | done answer => exact fun _ => List.not_mem_nil
  | read next ih => exact fun world => ih world.app world
  | write state next ih => exact fun _ => ih _
  | useSource id source next ih => exact fun _ => ih _
  | request key next ih =>
      intro world
      rw [account, List.mem_append, not_or]
      exact ⟨uncleared_seenFrom watched key.id (by simp), ih _⟩
  | pause next => exact fun _ => List.not_mem_nil
  | await key next ih =>
      intro world
      rw [account, List.mem_append, not_or]
      refine ⟨uncleared_seenFrom watched key.id (World.uncleared_awaitAccount key world), ?_⟩
      split
      · exact ih _ _
      · exact List.not_mem_nil

theorem Future.uncleared_account (watched : SourceId) (future : Future σ) (world : World σ) :
    SourceEvent.cleared ∉ future.account watched world := by
  cases future with
  | lazy rest =>
      cases rest with
      | start lazy => exact lazy.uncleared_account watched world
      | waiting key progress? next =>
          rw [account, Pending.account, List.mem_append, not_or]
          refine ⟨uncleared_seenFrom watched key.id (World.uncleared_keyAccount key progress? world),
            ?_⟩
          split
          · exact (next _).uncleared_account watched _
          · exact List.not_mem_nil
  | flush id progress? =>
      cases progress? with
      | none => exact uncleared_seenFrom watched id (World.uncleared_beginAccount id world)
      | some progress =>
          exact uncleared_seenFrom watched id (World.uncleared_resumeAccount id progress world)

/-! ### Keys that are sure to become known -/

/-- When a fetch that somebody called for a key has ended, the key will be known: it is due, in
flight or known while the fetch is to come, and among its keys while it goes on. -/
def FetchProgress.Secures (book : SourceBook) (key : String) : FetchProgress σ → Prop
  | queued _ => key ∈ book.known ∨ key ∈ book.due ∨ ∃ keys, book.inFlight = some keys ∧ key ∈ keys
  | running keys _ => key ∈ book.known ∨ key ∈ keys

theorem FetchProgress.Secures.enter {progress : FetchProgress σ} {book : SourceBook}
    {key : String} {event : SourceEvent} (secures : progress.Secures book key)
    (admits : book.Admits event) (uncleared : event ≠ .cleared) :
    progress.Secures (book.enter event) key := by
  have known : key ∈ book.known → key ∈ (book.enter event).known := by
    intro known
    cases event with
    | asked other =>
        simp only [SourceBook.enter]
        split <;> exact known
    | fetched keys => exact known
    | answered keys => exact List.mem_append_right _ known
    | cleared => exact absurd rfl uncleared
  cases progress with
  | running keys rest => exact secures.imp_left known
  | queued ticket =>
      rcases secures with h | due | ⟨keys, flight, mem⟩
      · exact .inl (known h)
      · cases event with
        | asked other =>
            simp only [Secures, SourceBook.enter]
            split
            · exact .inr (.inl due)
            · exact .inr (.inl (mem_addName.mpr (.inl due)))
        | fetched keys => exact .inr (.inr ⟨keys, rfl, admits.2.1 ▸ due⟩)
        | answered keys => exact .inr (.inl due)
        | cleared => exact absurd rfl uncleared
      · cases event with
        | asked other =>
            simp only [Secures, SourceBook.enter]
            split <;> exact .inr (.inr ⟨keys, flight, mem⟩)
        | fetched others => cases admits.1.symm.trans flight
        | answered others =>
            have same : others = keys := Option.some.inj (admits.symm.trans flight)
            exact .inl (List.mem_append_left _ (same ▸ mem))
        | cleared => exact absurd rfl uncleared

theorem FetchProgress.Secures.enterAll {progress : FetchProgress σ} {key : String}
    {events : List SourceEvent} :
    ∀ {book : SourceBook}, progress.Secures book key → book.Lawful events →
      SourceEvent.cleared ∉ events → progress.Secures (book.enterAll events) key := by
  induction events with
  | nil => exact fun secures _ _ => secures
  | cons event rest ih =>
      intro book secures lawful uncleared
      refine ih (secures.enter lawful.1 ?_) lawful.2 fun mem => uncleared (List.mem_cons_of_mem _ mem)
      exact fun same => uncleared (same ▸ List.mem_cons_self)

/-- What a poll of a fetch leaves a key that somebody awaits in: known at its end, and sure to
become known until then. -/
def SourceBook.Serves (book : SourceBook) (key : String) : Polled Unit (FetchProgress σ) → Prop
  | .ready () => key ∈ book.known
  | .pending progress => progress.Secures book key

namespace World

variable {id : SourceId} {world : World σ} {others : List (FetchProgress σ)} {book : SourceBook}
  {key : String}

theorem serves_runFetch {keys : List String} (secured : key ∈ book.known ∨ key ∈ keys)
    (name : String) (fetch : Fetch σ) :
    (book.enterAll (endAccount keys (runFetch id name keys fetch world).1)).Serves key
      (runFetch id name keys fetch world).1 := by
  unfold runFetch
  rcases fetch.poll world.app with ⟨app, outcome | rest⟩
  · exact List.mem_append.mpr secured.symm
  · exact secured

theorem serves_serve {state : SourceState σ} (found : world.source? id = some state)
    (due : state.pending = book.due) (secured : key ∈ book.known ∨ key ∈ book.due) :
    (book.enterAll (fetchAccount state.pending (serve id world).1)).Serves key
      (serve id world).1 := by
  unfold serve fetchAccount
  simp only [found]
  by_cases empty : state.pending.isEmpty
  · have none_due : book.due = [] := due ▸ List.isEmpty_iff.mp empty
    simp only [empty, if_true]
    exact secured.resolve_right (by simp [none_due])
  · simp only [empty, if_false, Bool.false_eq_true]
    have taken : key ∈ (book.enter (.fetched state.pending)).known ∨ key ∈ state.pending :=
      due ▸ secured
    exact serves_runFetch taken _ _

theorem serves_beginFetch (tally : Tally id world others book)
    (secured : key ∈ book.known ∨ key ∈ book.due) :
    (book.enterAll (beginAccount id world)).Serves key (beginFetch id world).1 := by
  unfold beginAccount
  cases found : world.source? id with
  | none =>
      obtain ⟨-, rfl⟩ := tally.of_none found
      simp [SourceBook.blank] at secured
  | some state =>
      obtain ⟨due, known, seating⟩ := tally.of_some found
      have here : (world.modifySource id fun s => { s with turns := state.turns.draw.2 }).source? id =
          some { state with turns := state.turns.draw.2 } := by simp [found]
      simp only [Option.any_some, decide_eq_true_eq, World.due, found, Option.map_some,
        Option.getD_some]
      cases serving : state.turns.serving with
      | none =>
          have served := Turns.served_draw serving
          simp only [if_true, beginFetch, found, served]
          have due' : ({ state with turns := state.turns.draw.2 } : SourceState σ).pending =
              book.due := due
          have serves := serves_serve here due' secured
          exact serves
      | some ticket =>
          have waits := seating.not_served_draw serving
          simp only [reduceCtorEq, if_false, beginFetch, found, waits]
          exact secured.imp_right .inl

theorem serves_resumeFetch {progress : FetchProgress σ}
    (tally : Tally id world (progress :: others) book) (secures : progress.Secures book key) :
    (book.enterAll (resumeAccount id progress world)).Serves key
      (resumeFetch id progress world).1 := by
  cases progress with
  | running keys rest => exact serves_runFetch secures _ rest
  | queued ticket =>
      unfold resumeAccount
      obtain ⟨state, found, seating⟩ := tally.in_use List.mem_cons_self
      by_cases served : state.turns.serving = some ticket
      · have free := (seating.called_of_queued served).1
        have secured : key ∈ book.known ∨ key ∈ book.due := by
          rcases secures with h | h | ⟨keys, flight, -⟩
          · exact .inl h
          · exact .inr h
          · exact absurd (free.symm.trans flight) nofun
        simp only [isServed, found, Option.any_some, served, decide_true, if_true, World.due,
          Option.map_some, Option.getD_some, resumeFetch]
        exact serves_serve found (tally.of_some found).1 secured
      · simp only [isServed, found, Option.any_some, served, decide_false, Bool.false_eq_true,
          if_false, resumeFetch]
        exact secures

/-- The cache has an outcome of exactly the keys that are known. -/
theorem cached?_isSome_iff (tally : Tally id world others book) (key : String) :
    (world.cached? id key).isSome = true ↔ key ∈ book.known := by
  unfold cached?
  cases found : world.source? id with
  | none =>
      obtain ⟨-, rfl⟩ := tally.of_none found
      simp [SourceBook.blank]
  | some state => exact (tally.of_some found).2.1 key

/-- Whoever awaits a key that is not known has called a fetch that will make it known. -/
theorem secures_awaitKey {key : LoadKey σ} {rest : Option (FetchProgress σ)}
    (tally : Tally key.id world others book) (waits : (awaitKey key world).1 = .pending rest) :
    ∃ progress, rest = some progress ∧
      progress.Secures (book.enterAll (awaitAccount key world)) key.key := by
  unfold awaitAccount
  cases cached : world.cached? key.id key.key with
  | some outcome => simp [awaitKey, cached] at waits
  | none =>
      have asked : Tally key.id (world.request key) others (book.enter (.asked key.key)) := by
        have asked := tally.request key
        rwa [seenFrom, if_pos rfl] at asked
      have secured : key.key ∈ (book.enter (.asked key.key)).known ∨
          key.key ∈ (book.enter (.asked key.key)).due := by
        simp only [SourceBook.enter]
        split
        · exact .inl ‹_›
        · exact .inr (mem_addName.mpr (.inr rfl))
      have serves := serves_beginFetch asked secured
      have goes := tallied_beginFetch asked
      simp only [awaitKey, cached] at waits
      rcases begun : beginFetch key.id (world.request key) with ⟨⟨⟨⟩⟩ | progress, after⟩
      · -- The fetch has ended at once, so the key is known.
        rw [begun] at serves goes waits
        have known : (after.cached? key.id key.key).isSome = true :=
          (cached?_isSome_iff goes.tally key.key).mpr serves
        obtain ⟨outcome, some_known⟩ := Option.isSome_iff_exists.mp known
        simp [some_known] at waits
      · rw [begun] at serves waits
        injection waits with waits
        exact ⟨progress, waits.symm, serves⟩

end World

/-! ### Patience -/

/-- What has been done for a key that somebody awaits. -/
structure Effort where
  /-- How often what is due has been fetched for it, the fetch that goes on counted. -/
  calls : Nat
  /-- How often the cache has been cleared meanwhile. -/
  clears : Nat
deriving DecidableEq, Repr

namespace World

/-- How often what is due is fetched anew when a key is awaited further, and still not known. -/
def callsIn (key : LoadKey σ) (progress? : Option (FetchProgress σ)) (world : World σ) : Nat :=
  match progress? with
  | none => 1
  | some progress =>
    match resumeFetch key.id progress world with
    | (.ready (), _) => 1
    | (.pending _, _) => 0

end World

namespace Pending

/-- The effort for the key that is awaited after a poll: another key is begun with one call. -/
def effort (before : Effort) : Pending σ α → World σ → Effort
  | start _, _ => ⟨1, 0⟩
  | waiting key progress? _, world =>
    match World.resumeKey key progress? world with
    | (.ready _, _) => ⟨1, 0⟩
    | (.pending _, _) => { before with calls := before.calls + World.callsIn key progress? world }

/-- Not more is done for a key than one fetch, and one more for each time that it may have been
forgotten. As long as that is not exhausted the fetch that goes on secures the key. -/
def Patient (watched : SourceId) (book : SourceBook) (effort : Effort) : Pending σ α → Prop
  | start _ => True
  | waiting key progress? _ => key.id = watched → ∃ progress, progress? = some progress ∧
    effort.calls ≤ effort.clears + 1 ∧
    (effort.calls = effort.clears + 1 → progress.Secures book key.key)

/-- What others do, short of clearing the cache, keeps what is secured. -/
theorem Patient.enterAll {watched : SourceId} {book : SourceBook} {effort : Effort}
    {rest : Pending σ α} {events : List SourceEvent} (patient : rest.Patient watched book effort)
    (lawful : book.Lawful events) (uncleared : SourceEvent.cleared ∉ events) :
    rest.Patient watched (book.enterAll events) effort := by
  cases rest with
  | start lazy => trivial
  | waiting key progress? next =>
      intro same
      obtain ⟨progress, going, bound, secures⟩ := patient same
      exact ⟨progress, going, bound, fun full => (secures full).enterAll lawful uncleared⟩

/-- A clearing may have made one more fetch necessary. -/
theorem Patient.clear {watched : SourceId} {book : SourceBook} {effort : Effort}
    {rest : Pending σ α} (patient : rest.Patient watched book effort) :
    rest.Patient watched (book.enter .cleared) { effort with clears := effort.clears + 1 } := by
  cases rest with
  | start lazy => trivial
  | waiting key progress? next =>
      intro same
      obtain ⟨progress, going, bound, -⟩ := patient same
      refine ⟨progress, going, ?_, fun full => ?_⟩
      · show effort.calls ≤ effort.clears + 1 + 1
        omega
      · have full : effort.calls = effort.clears + 1 + 1 := full
        omega

end Pending

theorem Lazy.patient_poll {watched : SourceId} {others : List (FetchProgress σ)}
    (lazy : Lazy σ α) :
    ∀ {world : World σ} {book : SourceBook} {rest : Pending σ α}, Tally watched world others book →
      (lazy.poll world).1 = .pending rest →
      rest.Patient watched (book.enterAll (lazy.account watched world)) ⟨1, 0⟩ := by
  induction lazy with
  | done answer => exact fun _ waits => absurd waits nofun
  | read next ih => exact fun {world _ _} tally waits => ih world.app tally waits
  | write state next ih => exact fun tally waits => ih (tally.of_source?_eq rfl) waits
  | useSource id source next ih => exact fun tally waits => ih (tally.useSource id source) waits
  | request key next ih =>
      intro world book rest tally waits
      rw [account, SourceBook.enterAll_append]
      exact ih (tally.request key) waits
  | pause next =>
      intro world book rest tally waits
      injection waits with waits
      exact waits ▸ trivial
  | await key next ih =>
      intro world book rest tally waits
      have held : Tally watched world (heldAt watched key.id none ++ others) book := by
        simpa [heldAt] using tally
      have counted := Tallied.seen none held World.tallied_awaitKey
        fun other differs => World.source?_awaitKey differs world
      rcases awaited : World.awaitKey key world with ⟨outcome | progress?, after⟩
      · rw [awaited] at counted
        simp only [poll, awaited] at waits
        rw [account, awaited, SourceBook.enterAll_append]
        exact ih outcome (by simpa [heldAt, Polled.left] using counted.tally) waits
      · simp only [poll, awaited, Polled.pending.injEq] at waits
        rw [account, awaited, List.append_nil, ← waits]
        intro same
        have here : Tally key.id world others book := same ▸ tally
        obtain ⟨progress, going, secures⟩ :=
          World.secures_awaitKey here (congrArg Prod.fst awaited)
        rw [seenFrom, if_pos same]
        exact ⟨progress, going, Nat.le_refl _, fun _ => secures⟩

theorem Pending.patient_poll {watched : SourceId} {others : List (FetchProgress σ)}
    {pending rest : Pending σ α} {world : World σ} {book : SourceBook} {effort : Effort}
    (patient : pending.Patient watched book effort)
    (tally : Tally watched world ((pending.progressAt watched).toList ++ others) book)
    (waits : (pending.poll world).1 = .pending rest) :
    rest.Patient watched (book.enterAll (pending.account watched world))
      (pending.effort effort world) := by
  cases pending with
  | start lazy => exact lazy.patient_poll tally waits
  | waiting key progress? next =>
      rw [progressAt_waiting] at tally
      have counted := Tallied.seen _ tally World.tallied_resumeKey
        fun other differs => World.source?_resumeKey differs progress? world
      rcases resumed : World.resumeKey key progress? world with ⟨outcome | progress'?, after⟩
      · rw [resumed] at counted
        simp only [poll, resumed] at waits
        rw [account, resumed, SourceBook.enterAll_append]
        simp only [Pending.effort, resumed]
        exact (next outcome).patient_poll (by simpa [heldAt, Polled.left] using counted.tally) waits
      · simp only [poll, resumed, Polled.pending.injEq] at waits
        rw [account, resumed, List.append_nil, ← waits]
        simp only [Pending.effort, resumed]
        intro same
        obtain ⟨progress, rfl, bound, secures⟩ := patient same
        have here : Tally key.id world (progress :: others) book := tally.heldAt same
        rw [seenFrom, if_pos same]
        simp only [World.resumeKey] at resumed
        rcases fetched : World.resumeFetch key.id progress world with ⟨⟨⟨⟩⟩ | going, later⟩
        · -- The fetch that was called has ended. Had it secured the key, it would be known.
          have ended := World.tallied_resumeFetch progress here
          rw [fetched] at ended resumed
          have tally' : Tally key.id later others
              (book.enterAll (World.resumeAccount key.id progress world)) := ended.tally
          obtain ⟨progress', going', secures'⟩ :=
            World.secures_awaitKey tally' (congrArg Prod.fst resumed)
          have short : effort.calls ≤ effort.clears := Nat.le_of_not_lt fun long => by
            have serves := World.serves_resumeFetch here (secures (by omega))
            rw [fetched] at serves
            have known := (World.cached?_isSome_iff tally' key.key).mpr serves
            obtain ⟨outcome, cached⟩ := Option.isSome_iff_exists.mp known
            simp only [World.awaitKey, cached] at resumed
            cases congrArg Prod.fst resumed
          refine ⟨progress', going', ?_, fun _ => ?_⟩
          · simp only [World.callsIn, fetched]
            omega
          · simp only [World.keyAccount, fetched, SourceBook.enterAll_append]
            exact secures'
        · -- It goes on, or is still to come.
          rw [fetched] at resumed
          injection resumed with resumed
          injection resumed with resumed
          refine ⟨going, resumed.symm, ?_, fun full => ?_⟩
          · simpa [World.callsIn, fetched] using bound
          · have serves := World.serves_resumeFetch here
              (secures (by simpa [World.callsIn, fetched] using full))
            rw [fetched] at serves
            simp only [World.keyAccount, fetched, List.append_nil]
            exact serves

end GraphExec
