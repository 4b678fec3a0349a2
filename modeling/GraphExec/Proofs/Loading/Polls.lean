import GraphExec.Proofs.Loading.Tally

/-!
# Polls keep the tally

Every poll of a future, every piece of application code and every clearing of the cache keeps the
tally of a source, and the events that it causes are lawful.
-/

namespace GraphExec

variable {σ α : Type}

/-- Events that may happen, and the tally that they lead to. -/
structure Tallied (watched : SourceId) (book : SourceBook) (events : List SourceEvent)
    (world : World σ) (held : List (FetchProgress σ)) : Prop where
  /-- The events may happen. -/
  lawful : book.Lawful events
  /-- They lead to a tally. -/
  tally : Tally watched world held (book.enterAll events)

namespace Tallied

variable {watched : SourceId} {book : SourceBook} {world : World σ}
  {held : List (FetchProgress σ)}

theorem none (tally : Tally watched world held book) : Tallied watched book [] world held :=
  ⟨trivial, tally⟩

theorem append {first second : List SourceEvent} (lawful : book.Lawful first)
    (rest : Tallied watched (book.enterAll first) second world held) :
    Tallied watched book (first ++ second) world held :=
  ⟨SourceBook.lawful_append.mpr ⟨lawful, rest.lawful⟩,
    by rw [SourceBook.enterAll_append]; exact rest.tally⟩

end Tallied

/-- A key may be asked for at any time. -/
theorem SourceBook.lawful_seenFrom_asked (book : SourceBook) (watched id : SourceId)
    (key : String) : book.Lawful (seenFrom watched id [.asked key]) := by
  unfold seenFrom
  split
  · exact ⟨trivial, trivial⟩
  · trivial

namespace World

variable {id : SourceId} {world : World σ} {others : List (FetchProgress σ)} {book : SourceBook}

/-- Going on with a fetch leaves other sources as they are. -/
theorem source?_runFetch {other : SourceId} (differs : other ≠ id) (name : String)
    (keys : List String) (fetch : Fetch σ) (world : World σ) :
    (runFetch id name keys fetch world).2.source? other = world.source? other := by
  unfold runFetch
  rcases fetch.poll world.app with ⟨app, outcome | rest⟩
  · simp only [source?_modifySource_other differs, source?_tell, source?_app]
  · rfl

theorem source?_serve {other : SourceId} (differs : other ≠ id) (world : World σ) :
    (serve id world).2.source? other = world.source? other := by
  unfold serve
  cases found : world.source? id with
  | none => rfl
  | some state =>
      by_cases empty : state.pending.isEmpty
      · simp only [empty, if_true, source?_modifySource_other differs]
      · simp only [empty, if_false, Bool.false_eq_true, source?_runFetch differs, source?_tell,
          source?_modifySource_other differs]

theorem source?_beginFetch {other : SourceId} (differs : other ≠ id) (world : World σ) :
    (beginFetch id world).2.source? other = world.source? other := by
  unfold beginFetch
  cases found : world.source? id with
  | none => rfl
  | some state =>
      by_cases served : state.turns.draw.2.serving = some state.turns.draw.1
      · simp only [served, if_true, source?_serve differs, source?_modifySource_other differs]
      · simp only [served, if_false, source?_modifySource_other differs]

theorem source?_resumeFetch {other : SourceId} (differs : other ≠ id)
    (progress : FetchProgress σ) (world : World σ) :
    (resumeFetch id progress world).2.source? other = world.source? other := by
  cases progress with
  | queued ticket =>
      cases found : world.source? id with
      | none => simp only [resumeFetch, found]
      | some state =>
          by_cases served : state.turns.serving = some ticket
          · simp only [resumeFetch, found, served, if_true, source?_serve differs]
          · simp only [resumeFetch, found, served, if_false]
  | running keys rest => exact source?_runFetch differs _ _ _ _

/-- Going on with a fetch in flight: at its end its keys are known and the next ticket is called. -/
theorem tallied_runFetch {keys : List String} {rest : Fetch σ}
    (tally : Tally id world (.running keys rest :: others) book) (name : String) :
    Tallied id book (endAccount keys (runFetch id name keys rest world).1)
      (runFetch id name keys rest world).2
      ((runFetch id name keys rest world).1.left.toList ++ others) := by
  obtain ⟨state, found, seating⟩ := tally.in_use List.mem_cons_self
  obtain ⟨due, known, -⟩ := tally.of_some found
  obtain ⟨flight, ticket, waiting, next, turns, distinct, drawn, seats⟩ :=
    seating.serving_of_running
  unfold runFetch
  rcases rest.poll world.app with ⟨app, outcome | rest'⟩
  · -- The fetch has answered.
    refine ⟨⟨flight, trivial⟩, Tally.mk_some ({ state.record keys outcome with
      turns := state.turns.leave }) ?_ due ?_ ?_⟩
    · simp [found, SourceState.record]
    · intro key
      rw [show ({ state.record keys outcome with turns := state.turns.leave } :
        SourceState σ).results = (state.record keys outcome).results from rfl,
        SourceState.has_record, known]
      exact List.mem_append.symm
    · show Seating state.turns.leave others none
      rw [turns]
      exact Seating.leave distinct drawn seats
  · -- It goes on.
    refine ⟨trivial, Tally.mk_some state found due known ?_⟩
    show Seating state.turns (.running keys rest' :: others) book.inFlight
    rw [turns, flight]
    exact .serving rest' distinct drawn (seats.cons _)

/-- The future whose ticket is served fetches what is due. -/
theorem tallied_serve (state : SourceState σ) {ticket : Nat}
    (tally : Tally id world (.queued ticket :: others) book)
    (found : world.source? id = some state) (served : state.turns.serving = some ticket) :
    Tallied id book (fetchAccount state.pending (serve id world).1) (serve id world).2
      ((serve id world).1.left.toList ++ others) := by
  obtain ⟨due, known, seating⟩ := tally.of_some found
  obtain ⟨free, waiting, next, turns, distinct, drawn, seats⟩ := seating.called_of_queued served
  unfold serve fetchAccount
  simp only [found]
  by_cases empty : state.pending.isEmpty
  · -- Nothing is due: the next ticket is called.
    simp only [empty, if_true]
    refine ⟨trivial, Tally.mk_some ({ state with turns := state.turns.leave }) ?_ due
      known ?_⟩
    · simp [found]
    · show Seating state.turns.leave others book.inFlight
      rw [turns, free]
      exact Seating.leave distinct drawn seats
  · simp only [empty, if_false, Bool.false_eq_true]
    have some_due : state.pending ≠ [] := fun h => empty (by rw [h]; rfl)
    have begun : Tally id
        ((world.modifySource id fun state => { state with pending := [] }).tell
          (.beginFetch state.source.name state.pending.length))
        (.running state.pending (state.source.fetch state.pending) :: others)
        (book.enter (.fetched state.pending)) := by
      refine Tally.mk_some ({ state with pending := [] }) ?_ rfl known ?_
      · simp [found]
      · show Seating state.turns _ (some state.pending)
        rw [turns]
        exact .serving _ distinct drawn (seats.cons _)
    have goes := tallied_runFetch begun state.source.name
    exact ⟨⟨⟨free, due, some_due⟩, goes.lawful⟩, goes.tally⟩

/-- Drawing a ticket, and fetching what is due if it is served. -/
theorem tallied_beginFetch (tally : Tally id world others book) :
    Tallied id book (beginAccount id world) (beginFetch id world).2
      ((beginFetch id world).1.left.toList ++ others) := by
  unfold beginAccount
  cases found : world.source? id with
  | none =>
      simp only [Option.any_none, Bool.false_eq_true, if_false, beginFetch, found]
      exact .none tally
  | some state =>
      obtain ⟨due, known, seating⟩ := tally.of_some found
      have drawn : Tally id
          (world.modifySource id fun s => { s with turns := state.turns.draw.2 })
          (.queued state.turns.draw.1 :: others) book :=
        Tally.mk_some ({ state with turns := state.turns.draw.2 }) (by simp [found])
          due known seating.draw
      have here : (world.modifySource id fun s => { s with turns := state.turns.draw.2 }).source? id =
          some { state with turns := state.turns.draw.2 } := by simp [found]
      simp only [Option.any_some, decide_eq_true_eq, World.due, found, Option.map_some,
        Option.getD_some]
      cases serving : state.turns.serving with
      | none =>
          have served := Turns.served_draw serving
          simp only [if_true, beginFetch, found, served]
          exact tallied_serve { state with turns := state.turns.draw.2 } drawn here served
      | some ticket =>
          have waits := seating.not_served_draw serving
          simp only [reduceCtorEq, if_false, beginFetch, found, waits]
          exact .none drawn

/-- Going on with a fetch that has been begun. -/
theorem tallied_resumeFetch (progress : FetchProgress σ)
    (tally : Tally id world (progress :: others) book) :
    Tallied id book (resumeAccount id progress world) (resumeFetch id progress world).2
      ((resumeFetch id progress world).1.left.toList ++ others) := by
  cases progress with
  | queued ticket =>
      unfold resumeAccount
      obtain ⟨state, found, -⟩ := tally.in_use List.mem_cons_self
      by_cases served : state.turns.serving = some ticket
      · simp only [isServed, found, Option.any_some, served, decide_true, if_true, World.due,
          Option.map_some, Option.getD_some, resumeFetch]
        exact tallied_serve state tally found served
      · simp only [isServed, found, Option.any_some, served, decide_false, Bool.false_eq_true,
          if_false, resumeFetch]
        exact .none tally
  | running keys rest => exact tallied_runFetch tally _

/-- Awaiting a key leaves other sources as they are. -/
theorem source?_awaitKey {key : LoadKey σ} {other : SourceId} (differs : other ≠ key.id)
    (world : World σ) : (awaitKey key world).2.source? other = world.source? other := by
  unfold awaitKey
  cases cached : world.cached? key.id key.key with
  | some outcome => rfl
  | none =>
      have asked : (beginFetch key.id (world.request key)).2.source? other =
          world.source? other := by
        rw [source?_beginFetch differs, source?_request, if_neg differs]
      rcases begun : beginFetch key.id (world.request key) with ⟨⟨⟩ | progress, world'⟩
      · rw [begun] at asked
        simp only
        cases world'.cached? key.id key.key <;> exact asked
      · rw [begun] at asked
        exact asked

theorem source?_resumeKey {key : LoadKey σ} {other : SourceId} (differs : other ≠ key.id)
    (progress? : Option (FetchProgress σ)) (world : World σ) :
    (resumeKey key progress? world).2.source? other = world.source? other := by
  cases progress? with
  | none => exact source?_awaitKey differs world
  | some progress =>
      have resumed := source?_resumeFetch differs progress world
      rcases going : resumeFetch key.id progress world with ⟨⟨⟩ | progress', world'⟩
      · rw [going] at resumed
        simp only [resumeKey, going]
        exact (source?_awaitKey differs world').trans resumed
      · rw [going] at resumed
        simp only [resumeKey, going]
        exact resumed

/-- Awaiting a key that is not being fetched by the one who awaits it. -/
theorem tallied_awaitKey {key : LoadKey σ} (tally : Tally key.id world others book) :
    Tallied key.id book (awaitAccount key world) (awaitKey key world).2
      ((awaitKey key world).1.left.join.toList ++ others) := by
  unfold awaitAccount awaitKey
  cases cached : world.cached? key.id key.key with
  | some outcome => exact .none tally
  | none =>
      have asked := tally.request key
      rw [seenFrom, if_pos rfl] at asked
      have goes := tallied_beginFetch asked
      have lawful : book.Lawful (.asked key.key :: beginAccount key.id (world.request key)) :=
        ⟨trivial, goes.lawful⟩
      rcases begun : beginFetch key.id (world.request key) with ⟨⟨⟩ | progress, world'⟩
      · have reached := goes.tally
        rw [begun] at reached
        simp only
        cases world'.cached? key.id key.key <;> exact ⟨lawful, reached⟩
      · have reached := goes.tally
        rw [begun] at reached
        exact ⟨lawful, reached⟩

/-- Going on awaiting a key. -/
theorem tallied_resumeKey {key : LoadKey σ} {progress? : Option (FetchProgress σ)}
    (tally : Tally key.id world (progress?.toList ++ others) book) :
    Tallied key.id book (keyAccount key progress? world) (resumeKey key progress? world).2
      ((resumeKey key progress? world).1.left.join.toList ++ others) := by
  cases progress? with
  | none => exact tallied_awaitKey tally
  | some progress =>
      have goes := tallied_resumeFetch progress tally
      rcases resumed : resumeFetch key.id progress world with ⟨⟨⟩ | progress', world'⟩
      · rw [resumed] at goes
        simp only [keyAccount, resumeKey, resumed]
        have reached : Tally key.id world' others _ := goes.tally
        exact .append goes.lawful (tallied_awaitKey reached)
      · rw [resumed] at goes
        simp only [keyAccount, resumeKey, resumed, List.append_nil]
        exact goes

end World

/-- What futures hold of a source that is not the one looked at does not count. -/
def heldAt (watched id : SourceId) (progress? : Option (FetchProgress σ)) :
    List (FetchProgress σ) :=
  if id = watched then progress?.toList else []

namespace Tallied

variable {watched : SourceId} {book : SourceBook} {world : World σ}
  {others : List (FetchProgress σ)}

/-- What happens at one source, seen from any. -/
theorem seen {id : SourceId} {events : List SourceEvent} {after : World σ}
    (before? : Option (FetchProgress σ)) {after? : Option (FetchProgress σ)}
    (tally : Tally watched world (heldAt watched id before? ++ others) book)
    (here : ∀ {others book}, Tally id world (before?.toList ++ others) book →
      Tallied id book events after (after?.toList ++ others))
    (aside : ∀ other, other ≠ id → after.source? other = world.source? other) :
    Tallied watched book (seenFrom watched id events) after
      (heldAt watched id after? ++ others) := by
  unfold heldAt seenFrom at *
  by_cases same : id = watched
  · subst same
    rw [if_pos rfl] at tally ⊢
    rw [if_pos rfl]
    exact here tally
  · rw [if_neg same] at tally ⊢
    rw [if_neg same]
    exact .none (tally.of_source?_eq (aside watched fun h => same h.symm))

end Tallied

/-- Running application code. -/
theorem Action.tallied_run {watched : SourceId} {held : List (FetchProgress σ)}
    (action : Action σ α) {world : World σ} {book : SourceBook}
    (tally : Tally watched world held book) :
    Tallied watched book (action.account watched world) (action.run world).2 held := by
  induction action generalizing world book with
  | done answer => exact .none tally
  | read next ih => exact ih world.app tally
  | write state next ih => exact ih (tally.of_source?_eq rfl)
  | useSource id source next ih => exact ih (tally.useSource id source)
  | request key next ih =>
      exact .append (book.lawful_seenFrom_asked watched key.id key.key) (ih (tally.request key))

/-- How far a waiting lazy has got with a fetch, at the source that is looked at. -/
theorem Pending.progressAt_waiting (watched : SourceId) (key : LoadKey σ)
    (progress? : Option (FetchProgress σ)) (next : LoadOutcome → Lazy σ α) :
    ((waiting key progress? next).progressAt watched).toList = heldAt watched key.id progress? := by
  simp only [progressAt, heldAt]
  split <;> rfl

namespace Lazy

/-- Polling a lazy. -/
theorem tallied_poll {watched : SourceId} {others : List (FetchProgress σ)} (lazy : Lazy σ α)
    {world : World σ} {book : SourceBook} (tally : Tally watched world others book) :
    Tallied watched book (lazy.account watched world) (lazy.poll world).2
      (((lazy.poll world).1.left.bind (Pending.progressAt watched)).toList ++ others) := by
  induction lazy generalizing world book with
  | done answer => exact .none tally
  | read next ih => exact ih world.app tally
  | write state next ih => exact ih (tally.of_source?_eq rfl)
  | useSource id source next ih => exact ih (tally.useSource id source)
  | request key next ih =>
      exact .append (book.lawful_seenFrom_asked watched key.id key.key) (ih (tally.request key))
  | pause next => exact .none tally
  | await key next ih =>
      have goes : Tallied watched book (seenFrom watched key.id (World.awaitAccount key world))
          (World.awaitKey key world).2
          (heldAt watched key.id (World.awaitKey key world).1.left.join ++ others) := by
        refine Tallied.seen none ?_ World.tallied_awaitKey
          fun other differs => World.source?_awaitKey differs world
        simpa [heldAt] using tally
      rcases awaited : World.awaitKey key world with ⟨outcome | progress?, world'⟩
      · rw [awaited] at goes
        simp only [account, poll, awaited]
        refine .append goes.lawful (ih outcome ?_)
        simpa [heldAt, Polled.left] using goes.tally
      · rw [awaited] at goes
        simp only [account, poll, awaited, List.append_nil, Polled.left, Option.bind_some,
          Pending.progressAt_waiting]
        exact goes

end Lazy

namespace Pending

/-- Polling what is left of a lazy. -/
theorem tallied_poll {watched : SourceId} {others : List (FetchProgress σ)} (rest : Pending σ α)
    {world : World σ} {book : SourceBook}
    (tally : Tally watched world ((rest.progressAt watched).toList ++ others) book) :
    Tallied watched book (rest.account watched world) (rest.poll world).2
      (((rest.poll world).1.left.bind (progressAt watched)).toList ++ others) := by
  cases rest with
  | start lazy => exact lazy.tallied_poll tally
  | waiting key progress? next =>
      rw [progressAt_waiting] at tally
      have goes := Tallied.seen _ tally World.tallied_resumeKey
        fun other differs => World.source?_resumeKey differs progress? world
      rcases resumed : World.resumeKey key progress? world with ⟨outcome | progress', world'⟩
      · rw [resumed] at goes
        simp only [account, poll, resumed]
        refine .append goes.lawful ((next outcome).tallied_poll ?_)
        simpa [heldAt, Polled.left] using goes.tally
      · rw [resumed] at goes
        simp only [account, poll, resumed, List.append_nil, Polled.left, Option.bind_some,
          progressAt_waiting]
        exact goes

end Pending

namespace Future

theorem progressAt_flush (watched id : SourceId) (progress? : Option (FetchProgress σ)) :
    ((flush id progress?).progressAt watched).toList = heldAt watched id progress? := by
  simp only [progressAt, heldAt]
  split <;> rfl

/-- What is left of a flush after a poll of its fetch. -/
def ofPolled (id : SourceId) : Polled Unit (FetchProgress σ) → Option (Future σ)
  | .ready () => none
  | .pending progress => some (flush id (some progress))

theorem progressAt_ofPolled (watched id : SourceId) (polled : Polled Unit (FetchProgress σ)) :
    ((ofPolled id polled).bind (progressAt watched)).toList = heldAt watched id polled.left := by
  rcases polled with ⟨⟨⟩⟩ | progress
  · simp [ofPolled, heldAt, Polled.left]
  · exact progressAt_flush watched id (some progress)

theorem poll_flush_none (id : SourceId) (world : World σ) :
    (flush id none).poll world =
      (ofPolled id (World.beginFetch id world).1, (World.beginFetch id world).2) := by
  simp only [poll]
  rcases World.beginFetch id world with ⟨⟨⟨⟩⟩ | progress, world'⟩ <;> rfl

theorem poll_flush_some (id : SourceId) (progress : FetchProgress σ) (world : World σ) :
    (flush id (some progress)).poll world =
      (ofPolled id (World.resumeFetch id progress world).1,
        (World.resumeFetch id progress world).2) := by
  simp only [poll]
  rcases World.resumeFetch id progress world with ⟨⟨⟨⟩⟩ | progress, world'⟩ <;> rfl

/-- Polling a future. -/
theorem tallied_poll {watched : SourceId} {others : List (FetchProgress σ)} (future : Future σ)
    {world : World σ} {book : SourceBook}
    (tally : Tally watched world ((future.progressAt watched).toList ++ others) book) :
    Tallied watched book (future.account watched world) (future.poll world).2
      (((future.poll world).1.bind (progressAt watched)).toList ++ others) := by
  cases future with
  | lazy rest =>
      have goes := rest.tallied_poll tally
      rcases polled : rest.poll world with ⟨answer | rest', world'⟩ <;> rw [polled] at goes <;>
        simp only [poll, polled] <;> exact goes
  | flush id progress? =>
      rw [progressAt_flush] at tally
      cases progress? with
      | none =>
          rw [poll_flush_none, progressAt_ofPolled]
          exact .seen _ tally World.tallied_beginFetch
            fun other differs => World.source?_beginFetch differs world
      | some progress =>
          rw [poll_flush_some, progressAt_ofPolled]
          exact .seen _ tally (World.tallied_resumeFetch progress)
            fun other differs => World.source?_resumeFetch differs progress world

end Future

namespace Traffic

/-- What one future holds, and what the others hold. -/
theorem apart (watched : SourceId) (first last : List (Future σ)) (future? : Option (Future σ)) :
    ((first ++ future?.toList ++ last).filterMap (Future.progressAt watched)).Perm
      ((future?.bind (Future.progressAt watched)).toList ++
        (first ++ last).filterMap (Future.progressAt watched)) := by
  have same : future?.toList.filterMap (Future.progressAt watched) =
      (future?.bind (Future.progressAt watched)).toList := by
    cases future? with
    | none => rfl
    | some future => cases h : future.progressAt watched <;> simp [h]
  rw [List.filterMap_append, List.filterMap_append, List.filterMap_append, same,
    ← List.append_assoc]
  exact List.perm_append_comm.append_right _

/-- Whatever comes about, the events at a source are lawful, and they tell its state. -/
theorem Reached.tallied {watched : SourceId} {traffic : Traffic σ}
    (reached : Reached watched traffic) :
    Tallied watched .blank traffic.events traffic.world
      (traffic.futures.filterMap (Future.progressAt watched)) := by
  induction reached with
  | start app observe => exact ⟨trivial, rfl, rfl⟩
  | @move before after reached move ih =>
      cases move with
      | act _ action => exact .append ih.lawful (action.tallied_run ih.tally)
      | change _ app => exact ⟨ih.lawful, ih.tally.of_source?_eq rfl⟩
      | make _ future fresh =>
          have holds_nothing : future.progressAt watched = none := by
            cases future with
            | lazy rest =>
                cases rest with
                | start lazy => rfl
                | waiting key progress? next => cases fresh
            | flush id progress? =>
                cases fresh
                simp [Future.progressAt]
          rw [List.filterMap_append, List.filterMap_cons, holds_nothing, List.filterMap_nil,
            List.append_nil]
          exact ih
      | poll _ first last future among =>
          have tally := ih.tally
          have shape : before.futures = first ++ (some future).toList ++ last := by
            simpa using among
          rw [shape] at tally
          have goes := future.tallied_poll (tally.held_perm (apart watched first last (some future)))
          exact .append ih.lawful ⟨goes.lawful,
            goes.tally.held_perm (apart watched first last (future.poll before.world).1).symm⟩
      | clear => exact .append ih.lawful ⟨⟨trivial, trivial⟩, ih.tally.clear⟩

end Traffic

end GraphExec
