import Mathlib
import GraphExec.Proofs.Loading.Fair
import GraphExec.Proofs.Loading.Refetch

/-!
# What sources promise

Main statement: whatever sources answer, and in whatever order clients are polled, keys are asked
for and the cache is cleared, a source makes one fetch at a time, of keys that are distinct and at
least one; whoever loads a key is given what a completed fetch said of it; and as long as the cache
is not cleared, nobody who awaits a key calls a second fetch for it, and everybody is answered.
-/

namespace GraphExec

variable {σ : Type} {watched : SourceId}

namespace Ledger

/-- The keys of the fetch that goes on. -/
def inFlight (ledger : Ledger) : Option (List String) :=
  (SourceBook.blank.enterAll ledger.events).inFlight

variable {ledger first rest : Ledger}

theorem admits_of_lawful (lawful : SourceBook.blank.Lawful ledger.events) {entry : LoadEvent}
    {event : SourceEvent} (split : ledger = first ++ entry :: rest)
    (told : entry.event? = some event) :
    (SourceBook.blank.enterAll first.events).Admits event := by
  rw [split, events_append, events_cons, told] at lawful
  exact (SourceBook.lawful_append.mp lawful).2.1

/-- A fetch begins while none goes on, and takes at least one key and no key twice. -/
theorem fetched_apart (lawful : SourceBook.blank.Lawful ledger.events) {keys : List String}
    (split : ledger = first ++ .fetched keys :: rest) :
    first.inFlight = none ∧ keys ≠ [] ∧ keys.Nodup := by
  obtain ⟨free, -, some_due⟩ := admits_of_lawful lawful split rfl
  refine ⟨free, some_due, SourceBook.fetched_nodup List.nodup_nil lawful ?_⟩
  exact List.mem_filterMap.mpr ⟨.fetched keys, by rw [split]; simp, rfl⟩

/-- What is answered is the fetch that goes on. -/
theorem answered_in_flight (lawful : SourceBook.blank.Lawful ledger.events) {name : String}
    {keys : List String} {outcome : Except ExecutionError (List Value)}
    (split : ledger = first ++ .answered name keys outcome :: rest) :
    first.inFlight = some keys :=
  admits_of_lawful lawful split rfl

end Ledger

namespace Exchange

variable {exchange : Exchange σ}

/-- What a source promises, as far as an exchange has come. -/
structure Orderly (watched : SourceId) (exchange : Exchange σ) : Prop where
  /-- No two clients have a fetch in flight. -/
  one_fetches : ∀ (i j : Nat) (one other : Client σ) (keys keys' : List String)
    (rest rest' : Fetch σ), exchange.clients[i]? = some one → exchange.clients[j]? = some other →
    one.progressAt watched = some (.running keys rest) →
    other.progressAt watched = some (.running keys' rest') → i = j
  /-- A fetch begins while none goes on, and takes at least one key and no key twice. -/
  fetches : ∀ (first rest : Ledger) (keys : List String),
    exchange.ledger = first ++ .fetched keys :: rest →
    first.inFlight = none ∧ keys ≠ [] ∧ keys.Nodup
  /-- What is answered is the fetch that goes on. -/
  answers : ∀ (first rest : Ledger) (name : String) (keys : List String)
    (outcome : Except ExecutionError (List Value)),
    exchange.ledger = first ++ .answered name keys outcome :: rest → first.inFlight = some keys
  /-- Whoever awaits a key is given what a completed fetch said of it, and nothing that has been
  forgotten. -/
  loads : ∀ (first rest : Ledger) (key : String) (said : LoadOutcome),
    exchange.ledger = first ++ .loaded key said :: rest → first.Recalls key said
  /-- The load of a key comes to what was given for the key. -/
  load : ∀ (key : LoadKey σ) (fed : Feed σ) (answer : Except ResolverError Value),
    .answered (.load key) fed answer ∈ exchange.clients → key.id = watched →
    ∃ outcome, answer = outcome.mapError .execution ∧
      LoadEvent.loaded key.key outcome ∈ exchange.ledger
  /-- The loads of keys come to the values that were given for the keys, in their order, or to the
  first failure. -/
  loadMany : ∀ (keys : List (LoadKey σ)) (fed : Feed σ)
    (answer : Except ResolverError (List Value)),
    .answered (.loadMany keys) fed answer ∈ exchange.clients →
    Lazy.Delivers keys fed answer ∧ fed.Given watched exchange.ledger
  /-- Nobody calls more fetches for the key that it awaits than one, and one for each time that the
  cache has been cleared meanwhile. -/
  effort : ∀ (α : Type) (made : Lazy σ α) (fed : Feed σ) (effort : Effort) (key : LoadKey σ)
    (progress? : Option (FetchProgress σ)) (next : LoadOutcome → Lazy σ α),
    .going made fed effort (.waiting key progress? next) ∈ exchange.clients →
    key.id = watched → effort.calls ≤ effort.clears + 1

/-- Only one client has a fetch in flight, for only one is served. -/
theorem Sound.one_fetches (sound : exchange.Sound watched) {i j : Nat} {one other : Client σ}
    {keys keys' : List String} {rest rest' : Fetch σ} (here : exchange.clients[i]? = some one)
    (there : exchange.clients[j]? = some other)
    (runs : one.progressAt watched = some (.running keys rest))
    (runs' : other.progressAt watched = some (.running keys' rest')) : i = j := by
  refine Classical.byContradiction fun apart => ?_
  obtain ⟨bound, rfl⟩ := List.getElem?_eq_some_iff.mp here
  have split := (List.getElem_cons_eraseIdx_perm bound).symm.filterMap
    (Client.progressAt watched)
  rw [List.filterMap_cons, runs] at split
  have tally := sound.tallied.tally.held_perm split
  obtain ⟨state, -, seating⟩ := tally.in_use List.mem_cons_self
  obtain ⟨-, ticket, waiting, next, -, -, -, seats⟩ := seating.serving_of_running
  have other_waits := seats.mem_iff.mp (List.mem_filterMap.mpr
    ⟨other, List.mem_eraseIdx_iff_getElem?.mpr ⟨j, Ne.symm apart, there⟩, runs'⟩)
  simp at other_waits

theorem Sound.orderly (sound : exchange.Sound watched) : exchange.Orderly watched where
  one_fetches _ _ _ _ _ _ _ _ here there runs runs' := sound.one_fetches here there runs runs'
  fetches _ _ _ split := Ledger.fetched_apart sound.tallied.lawful split
  answers _ _ _ _ _ split := Ledger.answered_in_flight sound.tallied.lawful split
  loads _ _ _ _ split := sound.kept.honest.recalls split
  load key fed answer mem here := by
    obtain ⟨feeds, given⟩ := sound.clients _ mem
    obtain ⟨outcome, rfl, rfl⟩ := feeds.of_load
    exact ⟨outcome, rfl, given _ (List.mem_singleton_self _) here⟩
  loadMany keys fed answer mem := by
    obtain ⟨feeds, given⟩ := sound.clients _ mem
    exact ⟨feeds.delivers, given⟩
  effort _ made fed effort key progress? next mem here := by
    obtain ⟨-, -, patient⟩ := sound.clients _ mem
    obtain ⟨-, -, bound, -⟩ := patient here
    exact bound

namespace Runs

variable {states : Nat → Exchange σ} {acts : Nat → Act σ}

/-- While the cache is not cleared, whoever awaits a key is given an outcome of it, and has called
no more fetches by then than one, and one for each time that the cache had been cleared before. -/
theorem given (runs : Runs watched states acts) (fair : Fair states acts) {α : Type}
    {made : Lazy σ α} {fed : Feed σ} {effort : Effort} {key : LoadKey σ}
    {progress? : Option (FetchProgress σ)} {next : LoadOutcome → Lazy σ α} {n place : Nat}
    (here : (states n).clients[place]? =
      some (.going made fed effort (.waiting key progress? next)))
    (same : key.id = watched) (uncleared : ∀ m, n ≤ m → acts m ≠ .clear) :
    ∃ (m calls : Nat) (progress'? : Option (FetchProgress σ)) (outcome : LoadOutcome), n ≤ m ∧
      acts m = .poll place ∧ calls ≤ effort.clears + 1 ∧
      (states m).clients[place]? =
        some (.going made fed ⟨calls, effort.clears⟩ (.waiting key progress'? next)) ∧
      (World.resumeKey key progress'? (states m).world).1 = .ready outcome := by
  -- Each fetch that was called for the key ends, and there are not many.
  generalize left_eq : effort.clears + 1 - effort.calls = left
  induction left using Nat.strongRecOn generalizing n effort progress? with
  | ind left ih =>
      have patient := ((runs.sound n).clients _ (List.mem_of_getElem? here)).2.2
      obtain ⟨progress, rfl, -⟩ := patient same
      have holds : (Client.going made fed effort
          (.waiting key (some progress) next)).progressAt watched = some progress := by
        simp [Client.progressAt, Client.future?, Future.progressAt, Pending.progressAt, same]
      obtain ⟨m, later, last, there, polled, ended⟩ := runs.ends fair uncleared here holds
      have there : (states m).clients[place]? =
        some (.going made fed effort (.waiting key (some last) next)) := there
      rcases resumed : World.resumeFetch watched last (states m).world with
        ⟨⟨⟨⟩⟩ | further, after⟩ <;> rw [resumed] at ended
      · rcases awaited : World.awaitKey key after with ⟨outcome | progress'?, later'⟩
        · have bound := (runs.sound m).orderly.effort _ _ _ _ _ _ _
            (List.mem_of_getElem? there) same
          refine ⟨m, effort.calls, some last, outcome, later, polled, bound, there, ?_⟩
          simp only [World.resumeKey, same, resumed, awaited]
        · have going := (runs.client_polled there polled).2
          simp only [Client.poll, Pending.poll, World.resumeKey, same, resumed, awaited, Pending.fed,
            Pending.effort, World.callsIn, List.append_nil] at going
          have bound := (runs.sound (m + 1)).orderly.effort _ _ _ _ _ _ _
            (List.mem_of_getElem? going) same
          have bound : effort.calls + 1 ≤ effort.clears + 1 := bound
          obtain ⟨m', calls, progress'?, outcome, later', rest⟩ :=
            ih (effort.clears + 1 - (effort.calls + 1)) (by omega) going
              (fun k bound => uncleared k (by omega)) rfl
          exact ⟨m', calls, progress'?, outcome, by omega, rest⟩
      · cases ended

end Runs

/-- Whatever is done in an exchange, what a source promises holds all the time; and if whoever has
not finished is polled sooner or later, then from any time at which the cache is not cleared any
more whoever awaits a key is given an outcome of it, after no more fetches called for the key than
one, and one for each time that the cache had been cleared since the key was awaited. -/
theorem serves_everybody (watched : SourceId) (app : σ) (observe : Event → σ → σ)
    (acts : Nat → Act σ) :
    (∀ n, (course watched (start app observe) acts n).Orderly watched) ∧
      (Fair (course watched (start app observe) acts) acts →
        ∀ (α : Type) (made : Lazy σ α) (fed : Feed σ) (effort : Effort) (key : LoadKey σ)
          (progress? : Option (FetchProgress σ)) (next : LoadOutcome → Lazy σ α) (n place : Nat),
          (course watched (start app observe) acts n).clients[place]? =
            some (.going made fed effort (.waiting key progress? next)) →
          key.id = watched → (∀ m, n ≤ m → acts m ≠ .clear) →
          ∃ (m calls : Nat) (progress'? : Option (FetchProgress σ)) (outcome : LoadOutcome),
            n ≤ m ∧ acts m = .poll place ∧ calls ≤ effort.clears + 1 ∧
            (course watched (start app observe) acts m).clients[place]? =
              some (.going made fed ⟨calls, effort.clears⟩ (.waiting key progress'? next)) ∧
            (World.resumeKey key progress'?
              (course watched (start app observe) acts m).world).1 = .ready outcome) := by
  have runs := runs_course watched app observe acts
  refine ⟨fun n => (runs.sound n).orderly, fun fair => ?_⟩
  intro α made fed effort key progress? next n place here same uncleared
  exact runs.given fair here same uncleared

/-- Two keys of a source that answers at the second poll. -/
def slowKey (key : String) : LoadKey Unit := ⟨⟨0, ""⟩, slowEcho, key⟩

/-- The loads of two keys and that of one of them are made and then polled in turn, for ever. -/
def inTurn : Nat → Act Unit
  | 0 => .make (Lazy.loadMany [slowKey "k", slowKey "l"])
  | 1 => .make (Lazy.load (slowKey "k"))
  | n + 2 => .poll (n % 2)

/-- Where the loads that are polled in turn have come to. -/
abbrev inTurnAt : Nat → Exchange Unit :=
  course ⟨0, ""⟩ (start () fun _ state => state) inTurn

theorem length_inTurnAt (n : Nat) : (inTurnAt (n + 2)).clients.length = 2 := by
  induction n with
  | zero => rfl
  | succ n ih =>
      show ((inTurnAt (n + 2)).after ⟨0, ""⟩ (.poll (n % 2))).clients.length = 2
      simp only [after]
      split
      · exact ih
      · exact (List.length_set ..).trans ih

theorem fair_inTurn : Fair inTurnAt inTurn := by
  intro n place client here unfinished
  have two : place < 2 := by
    have bound := (List.getElem?_eq_some_iff.mp here).1
    match n, bound with
    | 0, bound => exact absurd bound (Nat.not_lt_zero _)
    | 1, bound => exact Nat.lt_of_lt_of_le bound (by decide)
    | n + 2, bound => exact length_inTurnAt n ▸ bound
  refine ⟨2 * n + place + 2, by omega, ?_⟩
  show Act.poll ((2 * n + place) % 2) = .poll place
  congr 1
  omega

/-- The load that comes second waits while the first one fetches, and is given its key. -/
theorem serves_everybody_inTurn :
    (∀ n, (inTurnAt n).Orderly ⟨0, ""⟩) ∧ Fair inTurnAt inTurn ∧
      ∃ (next : LoadOutcome → Lazy Unit (Except ResolverError Value)) (m calls : Nat)
        (progress? : Option (FetchProgress Unit)) (outcome : LoadOutcome),
        (inTurnAt 4).clients[1]? = some (.going (Lazy.load (slowKey "k")) [] ⟨1, 0⟩
          (.waiting (slowKey "k") (some (.queued 1)) next)) ∧
        4 ≤ m ∧ inTurn m = .poll 1 ∧ calls ≤ 1 ∧
        (inTurnAt m).clients[1]? = some (.going (Lazy.load (slowKey "k")) [] ⟨calls, 0⟩
          (.waiting (slowKey "k") progress? next)) ∧
        (World.resumeKey (slowKey "k") progress? (inTurnAt m).world).1 = .ready outcome := by
  obtain ⟨orderly, served⟩ :=
    serves_everybody ⟨0, ""⟩ () (fun _ state => state) inTurn
  refine ⟨orderly, fair_inTurn, ?_⟩
  have uncleared : ∀ m, 4 ≤ m → inTurn m ≠ .clear := by
    intro m bound
    obtain ⟨k, rfl⟩ := Nat.exists_eq_add_of_le' (Nat.le_of_succ_le (Nat.le_of_succ_le bound))
    exact nofun
  have waits : (inTurnAt 4).clients[1]? = some (.going (Lazy.load (slowKey "k")) [] ⟨1, 0⟩
      (.waiting (slowKey "k") (some (.queued 1)) fun outcome =>
        .done (outcome.mapError .execution))) := by cbv
  obtain ⟨m, calls, progress?, outcome, later, polled, bound, there, given⟩ :=
    served fair_inTurn _ _ _ _ _ _ _ 4 1 waits rfl uncleared
  exact ⟨_, m, calls, progress?, outcome, waits, later, polled, bound, there, given⟩

end Exchange

end GraphExec
