import Mathlib.Data.Nat.Find
import GraphExec.Proofs.Loading.Exchange
import GraphExec.Proofs.Loading.Line

/-!
# Nobody waits for ever

Clients that are polled again and again get what they wait for. The fetch of the one who is served
gets on at each of its polls, so it ends; then the line moves, and at last everybody's turn comes.

Main statement: while the cache is not cleared, whoever awaits a key is given an outcome of it.
-/

namespace GraphExec

variable {σ : Type} {watched : SourceId}

namespace Client

variable {client : Client σ} {progress : FetchProgress σ} {world : World σ}

/-- A client that has got to some point of the fetch that it waits for. -/
def withProgress (progress : FetchProgress σ) : Client σ → Client σ
  | going made fed effort (.waiting key _ next) =>
    going made fed effort (.waiting key (some progress) next)
  | flush id _ => flush id (some progress)
  | client => client

theorem withProgress_withProgress (first second : FetchProgress σ) (client : Client σ) :
    (client.withProgress first).withProgress second = client.withProgress second := by
  cases client with
  | going made fed effort rest => cases rest <;> rfl
  | answered made fed answer => rfl
  | flush id progress? => rfl
  | flushed => rfl

/-- Who gets on with a fetch at a source. -/
theorem holds_cases (holds : client.progressAt watched = some progress) :
    (∃ (α : Type) (made : Lazy σ α) (fed : Feed σ) (effort : Effort) (key : LoadKey σ)
      (next : LoadOutcome → Lazy σ α), key.id = watched ∧
        client = going made fed effort (.waiting key (some progress) next)) ∨
      client = flush watched (some progress) := by
  cases client with
  | going made fed effort rest =>
      cases rest with
      | start lazy => cases holds
      | waiting key progress? next =>
          simp only [progressAt, future?, Option.bind_some, Future.progressAt,
            Pending.progressAt] at holds
          split at holds
          · exact .inl ⟨_, made, fed, effort, key, next, ‹_›, by rw [holds]⟩
          · cases holds
  | answered made fed answer => cases holds
  | flush id progress? =>
      simp only [progressAt, future?, Option.bind_some, Future.progressAt] at holds
      split at holds
      · rename_i same
        exact .inr (by rw [holds, same])
      · cases holds
  | flushed => cases holds

theorem withProgress_self (holds : client.progressAt watched = some progress) :
    client.withProgress progress = client := by
  obtain ⟨_, made, fed, effort, key, next, -, rfl⟩ | rfl := holds_cases holds <;> rfl

theorem progressAt_withProgress (holds : client.progressAt watched = some progress)
    (further : FetchProgress σ) :
    (client.withProgress further).progressAt watched = some further := by
  obtain ⟨_, made, fed, effort, key, next, same, rfl⟩ | rfl := holds_cases holds
  · simp [withProgress, progressAt, future?, Future.progressAt, Pending.progressAt, same]
  · simp [withProgress, progressAt, future?, Future.progressAt]

theorem unfinished_of_holds (holds : client.progressAt watched = some progress) :
    client.future? ≠ none := by
  intro finished
  simp [progressAt, finished] at holds

/-- A client whose fetch goes on only gets on with it. -/
theorem poll_of_pending (holds : client.progressAt watched = some progress)
    {further : FetchProgress σ}
    (goes : (World.resumeFetch watched progress world).1 = .pending further) :
    (client.poll world).1 = client.withProgress further := by
  obtain ⟨_, made, fed, effort, key, next, rfl, rfl⟩ | rfl := holds_cases holds
  · rcases resumed : World.resumeFetch key.id progress world with ⟨⟨⟨⟩⟩ | going, after⟩ <;>
      rw [resumed] at goes <;> cases goes
    simp [poll, Pending.poll, World.resumeKey, resumed, Pending.fed, Pending.effort,
      World.callsIn, withProgress]
  · rcases resumed : World.resumeFetch watched progress world with ⟨⟨⟨⟩⟩ | going, after⟩ <;>
      rw [resumed] at goes <;> cases goes
    simp [poll, resumed, withProgress]

theorem moves_poll (client : Client σ) (world : World σ) :
    World.Moves watched world (client.poll world).2 := by
  cases client with
  | going made fed effort rest =>
      have moves : World.Moves watched world (rest.poll world).2 := rest.moves_poll world
      rcases polled : rest.poll world with ⟨answer | left, after⟩ <;> rw [polled] at moves <;>
        simpa only [poll, polled] using moves
  | answered made fed answer => exact .refl world
  | flush id progress? =>
      cases progress? with
      | none =>
          have moves : World.Moves watched world (World.beginFetch id world).2 :=
            World.moves_beginFetch id world
          rcases begun : World.beginFetch id world with ⟨⟨⟨⟩⟩ | progress, after⟩ <;>
            rw [begun] at moves <;> simpa only [poll, begun] using moves
      | some progress =>
          have moves : World.Moves watched world (World.resumeFetch id progress world).2 :=
            World.moves_resumeFetch id progress world
          rcases resumed : World.resumeFetch id progress world with ⟨⟨⟨⟩⟩ | progress', after⟩ <;>
            rw [resumed] at moves <;> simpa only [poll, resumed] using moves
  | flushed => exact .refl world

/-- Once its fetch has ended, whatever else a client does in a poll, the line does not move back. -/
theorem moves_poll_of_ready (holds : client.progressAt watched = some progress)
    {after : World σ} (ended : World.resumeFetch watched progress world = (.ready (), after)) :
    World.Moves watched after (client.poll world).2 := by
  obtain ⟨_, made, fed, effort, key, next, rfl, rfl⟩ | rfl := holds_cases holds
  · have moves : World.Moves key.id after (World.awaitKey key after).2 :=
      World.moves_awaitKey key after
    rcases awaited : World.awaitKey key after with ⟨outcome | progress?, later⟩ <;>
      rw [awaited] at moves
    · have moves' : World.Moves key.id after ((next outcome).poll later).2 :=
        moves.trans ((next outcome).moves_poll later)
      rcases polled : (next outcome).poll later with ⟨answer | left, last⟩ <;>
        rw [polled] at moves' <;>
        simpa only [poll, Pending.poll, World.resumeKey, ended, awaited, polled] using moves'
    · simpa only [poll, Pending.poll, World.resumeKey, ended, awaited] using moves
  · have same : ((flush watched (some progress)).poll world).2 = after := by
      simp [poll, ended]
    rw [same]
    exact .refl after

end Client

/-! ### Who is served -/

/-- Whether somebody who has got to some point of a fetch is served. -/
def World.Serves (world : World σ) (id : SourceId) (progress : FetchProgress σ) : Prop :=
  ∀ ticket, progress = .queued ticket → world.isServed id ticket = true

namespace Tally

variable {world : World σ} {held : List (FetchProgress σ)} {book : SourceBook}
  {progress : FetchProgress σ}

/-- Where somebody waits for a fetch, somebody is served. -/
theorem served (tally : Tally watched world held book) (mem : progress ∈ held) :
    world.Busy watched ∧ ∃ other ∈ held, world.Serves watched other := by
  obtain ⟨state, found, seating⟩ := tally.in_use mem
  unfold World.Busy World.Serves World.isServed
  simp only [found, Option.some.injEq, exists_eq_left', Option.any_some, decide_eq_true_eq]
  generalize book.inFlight = inFlight at seating
  cases turns : state.turns with
  | mk serving waiting next =>
      rw [turns] at seating
      cases seating with
      | idle => cases mem
      | @called ticket _ _ _ distinct drawn seats =>
          refine ⟨nofun, .queued ticket, seats.mem_iff.mpr (by simp), fun other same => ?_⟩
          injection same with same
          rw [same]
      | serving rest distinct drawn seats =>
          exact ⟨nofun, _, seats.mem_iff.mpr List.mem_cons_self, nofun⟩

/-- Whoever waits for a fetch has a ticket that is still to be served. -/
theorem first_le (tally : Tally watched world held book) {ticket : Nat}
    (mem : .queued ticket ∈ held) (inLine : world.InLine watched) :
    world.first watched ≤ ticket ∧
      (world.first watched = ticket → world.isServed watched ticket = true) := by
  obtain ⟨state, found, seating⟩ := tally.in_use mem
  have ordered := inLine state found
  simp only [World.first, World.isServed, found, Option.map_some, Option.getD_some,
    Option.any_some, decide_eq_true_eq]
  -- The ticket is in the line, which begins with the one that is served.
  have standing : ticket ∈ state.turns.serving.toList ++ state.turns.waiting ∧
      state.turns.serving ≠ none := by
    generalize book.inFlight = inFlight at seating
    cases turns : state.turns with
    | mk serving waiting next =>
        rw [turns] at seating
        cases seating with
        | idle => cases mem
        | called distinct drawn seats =>
            have here := seats.mem_iff.mp mem
            simp only [List.mem_map, FetchProgress.queued.injEq, exists_eq_right] at here
            exact ⟨here, Option.some_ne_none _⟩
        | serving rest distinct drawn seats =>
            have here := seats.mem_iff.mp mem
            simp only [List.mem_cons, reduceCtorEq, List.mem_map, FetchProgress.queued.injEq,
              exists_eq_right, false_or] at here
            exact ⟨List.mem_append_right _ here, Option.some_ne_none _⟩
  obtain ⟨stands, busy⟩ := standing
  rw [ordered.2, List.mem_range'_1] at stands
  refine ⟨stands.1, fun first_eq => ?_⟩
  obtain ⟨served, serving⟩ := Option.ne_none_iff_exists'.mp busy
  rw [serving, ← first_eq, Turns.first, serving, Option.getD_some]

end Tally

/-- Only a fetch that is served ends. -/
theorem World.serves_of_ready {world : World σ} {progress : FetchProgress σ}
    (busy : world.Busy watched)
    (ended : (World.resumeFetch watched progress world).1 = .ready ()) :
    world.Serves watched progress := by
  rintro ticket rfl
  obtain ⟨state, found, -⟩ := busy
  simp only [resumeFetch, found] at ended
  simp only [isServed, found, Option.any_some, decide_eq_true_eq]
  split at ended
  · assumption
  · cases ended

namespace Exchange

/-- What is done in an exchange never moves the line back. -/
theorem moves_after (exchange : Exchange σ) (act : Act σ) :
    World.Moves watched exchange.world (exchange.after watched act).world := by
  cases act with
  | run action => exact action.moves_run exchange.world
  | change app => exact .of_source?_eq rfl
  | make lazy => exact .refl _
  | flush id => exact .refl _
  | poll n =>
      simp only [after]
      split
      · exact .refl _
      · exact Client.moves_poll _ _
  | clear => exact World.moves_clearCache _

/-- An exchange that goes on for ever. -/
structure Runs (watched : SourceId) (states : Nat → Exchange σ) (acts : Nat → Act σ) : Prop where
  sound : ∀ n, (states n).Sound watched
  inLine : ∀ n, (states n).world.InLine watched
  next : ∀ n, states (n + 1) = (states n).after watched (acts n)

theorem runs_course (watched : SourceId) (app : σ) (observe : Event → σ → σ)
    (acts : Nat → Act σ) : Runs watched (course watched (start app observe) acts) acts := by
  refine ⟨sound_course watched (sound_start watched app observe) acts, fun n => ?_, fun _ => rfl⟩
  induction n with
  | zero => exact nofun
  | succ n ih => exact (moves_after _ (acts n) ih).1

/-- Whoever has not finished is polled sooner or later. -/
def Fair (states : Nat → Exchange σ) (acts : Nat → Act σ) : Prop :=
  ∀ (n place : Nat) (client : Client σ), (states n).clients[place]? = some client →
    client.future? ≠ none → ∃ m, n ≤ m ∧ acts m = .poll place

/-- The fetch that a client waits for ends when the client is polled at some time. -/
def EndsAt (watched : SourceId) (states : Nat → Exchange σ) (acts : Nat → Act σ) (place : Nat)
    (client : Client σ) (m : Nat) : Prop :=
  ∃ progress, (states m).clients[place]? = some (client.withProgress progress) ∧
    acts m = .poll place ∧
    (World.resumeFetch watched progress (states m).world).1 = .ready ()

namespace Runs

variable {states : Nat → Exchange σ} {acts : Nat → Act σ} {place n : Nat} {client : Client σ}
  {progress : FetchProgress σ}

/-- Of a client nothing changes but by its own polls and by clearings. -/
theorem client_next (runs : Runs watched states acts)
    (here : (states n).clients[place]? = some client) (other : acts n ≠ .poll place)
    (uncleared : acts n ≠ .clear) : (states (n + 1)).clients[place]? = some client := by
  have bound := (List.getElem?_eq_some_iff.mp here).1
  rw [runs.next]
  cases act : acts n with
  | run action => exact here
  | change app => exact here
  | make lazy => exact (List.getElem?_append_left bound).trans here
  | flush id => exact (List.getElem?_append_left bound).trans here
  | poll m =>
      have apart : m ≠ place := fun same => other (same ▸ act)
      simp only [after]
      split
      · exact here
      · exact (List.getElem?_set_ne apart).trans here
  | clear => exact absurd act uncleared

theorem client_polled (runs : Runs watched states acts)
    (here : (states n).clients[place]? = some client) (polled : acts n = .poll place) :
    states (n + 1) = ⟨(client.poll (states n).world).2,
      (states n).clients.set place (client.poll (states n).world).1,
      (states n).ledger ++ client.ledger watched (states n).world⟩ ∧
      (states (n + 1)).clients[place]? = some (client.poll (states n).world).1 := by
  have bound := (List.getElem?_eq_some_iff.mp here).1
  have next : states (n + 1) = _ := runs.next n
  simp only [polled, after, here] at next
  exact ⟨next, by rw [next]; exact List.getElem?_set_self bound⟩

/-- The line does not move back. -/
theorem first_mono (runs : Runs watched states acts) {n m : Nat} (later : n ≤ m) :
    (states n).world.first watched ≤ (states m).world.first watched := by
  induction later with
  | refl => exact Nat.le_refl _
  | @step m _ ih =>
      refine Nat.le_trans ih ?_
      rw [runs.next]
      exact (moves_after _ (acts m) (runs.inLine m)).2

theorem held_mem (here : (states n).clients[place]? = some client)
    (holds : client.progressAt watched = some progress) : progress ∈ (states n).held watched :=
  List.mem_filterMap.mpr ⟨client, List.mem_of_getElem? here, holds⟩

/-- The next time that a client is polled, it is as it was. -/
theorem next_poll (runs : Runs watched states acts) (fair : Fair states acts)
    (uncleared : ∀ m, n ≤ m → acts m ≠ .clear)
    (here : (states n).clients[place]? = some client) (unfinished : client.future? ≠ none) :
    ∃ m, n ≤ m ∧ acts m = .poll place ∧ (states m).clients[place]? = some client := by
  classical
  have polled := fair n place client here unfinished
  obtain ⟨later, now⟩ := Nat.find_spec polled
  refine ⟨Nat.find polled, later, now, ?_⟩
  have still : ∀ k, n + k ≤ Nat.find polled → (states (n + k)).clients[place]? = some client := by
    intro k
    induction k with
    | zero => exact fun _ => here
    | succ k ih =>
        intro bound
        have before := Nat.find_min polled (Nat.lt_of_succ_le bound)
        exact runs.client_next (ih (Nat.le_of_succ_le bound))
          (fun now => before ⟨Nat.le_add_right n k, now⟩) (uncleared _ (Nat.le_add_right n k))
  have reached := still (Nat.find polled - n) (by omega)
  rwa [Nat.add_sub_cancel' later] at reached

/-- Who is served stays so while it waits. -/
theorem serves_later (runs : Runs watched states acts) {n m : Nat} (later : n ≤ m)
    (here : (states n).clients[place]? = some client)
    (there : (states m).clients[place]? = some client)
    (holds : client.progressAt watched = some progress)
    (serves : (states n).world.Serves watched progress) :
    (states m).world.Serves watched progress := by
  rintro ticket rfl
  have before := (runs.sound n).tallied.tally.first_le (held_mem here holds) (runs.inLine n)
  have after := (runs.sound m).tallied.tally.first_le (held_mem there holds) (runs.inLine m)
  refine after.2 (Nat.le_antisymm after.1 (Nat.le_trans (Nat.le_of_eq ?_) (runs.first_mono later)))
  obtain ⟨state, found, -⟩ := (runs.sound n).tallied.tally.in_use (held_mem here holds)
  have served := serves ticket rfl
  simp only [World.isServed, found, Option.any_some, decide_eq_true_eq] at served
  simp [World.first, found, Turns.first, served]

/-- The fetch of a client that is served ends: the client is polled again and again, and each time
less of its fetch is left. -/
theorem ends_of_serves (runs : Runs watched states acts) (fair : Fair states acts)
    (uncleared : ∀ m, n ≤ m → acts m ≠ .clear)
    (here : (states n).clients[place]? = some client)
    (holds : client.progressAt watched = some progress)
    (serves : (states n).world.Serves watched progress) :
    ∃ m, n ≤ m ∧ EndsAt watched states acts place client m := by
  induction FetchProgress.later_wellFounded.apply progress generalizing n client with
  | intro progress _ ih =>
      obtain ⟨m, later, polled, there⟩ :=
        runs.next_poll fair uncleared here (Client.unfinished_of_holds holds)
      have serves' := runs.serves_later later here there holds serves
      have mem := held_mem there holds
      have busy := ((runs.sound m).tallied.tally.served mem).1
      have gets_on := World.resumeFetch_gets_on (runs.inLine m) busy serves'
      rcases resumed : World.resumeFetch watched progress (states m).world with
        ⟨⟨⟨⟩⟩ | further, world⟩
      · refine ⟨m, later, progress, ?_, polled, congrArg Prod.fst resumed⟩
        rw [Client.withProgress_self holds]
        exact there
      · simp only [resumed] at gets_on
        have next := (runs.client_polled there polled).2
        rw [Client.poll_of_pending holds (congrArg Prod.fst resumed)] at next
        have serves_next : (states (m + 1)).world.Serves watched further := by
          cases gets_on with
          | begun | left => exact nofun
        obtain ⟨last, after, progress', there', polled', ended⟩ :=
          ih further gets_on (fun k bound => uncleared k (by omega)) next
            (Client.progressAt_withProgress holds further) serves_next
        rw [Client.withProgress_withProgress] at there'
        exact ⟨last, by omega, progress', there', polled', ended⟩

/-- When a fetch ends the line moves. -/
theorem first_lt_of_ends (runs : Runs watched states acts) {m : Nat}
    (holds : client.progressAt watched = some progress)
    (ends : EndsAt watched states acts place client m) :
    (states m).world.first watched < (states (m + 1)).world.first watched := by
  obtain ⟨last, there, polled, ended⟩ := ends
  have holds' := Client.progressAt_withProgress holds last
  have mem := held_mem there holds'
  have busy := ((runs.sound m).tallied.tally.served mem).1
  have gets_on := World.resumeFetch_gets_on (runs.inLine m) busy
    (World.serves_of_ready busy ended)
  have inLine : World.Moves watched (states m).world
      (World.resumeFetch watched last (states m).world).2 := World.moves_resumeFetch _ _ _
  rcases resumed : World.resumeFetch watched last (states m).world with ⟨⟨⟨⟩⟩ | further, world⟩ <;>
    rw [resumed] at ended inLine
  · simp only [resumed] at gets_on
    refine Nat.lt_of_lt_of_le gets_on ?_
    rw [(runs.client_polled there polled).1]
    exact (Client.moves_poll_of_ready holds' resumed (inLine (runs.inLine m)).1).2
  · cases ended

/-- Up to any time the fetch of a client has ended, or it has got on with it, if anything. -/
theorem ends_or_goes_on (runs : Runs watched states acts)
    (uncleared : ∀ m, n ≤ m → acts m ≠ .clear)
    (here : (states n).clients[place]? = some client)
    (holds : client.progressAt watched = some progress) (k : Nat) :
    (∃ m, n ≤ m ∧ EndsAt watched states acts place client m) ∨
      ∃ further, (states (n + k)).clients[place]? = some (client.withProgress further) ∧
        (further = progress ∨ ∃ keys rest, further = .running keys rest) := by
  induction k with
  | zero =>
      exact .inr ⟨progress, (Client.withProgress_self holds).symm ▸ here, .inl rfl⟩
  | succ k ih =>
      obtain ended | ⟨further, there, state⟩ := ih
      · exact .inl ended
      · by_cases polled : acts (n + k) = .poll place
        · rcases resumed : World.resumeFetch watched further (states (n + k)).world with
            ⟨⟨⟨⟩⟩ | last, world⟩
          · exact .inl ⟨n + k, Nat.le_add_right n k, further, there, polled,
              congrArg Prod.fst resumed⟩
          · have holds' := Client.progressAt_withProgress holds further
            have next := (runs.client_polled there polled).2
            rw [Client.poll_of_pending holds' (congrArg Prod.fst resumed),
              Client.withProgress_withProgress] at next
            refine .inr ⟨last, next, ?_⟩
            have mem := held_mem there holds'
            have busy := ((runs.sound (n + k)).tallied.tally.served mem).1
            by_cases serves : (states (n + k)).world.Serves watched further
            · have gets_on := World.resumeFetch_gets_on (runs.inLine (n + k)) busy serves
              simp only [resumed] at gets_on
              cases gets_on with
              | begun ticket keys rest => exact .inr ⟨keys, rest, rfl⟩
              | left after => exact .inr ⟨_, _, rfl⟩
            · -- Whoever is not served goes on waiting.
              cases further with
              | running keys rest => exact absurd nofun serves
              | queued ticket =>
                  obtain ⟨state', found, -⟩ := busy
                  have waits : ¬ state'.turns.serving = some ticket := fun served =>
                    serves fun other same => by
                      injection same with same
                      simpa [World.isServed, found, ← same] using served
                  simp only [World.resumeFetch, found, waits, if_false] at resumed
                  injection resumed with resumed
                  injection resumed with resumed
                  exact resumed ▸ state
        · exact .inr ⟨further, runs.client_next there polled (uncleared _ (Nat.le_add_right n k)),
            state⟩

/-- Every fetch that a client waits for ends: whoever is before it in the line leaves at some time,
and so its turn comes. -/
theorem ends (runs : Runs watched states acts) (fair : Fair states acts)
    (uncleared : ∀ m, n ≤ m → acts m ≠ .clear)
    (here : (states n).clients[place]? = some client)
    (holds : client.progressAt watched = some progress) :
    ∃ m, n ≤ m ∧ EndsAt watched states acts place client m := by
  cases progress with
  | running keys rest => exact runs.ends_of_serves fair uncleared here holds nofun
  | queued ticket =>
      generalize ahead_eq : ticket - (states n).world.first watched = ahead
      induction ahead using Nat.strongRecOn generalizing n client with
      | ind ahead ih =>
          have mem := held_mem here holds
          have tally := (runs.sound n).tallied.tally
          obtain ⟨first_le, is_served⟩ := tally.first_le mem (runs.inLine n)
          obtain ⟨-, other, among, serves⟩ := tally.served mem
          obtain ⟨client', client_mem, holds'⟩ := List.mem_filterMap.mp among
          obtain ⟨place', here'⟩ := List.mem_iff_getElem?.mp client_mem
          obtain ⟨m, later, ends⟩ := runs.ends_of_serves fair uncleared here' holds' serves
          have moved := runs.first_lt_of_ends holds' ends
          have grown := runs.first_mono later
          obtain ended | ⟨further, there, state⟩ :=
            runs.ends_or_goes_on uncleared here holds (m + 1 - n)
          · exact ended
          · have reached : n + (m + 1 - n) = m + 1 := by omega
            rw [reached] at there
            have holds_further := Client.progressAt_withProgress holds further
            have uncleared' : ∀ k, m + 1 ≤ k → acts k ≠ .clear :=
              fun k bound => uncleared k (by omega)
            have goal : ∃ k, m + 1 ≤ k ∧
                EndsAt watched states acts place (client.withProgress further) k := by
              obtain rfl | ⟨keys, rest, rfl⟩ := state
              · have still := ((runs.sound (m + 1)).tallied.tally.first_le
                  (held_mem there holds_further) (runs.inLine (m + 1))).1
                exact ih _ (by omega) uncleared' there holds_further rfl
              · exact runs.ends_of_serves fair uncleared' there holds_further nofun
            obtain ⟨k, bound, last, there', polled, ended⟩ := goal
            rw [Client.withProgress_withProgress] at there'
            exact ⟨k, by omega, last, there', polled, ended⟩

end Runs

end Exchange

end GraphExec
