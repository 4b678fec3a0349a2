import GraphExec.Proofs.Loading.Feeds
import GraphExec.Proofs.Loading.Patience

/-!
# Clients of sources

Lazies and flushes use sources at the same time, and keep their numbers while they do. An exchange
is the world, its clients, and the ledger of one source; whatever is done in it, in whatever order,
the ledger is lawful and honest, every client has been given what is in the ledger, and none has
fetched more often for a key than it had to.
-/

namespace GraphExec

variable {σ : Type}

/-- Somebody who uses sources, and what has come of it. -/
inductive Client (σ : Type) : Type 1 where
  /-- A lazy that was made, what it has been fed, the effort for the key that it awaits, and what is
  left of it. -/
  | going {α : Type} (made : Lazy σ α) (fed : Feed σ) (effort : Effort) (rest : Pending σ α)
  /-- A lazy that was made, what it has been fed, and its answer. -/
  | answered {α : Type} (made : Lazy σ α) (fed : Feed σ) (answer : α)
  /-- A fetch of what is due at a source, and how far it has got. -/
  | flush (id : SourceId) (progress? : Option (FetchProgress σ))
  /-- A fetch of what was due that has ended. -/
  | flushed

namespace Client

/-- Polls a client, unless it has finished. -/
def poll : Client σ → World σ → Client σ × World σ
  | going made fed effort rest, world =>
    match rest.poll world with
    | (.ready answer, after) => (answered made (fed ++ rest.fed world) answer, after)
    | (.pending left, after) =>
      (going made (fed ++ rest.fed world) (rest.effort effort world) left, after)
  | flush id none, world =>
    match World.beginFetch id world with
    | (.ready (), after) => (flushed, after)
    | (.pending progress, after) => (flush id (some progress), after)
  | flush id (some progress), world =>
    match World.resumeFetch id progress world with
    | (.ready (), after) => (flushed, after)
    | (.pending progress, after) => (flush id (some progress), after)
  | client, world => (client, world)

/-- What is still to be polled of a client. -/
def future? : Client σ → Option (Future σ)
  | going _ _ _ rest => some (.lazy rest)
  | flush id progress? => some (.flush id progress?)
  | _ => none

/-- What a poll of a client enters into the ledger of a source. -/
def ledger (watched : SourceId) (client : Client σ) (world : World σ) : Ledger :=
  match client.future? with
  | some future => future.ledger watched world
  | none => []

/-- How far a client has got with a fetch of a source. -/
def progressAt (watched : SourceId) (client : Client σ) : Option (FetchProgress σ) :=
  client.future?.bind (Future.progressAt watched)

/-- A client once the cache has been cleared. -/
def cleared : Client σ → Client σ
  | going made fed effort rest => going made fed { effort with clears := effort.clears + 1 } rest
  | client => client

end Client

/-- Sources, those who use them, and what has happened at one source. -/
structure Exchange (σ : Type) : Type 1 where
  /-- What surrounds the clients. -/
  world : World σ
  /-- The clients, first come first. -/
  clients : List (Client σ)
  /-- What has happened at the source that is looked at. -/
  ledger : Ledger

/-- What may be done next. -/
inductive Act (σ : Type) : Type 1 where
  /-- Application code runs. -/
  | run {α : Type} (action : Action σ α)
  /-- The state of the application changes. -/
  | change (app : σ)
  /-- A lazy is made. -/
  | make {α : Type} (lazy : Lazy σ α)
  /-- A fetch of what is due at a source is made. -/
  | flush (id : SourceId)
  /-- A client is polled. -/
  | poll (n : Nat)
  /-- The cache is cleared. -/
  | clear

namespace Exchange

/-- Nothing has been loaded and nobody loads. -/
def start (app : σ) (observe : Event → σ → σ) : Exchange σ := ⟨⟨app, observe, []⟩, [], []⟩

/-- The exchange after something has been done. -/
def after (watched : SourceId) (exchange : Exchange σ) : Act σ → Exchange σ
  | .run action =>
    ⟨(action.run exchange.world).2, exchange.clients,
      exchange.ledger ++ action.ledger watched exchange.world⟩
  | .change app => { exchange with world := { exchange.world with app } }
  | .make lazy =>
    { exchange with clients := exchange.clients ++ [.going lazy [] ⟨0, 0⟩ (.start lazy)] }
  | .flush id => { exchange with clients := exchange.clients ++ [.flush id none] }
  | .poll n =>
    match exchange.clients[n]? with
    | none => exchange
    | some client =>
      ⟨(client.poll exchange.world).2, exchange.clients.set n (client.poll exchange.world).1,
        exchange.ledger ++ client.ledger watched exchange.world⟩
  | .clear =>
    ⟨exchange.world.clearCache, exchange.clients.map Client.cleared,
      exchange.ledger ++ [.cleared]⟩

/-- The exchanges that things done one after another lead through. -/
def course (watched : SourceId) (first : Exchange σ) (acts : Nat → Act σ) : Nat → Exchange σ
  | 0 => first
  | n + 1 => (course watched first acts n).after watched (acts n)

end Exchange

/-! ### What is kept -/

/-- Whatever has been fed of a source is in its ledger. -/
def Feed.Given (watched : SourceId) (ledger : Ledger) (fed : Feed σ) : Prop :=
  ∀ entry ∈ fed, entry.1.id = watched → LoadEvent.loaded entry.1.key entry.2 ∈ ledger

theorem Feed.Given.append {watched : SourceId} {ledger : Ledger} {fed : Feed σ}
    (given : fed.Given watched ledger) (more : Ledger) : fed.Given watched (ledger ++ more) :=
  fun entry mem here => List.mem_append_left _ (given entry mem here)

namespace Client

/-- A client has got where it is by what it has been fed, and has had to do what it has done. -/
def Sound (watched : SourceId) (ledger : Ledger) : Client σ → Prop
  | going made fed effort rest =>
    made.Feeds fed rest.lazy ∧ fed.Given watched ledger ∧
      rest.Patient watched (SourceBook.blank.enterAll ledger.events) effort
  | answered made fed answer => made.Feeds fed (.done answer) ∧ fed.Given watched ledger
  | _ => True

variable {watched : SourceId} {ledger : Ledger} {client : Client σ}

theorem Sound.append (sound : client.Sound watched ledger) {more : Ledger}
    (lawful : (SourceBook.blank.enterAll ledger.events).Lawful more.events)
    (uncleared : SourceEvent.cleared ∉ more.events) : client.Sound watched (ledger ++ more) := by
  cases client with
  | going made fed effort rest =>
      obtain ⟨feeds, given, patient⟩ := sound
      refine ⟨feeds, given.append more, ?_⟩
      rw [Ledger.events_append, SourceBook.enterAll_append]
      exact patient.enterAll lawful uncleared
  | answered made fed answer => exact ⟨sound.1, sound.2.append more⟩
  | flush id progress? => trivial
  | flushed => trivial

theorem Sound.clear (sound : client.Sound watched ledger) :
    client.cleared.Sound watched (ledger ++ [.cleared]) := by
  cases client with
  | going made fed effort rest =>
      obtain ⟨feeds, given, patient⟩ := sound
      refine ⟨feeds, given.append _, ?_⟩
      rw [Ledger.events_append, SourceBook.enterAll_append]
      exact patient.clear
  | answered made fed answer => exact ⟨sound.1, sound.2.append _⟩
  | flush id progress? => trivial
  | flushed => trivial

theorem future?_cleared (client : Client σ) : client.cleared.future? = client.future? := by
  cases client <;> rfl

theorem progressAt_cleared (watched : SourceId) (client : Client σ) :
    client.cleared.progressAt watched = client.progressAt watched := by
  unfold progressAt
  rw [future?_cleared]

/-- A client that has not finished is polled as what is left of it is. -/
theorem poll_future {future : Future σ} (going : client.future? = some future) (world : World σ) :
    (client.poll world).1.future? = (future.poll world).1 ∧
      (client.poll world).2 = (future.poll world).2 := by
  cases client with
  | going made fed effort rest =>
      injection going with going
      subst going
      rcases polled : rest.poll world with ⟨answer | left, after⟩ <;>
        simp [poll, Future.poll, polled, future?]
  | answered made fed answer => cases going
  | flush id progress? =>
      injection going with going
      subst going
      cases progress? with
      | none =>
          rcases begun : World.beginFetch id world with ⟨⟨⟨⟩⟩ | progress, after⟩ <;>
            simp [poll, Future.poll, begun, future?]
      | some progress =>
          rcases resumed : World.resumeFetch id progress world with ⟨⟨⟨⟩⟩ | progress', after⟩ <;>
            simp [poll, Future.poll, resumed, future?]
  | flushed => cases going

theorem poll_finished (finished : client.future? = none) (world : World σ) :
    client.poll world = (client, world) := by
  cases client with
  | going made fed effort rest => cases finished
  | answered made fed answer => rfl
  | flush id progress? => cases finished
  | flushed => rfl

/-- A poll of a client keeps the tally of a source. -/
theorem tallied_poll {others : List (FetchProgress σ)} {world : World σ} {book : SourceBook}
    (tally : Tally watched world ((client.progressAt watched).toList ++ others) book) :
    Tallied watched book (client.ledger watched world).events (client.poll world).2
      (((client.poll world).1.progressAt watched).toList ++ others) := by
  unfold progressAt at tally ⊢
  cases future : client.future? with
  | none =>
      rw [poll_finished future]
      unfold Client.ledger
      simp only [future] at tally ⊢
      exact .none tally
  | some future' =>
      obtain ⟨left, world_eq⟩ := poll_future future world
      rw [left, world_eq]
      unfold Client.ledger
      simp only [future] at tally ⊢
      rw [Future.events_ledger]
      exact future'.tallied_poll tally

theorem kept_poll {others : List (FetchProgress σ)} {world : World σ} {book : SourceBook}
    {before : Ledger} (recorded : world.Recorded watched before)
    (tally : Tally watched world ((client.progressAt watched).toList ++ others) book) :
    Kept watched before (client.ledger watched world) (client.poll world).2 := by
  unfold progressAt at tally
  unfold Client.ledger
  cases future : client.future? with
  | none =>
      rw [poll_finished future]
      exact .none recorded
  | some future' =>
      rw [(poll_future future world).2]
      rw [future] at tally
      exact future'.kept_poll recorded tally

theorem uncleared_ledger (watched : SourceId) (client : Client σ) (world : World σ) :
    SourceEvent.cleared ∉ (client.ledger watched world).events := by
  unfold Client.ledger
  split
  · rw [Future.events_ledger]
    exact Future.uncleared_account watched _ world
  · exact List.not_mem_nil

/-- A client that is polled goes on by what it is fed. -/
theorem Sound.poll {others : List (FetchProgress σ)} {world : World σ}
    (sound : client.Sound watched ledger)
    (tally : Tally watched world ((client.progressAt watched).toList ++ others)
      (SourceBook.blank.enterAll ledger.events)) :
    (client.poll world).1.Sound watched (ledger ++ client.ledger watched world) := by
  cases client with
  | going made fed effort rest =>
      obtain ⟨feeds, given, patient⟩ := sound
      have feeds' := feeds.trans (rest.feeds_poll world)
      have given' : Feed.Given watched (ledger ++ rest.ledger watched world)
          (fed ++ rest.fed world) := by
        intro entry mem here
        rcases List.mem_append.mp mem with mem | mem
        · exact List.mem_append_left _ (given entry mem here)
        · exact List.mem_append_right _ (rest.loaded_of_fed here mem)
      have patient' : ∀ left, (rest.poll world).1 = .pending left → left.Patient watched
          (SourceBook.blank.enterAll (ledger ++ rest.ledger watched world).events)
          (rest.effort effort world) := by
        intro left waits
        rw [Ledger.events_append, SourceBook.enterAll_append, Pending.events_ledger]
        exact Pending.patient_poll patient tally waits
      rcases polled : rest.poll world with ⟨answer | left, after⟩ <;>
        simp only [polled] at feeds' patient' <;> simp only [Client.poll, polled]
      · exact ⟨feeds', given'⟩
      · exact ⟨feeds', given', patient' left rfl⟩
  | answered made fed answer => exact ⟨sound.1, sound.2.append _⟩
  | flush id progress? =>
      cases progress? with
      | none =>
          rcases begun : World.beginFetch id world with ⟨⟨⟨⟩⟩ | progress, after⟩ <;>
            simp only [Client.poll, begun] <;> trivial
      | some progress =>
          rcases resumed : World.resumeFetch id progress world with ⟨⟨⟨⟩⟩ | progress', after⟩ <;>
            simp only [Client.poll, resumed] <;> trivial
  | flushed => trivial

end Client

namespace Exchange

/-- What clients hold of a source. -/
def held (watched : SourceId) (exchange : Exchange σ) : List (FetchProgress σ) :=
  exchange.clients.filterMap (Client.progressAt watched)

/-- What holds of an exchange, whatever is done in it. -/
structure Sound (watched : SourceId) (exchange : Exchange σ) : Prop where
  tallied : Tallied watched .blank exchange.ledger.events exchange.world (exchange.held watched)
  kept : Kept watched [] exchange.ledger exchange.world
  clients : ∀ client ∈ exchange.clients, client.Sound watched exchange.ledger

variable {watched : SourceId} {exchange : Exchange σ}

theorem sound_start (watched : SourceId) (app : σ) (observe : Event → σ → σ) :
    (start app observe).Sound watched :=
  ⟨⟨trivial, rfl, rfl⟩, ⟨trivial, nofun⟩, nofun⟩

/-- What one client holds, and what the others hold. -/
theorem held_apart (watched : SourceId) (front back : List (Client σ)) (client : Client σ) :
    ((front ++ client :: back).filterMap (Client.progressAt watched)).Perm
      ((client.progressAt watched).toList ++
        (front ++ back).filterMap (Client.progressAt watched)) := by
  have moved : (front ++ client :: back).Perm (client :: (front ++ back)) := List.perm_middle
  refine (moved.filterMap (Client.progressAt watched)).trans (.of_eq ?_)
  rw [List.filterMap_cons]
  cases client.progressAt watched <;> rfl

theorem Sound.add (sound : exchange.Sound watched) {client : Client σ}
    (fresh : client.progressAt watched = none) (own : client.Sound watched exchange.ledger) :
    Sound watched { exchange with clients := exchange.clients ++ [client] } := by
  refine ⟨?_, sound.kept, fun other mem => ?_⟩
  · have same : held watched { exchange with clients := exchange.clients ++ [client] } =
        exchange.held watched := by
      simp [held, fresh]
    rw [same]
    exact sound.tallied
  · rcases List.mem_append.mp mem with mem | mem
    · exact sound.clients other mem
    · exact List.mem_singleton.mp mem ▸ own

theorem Sound.poll (sound : exchange.Sound watched) {n : Nat} {client : Client σ}
    (here : exchange.clients[n]? = some client) :
    Sound watched ⟨(client.poll exchange.world).2,
      exchange.clients.set n (client.poll exchange.world).1,
      exchange.ledger ++ client.ledger watched exchange.world⟩ := by
  obtain ⟨bound, rfl⟩ := List.getElem?_eq_some_iff.mp here
  obtain ⟨front, back, split, -, changed⟩ : ∃ front back,
      exchange.clients = front ++ exchange.clients[n] :: back ∧ front.length = n ∧
        exchange.clients.set n (exchange.clients[n].poll exchange.world).1 =
          front ++ (exchange.clients[n].poll exchange.world).1 :: back :=
    List.exists_of_set bound
  generalize client_eq : exchange.clients[n] = client at *
  have tally := sound.tallied.tally
  rw [held, split] at tally
  have apart := tally.held_perm (held_apart watched front back client)
  have goes := Client.tallied_poll apart
  have others : ∀ other ∈ front ++ back,
      other.Sound watched (exchange.ledger ++ client.ledger watched exchange.world) := by
    intro other mem
    refine (sound.clients other ?_).append goes.lawful
      (Client.uncleared_ledger watched client exchange.world)
    rw [split]
    exact List.perm_middle.mem_iff.mpr (List.mem_cons_of_mem _ mem)
  refine ⟨?_, .append sound.kept.honest (Client.kept_poll sound.kept.recorded apart),
    fun other mem => ?_⟩
  · simp only [held, changed, Ledger.events_append]
    exact .append sound.tallied.lawful
      ⟨goes.lawful, goes.tally.held_perm (held_apart watched front back _).symm⟩
  · rw [changed] at mem
    rcases List.mem_cons.mp (List.perm_middle.mem_iff.mp mem) with rfl | mem
    · exact (sound.clients client (client_eq ▸ List.getElem_mem bound)).poll apart
    · exact others other mem

/-- Whatever is done keeps an exchange sound. -/
theorem Sound.after (sound : exchange.Sound watched) (act : Act σ) :
    (exchange.after watched act).Sound watched := by
  cases act with
  | run action =>
      have goes := action.tallied_run sound.tallied.tally
      rw [← Action.events_ledger] at goes
      have uncleared : SourceEvent.cleared ∉ (action.ledger watched exchange.world).events := by
        rw [Action.events_ledger]
        exact action.uncleared_account watched exchange.world
      refine ⟨?_, .append sound.kept.honest (action.kept_run sound.kept.recorded),
        fun client mem => (sound.clients client mem).append goes.lawful uncleared⟩
      simp only [Exchange.after, Ledger.events_append]
      exact .append sound.tallied.lawful goes
  | change app =>
      exact ⟨⟨sound.tallied.lawful, sound.tallied.tally.of_source?_eq rfl⟩,
        ⟨sound.kept.honest, sound.kept.recorded.of_source?_eq rfl⟩, sound.clients⟩
  | make lazy => exact sound.add rfl ⟨.here lazy, (by rintro _ ⟨⟩), trivial⟩
  | flush id =>
      refine sound.add ?_ trivial
      simp [Client.progressAt, Client.future?, Future.progressAt]
  | poll n =>
      simp only [Exchange.after]
      split
      · exact sound
      · exact sound.poll ‹_›
  | clear =>
      have same : (exchange.clients.map Client.cleared).filterMap (Client.progressAt watched) =
          exchange.held watched := by
        rw [List.filterMap_map]
        exact congrArg (List.filterMap · exchange.clients)
          (funext fun client => client.progressAt_cleared watched)
      refine ⟨?_, ?_, ?_⟩
      · simp only [Exchange.after, held, Ledger.events_append, same]
        exact .append sound.tallied.lawful ⟨⟨trivial, trivial⟩, sound.tallied.tally.clear⟩
      · refine .append sound.kept.honest ⟨⟨(fun k o same => by cases same), trivial⟩,
          fun state found key said known => ?_⟩
        change exchange.world.clearCache.source? watched = some state at found
        simp only [World.source?_clearCache, Option.map_eq_some_iff] at found
        obtain ⟨old, -, rfl⟩ := found
        cases known
      · intro client mem
        change client ∈ exchange.clients.map Client.cleared at mem
        obtain ⟨old, here, rfl⟩ := List.mem_map.mp mem
        exact (sound.clients old here).clear

/-- An exchange is sound in the course of whatever is done. -/
theorem sound_course (watched : SourceId) {first : Exchange σ} (sound : first.Sound watched)
    (acts : Nat → Act σ) : ∀ n, (course watched first acts n).Sound watched := by
  intro n
  induction n with
  | zero => exact sound
  | succ n ih => exact ih.after (acts n)

end Exchange

end GraphExec
