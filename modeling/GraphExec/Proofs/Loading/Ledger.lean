import GraphExec.Proofs.Loading.Polls

/-!
# The ledger of a source

The events of a source say when its fetches begin and end; its ledger also says what they answer,
and what those who await a key are given. A key is given the outcome that a completed fetch recorded
for it, and none that has been forgotten since.
-/

namespace GraphExec

variable {σ α : Type}

/-- What happens at a source, and what is said of keys. -/
inductive LoadEvent where
  /-- A key was asked for. -/
  | asked (key : String)
  /-- A fetch of keys was begun. -/
  | fetched (keys : List String)
  /-- A fetch of keys from a source of a name has ended with an outcome. -/
  | answered (name : String) (keys : List String) (outcome : Except ExecutionError (List Value))
  /-- The outcomes were forgotten. -/
  | cleared
  /-- Somebody who awaits a key was given an outcome. -/
  | loaded (key : String) (outcome : LoadOutcome)

/-- What happened, whatever was said. -/
def LoadEvent.event? : LoadEvent → Option SourceEvent
  | asked key => some (.asked key)
  | fetched keys => some (.fetched keys)
  | answered _ keys _ => some (.answered keys)
  | cleared => some .cleared
  | loaded _ _ => none

/-- What a fetch of keys says of one of them: the value at its place, the error of the fetch, or
that there are not as many values as keys. -/
def SourceState.Says (name : String) (keys : List String)
    (outcome : Except ExecutionError (List Value)) (key : String) (said : LoadOutcome) : Prop :=
  match outcome with
  | .error error => key ∈ keys ∧ said = .error error
  | .ok values =>
    if values.length = keys.length then
      ∃ (n : Nat) (value : Value),
        keys[n]? = some key ∧ values[n]? = some value ∧ said = .ok value
    else
      key ∈ keys ∧ said = .error {
        message := name ++ " returned " ++ toString values.length ++ " values for " ++
          toString keys.length ++ " keys" }

namespace SourceState

theorem mem_map_const {keys : List String} {outcome : LoadOutcome} {key : String}
    {said : LoadOutcome} :
    (key, said) ∈ keys.map (fun key => (key, outcome)) ↔ key ∈ keys ∧ said = outcome := by
  simp only [List.mem_map, Prod.mk.injEq]
  constructor
  · rintro ⟨_, mem, rfl, rfl⟩
    exact ⟨mem, rfl⟩
  · rintro ⟨mem, rfl⟩
    exact ⟨key, mem, rfl, rfl⟩

theorem mem_outcomes {name : String} {keys : List String}
    {outcome : Except ExecutionError (List Value)} {key : String} {said : LoadOutcome} :
    (key, said) ∈ outcomes name keys outcome ↔ Says name keys outcome key said := by
  unfold outcomes Says
  cases outcome with
  | error error => exact mem_map_const
  | ok values =>
      by_cases same : values.length = keys.length
      · simp only [same, if_true, List.mem_iff_getElem?, List.getElem?_zip_eq_some,
          List.getElem?_map, Option.map_eq_some_iff]
        constructor
        · rintro ⟨n, here, value, there, rfl⟩
          exact ⟨n, value, here, there, rfl⟩
        · rintro ⟨n, value, here, there, rfl⟩
          exact ⟨n, here, value, there, rfl⟩
      · simp only [same, if_false]
        exact mem_map_const

/-- An outcome that is known after a fetch was said by it, or was known before. -/
theorem get?_record {state : SourceState σ} {keys : List String}
    {outcome : Except ExecutionError (List Value)} {key : String} {said : LoadOutcome}
    (known : Fields.get? (state.record keys outcome).results key = some said) :
    Says state.source.name keys outcome key said ∨ Fields.get? state.results key = some said := by
  have fold : ∀ (entries : List (String × LoadOutcome)) (results : Fields LoadOutcome),
      Fields.get? (entries.foldl (fun results entry => Fields.insert results entry.1 entry.2)
        results) key = some said →
      (key, said) ∈ entries ∨ Fields.get? results key = some said := by
    intro entries
    induction entries with
    | nil => exact fun results known => .inr known
    | cons entry rest ih =>
        intro results known
        rcases ih _ known with mem | known
        · exact .inl (List.mem_cons_of_mem _ mem)
        · rw [Fields.get?_insert] at known
          split at known
          · rename_i same
            injection known with said_eq
            exact .inl (by rw [← same, ← said_eq]; exact List.mem_cons_self)
          · exact .inr known
  exact (fold _ _ known).imp_left mem_outcomes.mp

end SourceState

/-- What happened at a source, in order. -/
abbrev Ledger := List LoadEvent

namespace Ledger

/-- What happened, whatever was said. -/
def events (ledger : Ledger) : List SourceEvent :=
  ledger.filterMap LoadEvent.event?

@[simp] theorem events_nil : events [] = [] := rfl

@[simp] theorem events_append (first second : Ledger) :
    events (first ++ second) = first.events ++ second.events :=
  List.filterMap_append

theorem events_cons (event : LoadEvent) (rest : Ledger) :
    events (event :: rest) = event.event?.toList ++ rest.events := by
  unfold events
  rw [List.filterMap_cons]
  cases event.event? <;> rfl

/-- A completed fetch said an outcome of a key, and nothing has been forgotten since. -/
def Recalls (ledger : Ledger) (key : String) (said : LoadOutcome) : Prop :=
  ∃ (before after : Ledger) (name : String) (keys : List String)
    (outcome : Except ExecutionError (List Value)),
    ledger = before ++ .answered name keys outcome :: after ∧ LoadEvent.cleared ∉ after ∧
      SourceState.Says name keys outcome key said

theorem Recalls.append {ledger : Ledger} {key : String} {said : LoadOutcome}
    (recalls : ledger.Recalls key said) {more : Ledger} (uncleared : LoadEvent.cleared ∉ more) :
    Recalls (ledger ++ more) key said := by
  obtain ⟨before, after, name, keys, outcome, rfl, kept, told⟩ := recalls
  refine ⟨before, after ++ more, name, keys, outcome, by simp, ?_, told⟩
  exact fun mem => (List.mem_append.mp mem).elim kept uncleared

/-- Behind a ledger, nobody is given an outcome that is not recalled. -/
def HonestAfter : Ledger → Ledger → Prop
  | _, [] => True
  | before, event :: rest =>
    (∀ key said, event = .loaded key said → before.Recalls key said) ∧
      HonestAfter (before ++ [event]) rest

theorem honestAfter_append {before first second : Ledger} :
    HonestAfter before (first ++ second) ↔
      HonestAfter before first ∧ HonestAfter (before ++ first) second := by
  induction first generalizing before with
  | nil => simp [HonestAfter]
  | cons event rest ih =>
      simp only [List.cons_append, HonestAfter, ih, List.append_assoc, List.nil_append]
      exact and_assoc.symm

/-- In an honest ledger whatever is given was recalled at the time. -/
theorem HonestAfter.recalls {before ledger first rest : Ledger} {key : String}
    {said : LoadOutcome} (honest : HonestAfter before ledger)
    (split : ledger = first ++ .loaded key said :: rest) : (before ++ first).Recalls key said := by
  rw [split, honestAfter_append] at honest
  exact honest.2.1 key said rfl

end Ledger

/-! ### What polls enter into a ledger -/

namespace World

/-- The name of a source, for messages. -/
def nameOf (world : World σ) (id : SourceId) : String :=
  ((world.source? id).map (·.source.name)).getD ""

/-- What going on with a fetch enters. -/
def endLedger (name : String) (keys : List String) (fetch : Fetch σ) (app : σ) : Ledger :=
  match (fetch.poll app).2 with
  | .ready outcome => [.answered name keys outcome]
  | .pending _ => []

/-- What starting the fetch of a source whose ticket has come up enters. -/
def serveLedger (id : SourceId) (world : World σ) : Ledger :=
  match world.source? id with
  | none => []
  | some state =>
    if state.pending.isEmpty then []
    else
      .fetched state.pending ::
        endLedger state.source.name state.pending (state.source.fetch state.pending)
          (world.tell (.beginFetch state.source.name state.pending.length)).app

/-- What drawing a ticket for a fetch of a source enters. -/
def beginLedger (id : SourceId) (world : World σ) : Ledger :=
  if (world.source? id).any (·.turns.serving = none) then serveLedger id world else []

/-- What going on with a fetch of a source enters. -/
def resumeLedger (id : SourceId) (progress : FetchProgress σ) (world : World σ) : Ledger :=
  match progress with
  | .queued ticket => if world.isServed id ticket then serveLedger id world else []
  | .running keys rest => endLedger (world.nameOf id) keys rest world.app

/-- What is entered when a poll of a key is answered. -/
def loadedLedger (key : LoadKey σ) {β : Type} : Polled LoadOutcome β → Ledger
  | .ready said => [.loaded key.key said]
  | .pending _ => []

/-- What awaiting a key that is not being fetched by the one who awaits it enters. -/
def awaitLedger (key : LoadKey σ) (world : World σ) : Ledger :=
  match world.cached? key.id key.key with
  | some said => [.loaded key.key said]
  | none =>
    .asked key.key ::
      (beginLedger key.id (world.request key) ++ loadedLedger key (awaitKey key world).1)

/-- What going on awaiting a key enters. -/
def keyLedger (key : LoadKey σ) (progress? : Option (FetchProgress σ)) (world : World σ) :
    Ledger :=
  match progress? with
  | none => awaitLedger key world
  | some progress =>
    resumeLedger key.id progress world ++
      match resumeFetch key.id progress world with
      | (.pending _, _) => []
      | (.ready (), world) => awaitLedger key world

end World

/-- Entries count only if they are about the source that is looked at. -/
def entriesFrom (watched id : SourceId) (ledger : Ledger) : Ledger :=
  if id = watched then ledger else []

/-- What running application code enters into the ledger of a source. -/
def Action.ledger (watched : SourceId) : Action σ α → World σ → Ledger
  | done _, _ => []
  | read next, world => (next world.app).ledger watched world
  | write state next, world => next.ledger watched { world with app := state }
  | useSource id source next, world => next.ledger watched (world.useSource id source)
  | request key next, world =>
    entriesFrom watched key.id [.asked key.key] ++ next.ledger watched (world.request key)

/-- What polling a lazy enters into the ledger of a source. -/
def Lazy.ledger (watched : SourceId) : Lazy σ α → World σ → Ledger
  | done _, _ => []
  | read next, world => (next world.app).ledger watched world
  | write state next, world => next.ledger watched { world with app := state }
  | useSource id source next, world => next.ledger watched (world.useSource id source)
  | request key next, world =>
    entriesFrom watched key.id [.asked key.key] ++ next.ledger watched (world.request key)
  | pause _, _ => []
  | await key next, world =>
    entriesFrom watched key.id (World.awaitLedger key world) ++
      match World.awaitKey key world with
      | (.ready outcome, world) => (next outcome).ledger watched world
      | (.pending _, _) => []

/-- What polling what is left of a lazy enters into the ledger of a source. -/
def Pending.ledger (watched : SourceId) : Pending σ α → World σ → Ledger
  | start lazy, world => lazy.ledger watched world
  | waiting key progress next, world =>
    entriesFrom watched key.id (World.keyLedger key progress world) ++
      match World.resumeKey key progress world with
      | (.ready outcome, world) => (next outcome).ledger watched world
      | (.pending _, _) => []

/-- What polling a future enters into the ledger of a source. -/
def Future.ledger (watched : SourceId) : Future σ → World σ → Ledger
  | lazy rest, world => rest.ledger watched world
  | flush id none, world => entriesFrom watched id (World.beginLedger id world)
  | flush id (some progress), world =>
    entriesFrom watched id (World.resumeLedger id progress world)

/-! ### The ledger tells the events -/

namespace World

theorem events_endLedger (id : SourceId) (name other : String) (keys : List String)
    (fetch : Fetch σ) (world : World σ) :
    (endLedger name keys fetch world.app).events =
      endAccount keys (runFetch id other keys fetch world).1 := by
  unfold endLedger runFetch
  rcases fetch.poll world.app with ⟨app, outcome | rest⟩ <;> rfl

theorem events_serveLedger (id : SourceId) (world : World σ) :
    (serveLedger id world).events = fetchAccount (world.due id) (serve id world).1 := by
  unfold serveLedger fetchAccount serve due
  cases found : world.source? id with
  | none => rfl
  | some state =>
      by_cases empty : state.pending.isEmpty
      · simp [empty]
      · simp only [empty, if_false, Bool.false_eq_true, Option.map_some, Option.getD_some]
        rw [Ledger.events_cons]
        have app : (world.tell (.beginFetch state.source.name state.pending.length)).app =
            ((world.modifySource id fun state => { state with pending := [] }).tell
              (.beginFetch state.source.name state.pending.length)).app := rfl
        rw [app, events_endLedger id _ state.source.name]
        rfl

/-- A ticket that is drawn changes nothing that a fetch depends on. -/
theorem serveLedger_turns (id : SourceId) (world : World σ) (turns : Turns) :
    serveLedger id (world.modifySource id fun state => { state with turns }) =
      serveLedger id world := by
  unfold serveLedger
  rw [source?_modifySource_self]
  cases world.source? id <;> rfl

theorem events_beginLedger (id : SourceId) (world : World σ) :
    (beginLedger id world).events = beginAccount id world := by
  unfold beginLedger beginAccount
  split
  · rename_i free
    cases found : world.source? id with
    | none => simp [found] at free
    | some state =>
        have served : state.turns.draw.2.serving = some state.turns.draw.1 := by
          simp only [found, Option.any_some, decide_eq_true_eq] at free
          simp [Turns.draw, free]
        have due_eq : (world.modifySource id fun s => { s with turns := state.turns.draw.2 }).due id =
            world.due id := by simp [due, found]
        rw [← serveLedger_turns id world state.turns.draw.2, events_serveLedger, due_eq]
        simp only [beginFetch, found, served, if_true]
  · rfl

theorem events_resumeLedger (id : SourceId) (progress : FetchProgress σ) (world : World σ) :
    (resumeLedger id progress world).events = resumeAccount id progress world := by
  cases progress with
  | running keys rest => exact events_endLedger id _ _ keys rest world
  | queued ticket =>
      unfold resumeLedger resumeAccount
      cases found : world.source? id with
      | none => simp [isServed, found]
      | some state =>
          by_cases served : state.turns.serving = some ticket
          · simp only [isServed, found, Option.any_some, served, decide_true, if_true, resumeFetch]
            exact events_serveLedger id world
          · simp [isServed, found, served]

theorem events_awaitLedger (key : LoadKey σ) (world : World σ) :
    (awaitLedger key world).events = awaitAccount key world := by
  unfold awaitLedger awaitAccount
  cases world.cached? key.id key.key with
  | some said => rfl
  | none =>
      have silent : (loadedLedger key (awaitKey key world).1).events = [] := by
        cases (awaitKey key world).1 <;> rfl
      rw [Ledger.events_cons, Ledger.events_append, silent, events_beginLedger]
      simp [LoadEvent.event?]

theorem events_keyLedger (key : LoadKey σ) (progress? : Option (FetchProgress σ))
    (world : World σ) : (keyLedger key progress? world).events = keyAccount key progress? world := by
  cases progress? with
  | none => exact events_awaitLedger key world
  | some progress =>
      simp only [keyLedger, keyAccount, Ledger.events_append, events_resumeLedger]
      rcases resumeFetch key.id progress world with ⟨⟨⟨⟩⟩ | rest, after⟩
      · rw [events_awaitLedger]
      · rfl

end World

theorem events_entriesFrom (watched id : SourceId) (ledger : Ledger) :
    (entriesFrom watched id ledger).events = seenFrom watched id ledger.events := by
  unfold entriesFrom seenFrom
  split <;> rfl

theorem Action.events_ledger (watched : SourceId) (action : Action σ α) :
    ∀ world, (action.ledger watched world).events = action.account watched world := by
  induction action with
  | done answer => exact fun _ => rfl
  | read next ih => exact fun world => ih world.app world
  | write state next ih => exact fun world => ih _
  | useSource id source next ih => exact fun world => ih _
  | request key next ih =>
      intro world
      rw [ledger, account, Ledger.events_append, ih, events_entriesFrom]
      rfl

theorem Lazy.events_ledger (watched : SourceId) (lazy : Lazy σ α) :
    ∀ world, (lazy.ledger watched world).events = lazy.account watched world := by
  induction lazy with
  | done answer => exact fun _ => rfl
  | read next ih => exact fun world => ih world.app world
  | write state next ih => exact fun world => ih _
  | useSource id source next ih => exact fun world => ih _
  | request key next ih =>
      intro world
      rw [ledger, account, Ledger.events_append, ih, events_entriesFrom]
      rfl
  | pause next => exact fun _ => rfl
  | await key next ih =>
      intro world
      rw [ledger, account, Ledger.events_append, events_entriesFrom, World.events_awaitLedger]
      rcases World.awaitKey key world with ⟨outcome | progress, after⟩
      · simp only [ih]
      · rfl

theorem Pending.events_ledger (watched : SourceId) (rest : Pending σ α) (world : World σ) :
    (rest.ledger watched world).events = rest.account watched world := by
  cases rest with
  | start lazy => exact lazy.events_ledger watched world
  | waiting key progress? next =>
      rw [ledger, account, Ledger.events_append, events_entriesFrom, World.events_keyLedger]
      rcases World.resumeKey key progress? world with ⟨outcome | progress, after⟩
      · simp only [Lazy.events_ledger]
      · rfl

theorem Future.events_ledger (watched : SourceId) (future : Future σ) (world : World σ) :
    (future.ledger watched world).events = future.account watched world := by
  cases future with
  | lazy rest => exact rest.events_ledger watched world
  | flush id progress? =>
      cases progress? with
      | none => rw [ledger, account, events_entriesFrom, World.events_beginLedger]
      | some progress => rw [ledger, account, events_entriesFrom, World.events_resumeLedger]

/-! ### What is known has been said -/

/-- Whatever is known at a source is recalled in its ledger. -/
def World.Recorded (watched : SourceId) (world : World σ) (ledger : Ledger) : Prop :=
  ∀ state, world.source? watched = some state → ∀ key said,
    Fields.get? state.results key = some said → ledger.Recalls key said

/-- Entries that are honest, and a world that they account for. -/
structure Kept (watched : SourceId) (before entries : Ledger) (world : World σ) : Prop where
  honest : Ledger.HonestAfter before entries
  recorded : world.Recorded watched (before ++ entries)

namespace Kept

variable {watched : SourceId} {before : Ledger} {world : World σ}

theorem none (recorded : world.Recorded watched before) : Kept watched before [] world :=
  ⟨trivial, by rwa [List.append_nil]⟩

theorem append {first second : Ledger} (honest : Ledger.HonestAfter before first)
    (rest : Kept watched (before ++ first) second world) :
    Kept watched before (first ++ second) world :=
  ⟨Ledger.honestAfter_append.mpr ⟨honest, rest.honest⟩,
    by rw [← List.append_assoc]; exact rest.recorded⟩

theorem cons {entry : LoadEvent} {rest : Ledger} (silent : ∀ key said, entry ≠ .loaded key said)
    (kept : Kept watched (before ++ [entry]) rest world) :
    Kept watched before (entry :: rest) world := by
  have honest : Ledger.HonestAfter before [entry] :=
    ⟨fun key said same => absurd same (silent key said), trivial⟩
  exact .append honest kept

end Kept

namespace World

variable {id : SourceId} {world : World σ} {before : Ledger}

/-- Only what is known at the source counts. -/
theorem Recorded.of_results {other : World σ} {watched : SourceId}
    (recorded : world.Recorded watched before)
    (same : ∀ state, other.source? watched = some state → ∃ old,
      world.source? watched = some old ∧ state.results = old.results) :
    other.Recorded watched before := by
  intro state found key said known
  obtain ⟨old, found', results⟩ := same state found
  exact recorded old found' key said (results ▸ known)

theorem Recorded.of_source?_eq {other : World σ} {watched : SourceId}
    (recorded : world.Recorded watched before)
    (same : other.source? watched = world.source? watched) : other.Recorded watched before :=
  recorded.of_results fun state found => ⟨state, same ▸ found, rfl⟩

theorem Recorded.append {watched : SourceId} (recorded : world.Recorded watched before)
    {more : Ledger} (uncleared : LoadEvent.cleared ∉ more) :
    world.Recorded watched (before ++ more) :=
  fun state found key said known => (recorded state found key said known).append uncleared

/-- What is new knows nothing. -/
theorem Recorded.of_new {watched : SourceId} (recorded : world.Recorded watched before)
    {other : World σ} {source : BatchSource σ} {f : SourceState σ → SourceState σ}
    (results : ∀ state, (f state).results = state.results)
    (here : other.source? watched =
      some (f ((world.source? watched).getD (SourceState.new source)))) :
    other.Recorded watched before := by
  intro state found key said known
  rw [here] at found
  injection found with found
  rw [← found, results] at known
  cases old : world.source? watched with
  | none => simp [old, SourceState.new, Fields.get?] at known
  | some state' =>
      rw [old] at known
      exact recorded state' old key said known

theorem Recorded.useSource {watched : SourceId} (recorded : world.Recorded watched before)
    (other : SourceId) (source : BatchSource σ) :
    (world.useSource other source).Recorded watched before := by
  by_cases same : watched = other
  · subst same
    have here : (world.useSource watched source).source? watched =
        some ((world.source? watched).getD (SourceState.new source)) := by
      rw [source?_useSource, if_pos rfl]
    exact recorded.of_new (f := id) (fun _ => rfl) here
  · refine recorded.of_source?_eq ?_
    rw [source?_useSource, if_neg same]

theorem Recorded.request {watched : SourceId} (recorded : world.Recorded watched before)
    (key : LoadKey σ) : (world.request key).Recorded watched before := by
  by_cases same : watched = key.id
  · subst same
    have here : (world.request key).source? key.id =
        some (((world.source? key.id).getD (SourceState.new key.source)).request key.key) := by
      rw [source?_request, if_pos rfl]
    refine recorded.of_new (f := fun state => state.request key.key) (fun state => ?_) here
    unfold SourceState.request
    split <;> rfl
  · refine recorded.of_source?_eq ?_
    rw [source?_request, if_neg same]

/-- Going on with a fetch in flight. -/
theorem kept_runFetch (recorded : world.Recorded id before) (name : String) (keys : List String)
    (fetch : Fetch σ) :
    Kept id before (endLedger (world.nameOf id) keys fetch world.app)
      (runFetch id name keys fetch world).2 := by
  unfold endLedger runFetch
  rcases fetch.poll world.app with ⟨app, outcome | rest⟩
  · refine ⟨⟨nofun, trivial⟩, ?_⟩
    intro state found key said known
    simp only [source?_modifySource_self, source?_tell, source?_app,
      Option.map_eq_some_iff] at found
    obtain ⟨old, found, rfl⟩ := found
    rcases SourceState.get?_record known with told | known
    · have name_eq : world.nameOf id = old.source.name := by simp [nameOf, found]
      exact ⟨before, [], _, keys, outcome, rfl, List.not_mem_nil, name_eq ▸ told⟩
    · exact (recorded old found key said known).append (by simp)
  · exact .none (recorded.of_source?_eq rfl)

theorem kept_serve (recorded : world.Recorded id before) :
    Kept id before (serveLedger id world) (serve id world).2 := by
  unfold serveLedger serve
  cases found : world.source? id with
  | none => exact .none recorded
  | some state =>
      by_cases empty : state.pending.isEmpty
      · simp only [empty, if_true]
        refine .none (recorded.of_results fun state' found' => ?_)
        rw [source?_modifySource_self, found] at found'
        injection found' with found'
        exact ⟨state, found, found' ▸ rfl⟩
      · simp only [empty, if_false, Bool.false_eq_true]
        have begun : World.Recorded id
            ((world.modifySource id fun state => { state with pending := [] }).tell
              (.beginFetch state.source.name state.pending.length))
            (before ++ [.fetched state.pending]) := by
          refine (recorded.append (by simp)).of_results fun state' found' => ?_
          rw [source?_tell, source?_modifySource_self, found] at found'
          injection found' with found'
          exact ⟨state, found, found' ▸ rfl⟩
        have goes := kept_runFetch begun state.source.name state.pending
          (state.source.fetch state.pending)
        have name_eq : World.nameOf ((world.modifySource id fun state =>
            { state with pending := [] }).tell
              (.beginFetch state.source.name state.pending.length)) id = state.source.name := by
          simp [nameOf, found]
        rw [name_eq] at goes
        exact Kept.cons nofun goes

/-- Whoever may fetch, what is known stays. -/
theorem Recorded.turns (recorded : world.Recorded id before) (turns : Turns) :
    (world.modifySource id fun state => { state with turns }).Recorded id before := by
  refine recorded.of_results fun state found => ?_
  rw [source?_modifySource_self, Option.map_eq_some_iff] at found
  obtain ⟨old, found, rfl⟩ := found
  exact ⟨old, found, rfl⟩

theorem kept_beginFetch {others : List (FetchProgress σ)} {book : SourceBook}
    (recorded : world.Recorded id before) (tally : Tally id world others book) :
    Kept id before (beginLedger id world) (beginFetch id world).2 := by
  unfold beginLedger beginFetch
  cases found : world.source? id with
  | none =>
      simp only [Option.any_none, Bool.false_eq_true, if_false]
      exact .none recorded
  | some state =>
      have seating := (tally.of_some found).2.2
      simp only [Option.any_some, decide_eq_true_eq]
      cases serving : state.turns.serving with
      | none =>
          have served := Turns.served_draw serving
          simp only [if_true, served]
          have goes := kept_serve (recorded.turns state.turns.draw.2)
          rw [serveLedger_turns] at goes
          exact goes
      | some ticket =>
          have waits := seating.not_served_draw serving
          simp only [reduceCtorEq, if_false, waits]
          exact .none (recorded.turns _)

theorem kept_resumeFetch (recorded : world.Recorded id before) (progress : FetchProgress σ) :
    Kept id before (resumeLedger id progress world) (resumeFetch id progress world).2 := by
  cases progress with
  | running keys rest => exact kept_runFetch recorded _ keys rest
  | queued ticket =>
      unfold resumeLedger
      cases found : world.source? id with
      | none =>
          simp only [isServed, found, Option.any_none, Bool.false_eq_true, if_false, resumeFetch]
          exact .none recorded
      | some state =>
          by_cases served : state.turns.serving = some ticket
          · simp only [isServed, found, Option.any_some, served, decide_true, if_true, resumeFetch]
            exact kept_serve recorded
          · simp only [isServed, found, Option.any_some, served, decide_false, Bool.false_eq_true,
              if_false, resumeFetch]
            exact .none recorded

/-- An outcome that is known is one that is recalled. -/
theorem Recorded.cached (recorded : world.Recorded id before) {key : String} {said : LoadOutcome}
    (cached : world.cached? id key = some said) : before.Recalls key said := by
  unfold cached? at cached
  cases found : world.source? id with
  | none => simp [found] at cached
  | some state =>
      rw [found] at cached
      exact recorded state found key said cached

theorem kept_awaitKey {key : LoadKey σ} {others : List (FetchProgress σ)} {book : SourceBook}
    (recorded : world.Recorded key.id before) (tally : Tally key.id world others book) :
    Kept key.id before (awaitLedger key world) (awaitKey key world).2 := by
  unfold awaitLedger
  cases cached : world.cached? key.id key.key with
  | some said =>
      simp only [awaitKey, cached]
      refine ⟨⟨?_, trivial⟩, recorded.append (by simp)⟩
      intro k o same
      injection same with same_key same_said
      exact same_key ▸ same_said ▸ recorded.cached cached
  | none =>
      have asked := tally.request key
      rw [seenFrom, if_pos rfl] at asked
      have begun : Kept key.id (before ++ [.asked key.key]) _ _ :=
        kept_beginFetch ((recorded.append (by simp)).request key) asked
      refine .cons (fun k o same => by cases same) (.append begun.honest ?_)
      simp only [awaitKey, cached]
      rcases fetched : beginFetch key.id (world.request key) with ⟨⟨⟨⟩⟩ | progress, after⟩
      · rw [fetched] at begun
        cases known : after.cached? key.id key.key with
        | none => simpa only [known] using .none begun.recorded
        | some said =>
            simp only [known]
            refine ⟨⟨?_, trivial⟩, begun.recorded.append (by simp [loadedLedger])⟩
            intro k o same
            injection same with same_key same_said
            exact same_key ▸ same_said ▸ begun.recorded.cached known
      · rw [fetched] at begun
        exact .none begun.recorded

theorem kept_resumeKey {key : LoadKey σ} {progress? : Option (FetchProgress σ)}
    {others : List (FetchProgress σ)} {book : SourceBook} (recorded : world.Recorded key.id before)
    (tally : Tally key.id world (progress?.toList ++ others) book) :
    Kept key.id before (keyLedger key progress? world) (resumeKey key progress? world).2 := by
  cases progress? with
  | none => exact kept_awaitKey recorded tally
  | some progress =>
      have goes := kept_resumeFetch recorded progress
      have counted := tallied_resumeFetch progress tally
      rcases resumed : resumeFetch key.id progress world with ⟨⟨⟨⟩⟩ | progress', after⟩
      · rw [resumed] at goes counted
        simp only [keyLedger, resumeKey, resumed]
        have reached : Tally key.id after others _ := counted.tally
        exact .append goes.honest (kept_awaitKey goes.recorded reached)
      · rw [resumed] at goes
        simp only [keyLedger, resumeKey, resumed, List.append_nil]
        exact goes

end World

/-- What is entered at one source, seen from any. -/
theorem Kept.seen {watched id : SourceId} {before entries : Ledger} {world after : World σ}
    (recorded : world.Recorded watched before)
    (here : world.Recorded id before → id = watched → Kept id before entries after)
    (aside : ∀ other, other ≠ id → after.source? other = world.source? other) :
    Kept watched before (entriesFrom watched id entries) after := by
  unfold entriesFrom
  by_cases same : id = watched
  · subst same
    rw [if_pos rfl]
    exact here recorded rfl
  · rw [if_neg same]
    exact .none (recorded.of_source?_eq (aside watched fun h => same h.symm))

theorem Kept.asked {watched : SourceId} {before : Ledger} {world : World σ}
    (recorded : world.Recorded watched before) (key : LoadKey σ) :
    Kept watched before (entriesFrom watched key.id [.asked key.key]) (world.request key) := by
  refine .seen recorded (fun here _ => ?_) fun other differs => ?_
  · exact ⟨⟨nofun, trivial⟩, (here.append (by simp)).request key⟩
  · rw [World.source?_request, if_neg differs]

theorem Action.kept_run {watched : SourceId} (action : Action σ α) :
    ∀ {world : World σ} {before : Ledger}, world.Recorded watched before →
      Kept watched before (action.ledger watched world) (action.run world).2 := by
  induction action with
  | done answer => exact fun recorded => .none recorded
  | read next ih => exact fun {world _} recorded => ih world.app recorded
  | write state next ih => exact fun recorded => ih (recorded.of_source?_eq rfl)
  | useSource id source next ih => exact fun recorded => ih (recorded.useSource id source)
  | request key next ih =>
      intro world before recorded
      have asked := Kept.asked recorded key
      exact .append asked.honest (ih asked.recorded)

/-- The tally of a key that is awaited, as it is seen from its own source. -/
theorem Tally.heldAt {watched : SourceId} {world : World σ} {others : List (FetchProgress σ)}
    {book : SourceBook} {id : SourceId} {progress? : Option (FetchProgress σ)}
    (tally : Tally watched world (heldAt watched id progress? ++ others) book)
    (same : id = watched) : Tally id world (progress?.toList ++ others) book := by
  subst same
  rwa [GraphExec.heldAt, if_pos rfl] at tally

theorem Lazy.kept_poll {watched : SourceId} {others : List (FetchProgress σ)} (lazy : Lazy σ α) :
    ∀ {world : World σ} {before : Ledger} {book : SourceBook}, world.Recorded watched before →
      Tally watched world others book →
      Kept watched before (lazy.ledger watched world) (lazy.poll world).2 := by
  induction lazy with
  | done answer => exact fun recorded _ => .none recorded
  | read next ih => exact fun {world _ _} recorded tally => ih world.app recorded tally
  | write state next ih =>
      exact fun recorded tally => ih (recorded.of_source?_eq rfl) (tally.of_source?_eq rfl)
  | useSource id source next ih =>
      exact fun recorded tally => ih (recorded.useSource id source) (tally.useSource id source)
  | request key next ih =>
      intro world before book recorded tally
      have asked := Kept.asked recorded key
      exact .append asked.honest (ih asked.recorded (tally.request key))
  | pause next => exact fun recorded _ => .none recorded
  | await key next ih =>
      intro world before book recorded tally
      have held : Tally watched world (heldAt watched key.id none ++ others) book := by
        simpa [heldAt] using tally
      have goes : Kept watched before (entriesFrom watched key.id (World.awaitLedger key world))
          (World.awaitKey key world).2 :=
        .seen recorded (fun here same => World.kept_awaitKey here (held.heldAt same))
          fun other differs => World.source?_awaitKey differs world
      have counted := Tallied.seen none held World.tallied_awaitKey
        fun other differs => World.source?_awaitKey differs world
      rcases awaited : World.awaitKey key world with ⟨outcome | progress?, after⟩
      · rw [awaited] at goes counted
        simp only [ledger, poll, awaited]
        have tally' : Tally watched after others
            (book.enterAll (seenFrom watched key.id (World.awaitAccount key world))) := by
          simpa [heldAt, Polled.left] using counted.tally
        exact .append goes.honest (ih outcome goes.recorded tally')
      · rw [awaited] at goes
        simp only [ledger, poll, awaited, List.append_nil]
        exact goes

theorem Pending.kept_poll {watched : SourceId} {others : List (FetchProgress σ)}
    (rest : Pending σ α) {world : World σ} {before : Ledger} {book : SourceBook}
    (recorded : world.Recorded watched before)
    (tally : Tally watched world ((rest.progressAt watched).toList ++ others) book) :
    Kept watched before (rest.ledger watched world) (rest.poll world).2 := by
  cases rest with
  | start lazy => exact lazy.kept_poll recorded tally
  | waiting key progress? next =>
      rw [progressAt_waiting] at tally
      have goes : Kept watched before
          (entriesFrom watched key.id (World.keyLedger key progress? world))
          (World.resumeKey key progress? world).2 :=
        .seen recorded (fun here same => World.kept_resumeKey here (tally.heldAt same))
          fun other differs => World.source?_resumeKey differs progress? world
      have counted := Tallied.seen _ tally World.tallied_resumeKey
        fun other differs => World.source?_resumeKey differs progress? world
      rcases resumed : World.resumeKey key progress? world with ⟨outcome | progress', after⟩
      · rw [resumed] at goes counted
        simp only [ledger, poll, resumed]
        have tally' : Tally watched after others
            (book.enterAll (seenFrom watched key.id (World.keyAccount key progress? world))) := by
          simpa [heldAt, Polled.left] using counted.tally
        exact .append goes.honest ((next outcome).kept_poll goes.recorded tally')
      · rw [resumed] at goes
        simp only [ledger, poll, resumed, List.append_nil]
        exact goes

theorem Future.kept_poll {watched : SourceId} {others : List (FetchProgress σ)}
    (future : Future σ) {world : World σ} {before : Ledger} {book : SourceBook}
    (recorded : world.Recorded watched before)
    (tally : Tally watched world ((future.progressAt watched).toList ++ others) book) :
    Kept watched before (future.ledger watched world) (future.poll world).2 := by
  cases future with
  | lazy rest =>
      have goes := rest.kept_poll recorded tally
      rcases polled : rest.poll world with ⟨answer | rest', after⟩ <;> rw [polled] at goes <;>
        simp only [poll, polled] <;> exact goes
  | flush id progress? =>
      rw [progressAt_flush] at tally
      cases progress? with
      | none =>
          rw [poll_flush_none]
          exact .seen recorded (fun here same => World.kept_beginFetch here (tally.heldAt same))
            fun other differs => World.source?_beginFetch differs world
      | some progress =>
          rw [poll_flush_some]
          exact .seen recorded (fun here _ => World.kept_resumeFetch here progress)
            fun other differs => World.source?_resumeFetch differs progress world

end GraphExec
