import GraphExec.Error
import GraphExec.Value

/-!
# Batched loading

Application code asks for keys of a batch source. Keys wait until somebody needs one of them;
then all keys that wait are fetched together. Results stay until the cache is cleared.

A source makes one fetch at a time. Whoever wants to fetch draws a ticket and is served in the
order of the tickets. A fetch may answer that it is not finished, and is then polled again later.
-/

namespace GraphExec

/-- The outcome of polling something that may not be finished. -/
inductive Polled (α β : Type) where
  /-- It is finished. -/
  | ready (answer : α)
  /-- It is not finished; what is left of it. -/
  | pending (rest : β)

/-- What an observer of a run is told. -/
inductive Event where
  /-- A resolver is about to be called. -/
  | beginField (typeName fieldName : String) (path : Path)
  /-- A resolver has answered. -/
  | endField (typeName fieldName : String) (path : Path)
  /-- The concrete type of a value is about to be found. -/
  | beginType (abstractType : String)
  /-- The concrete type was found, or not. -/
  | endType (abstractType : String) (resolved : Option String)
  /-- An object is about to be authorized. -/
  | beginAuthorized (typeName : String)
  /-- The authorization was decided, or failed. -/
  | endAuthorized (typeName : String) (allowed : Option Bool)
  /-- A batch is about to be fetched. -/
  | beginFetch (source : String) (keys : Nat)
  /-- A batch was fetched. -/
  | endFetch (source : String) (keys : Nat)
deriving DecidableEq, Repr

/-- The fetch of a batch, with the application's state at hand. -/
inductive Fetch (σ : Type) where
  /-- Answers one value per key, or fails. -/
  | done (outcome : Except ExecutionError (List Value))
  /-- Looks at the application's state. -/
  | read (next : σ → Fetch σ)
  /-- Changes the application's state. -/
  | write (state : σ) (next : Fetch σ)
  /-- Is not finished and wants to be polled again. -/
  | pause (next : Fetch σ)

/-- A backend that looks up many keys at once. -/
structure BatchSource (σ : Type) where
  /-- The name, for observers and messages. -/
  name : String
  /-- Fetches the values of keys, in their order. -/
  fetch : List String → Fetch σ

/-- What tells sources apart: loads of one kind and batch go together. -/
structure SourceId where
  /-- The kind of source. -/
  kind : Nat
  /-- The batch. -/
  batch : String
deriving DecidableEq, Repr

/-- A key to load. -/
structure LoadKey (σ : Type) where
  /-- The source to load from. -/
  id : SourceId
  /-- The backend, should the source be used for the first time. -/
  source : BatchSource σ
  /-- The key. -/
  key : String

/-- A queue of tickets, one of which is served at a time. -/
structure Turns where
  /-- The ticket being served. -/
  serving : Option Nat
  /-- The tickets waiting, first drawn first. -/
  waiting : List Nat
  /-- The next ticket to be drawn. -/
  next : Nat
deriving DecidableEq, Repr

namespace Turns

/-- Nobody is served and nobody waits. -/
def idle : Turns := ⟨none, [], 0⟩

/-- Draws a ticket; it is served at once if none is. -/
def draw (turns : Turns) : Nat × Turns :=
  match turns.serving with
  | none => (turns.next, ⟨some turns.next, turns.waiting, turns.next + 1⟩)
  | some t => (turns.next, ⟨some t, turns.waiting ++ [turns.next], turns.next + 1⟩)

/-- Ends the service of a ticket; the next one that waits is served. -/
def leave (turns : Turns) : Turns :=
  ⟨turns.waiting.head?, turns.waiting.tail, turns.next⟩

end Turns

/-- The outcome of loading a key. -/
abbrev LoadOutcome := Except ExecutionError Value

/-- A batch source in use. -/
structure SourceState (σ : Type) where
  /-- The backend. -/
  source : BatchSource σ
  /-- The keys that wait for the next fetch, first asked first. -/
  pending : List String
  /-- The outcomes known so far. -/
  results : Fields LoadOutcome
  /-- Who may fetch. -/
  turns : Turns

namespace SourceState

variable {σ : Type}

/-- A source before its first use. -/
def new (source : BatchSource σ) : SourceState σ :=
  ⟨source, [], [], Turns.idle⟩

/-- Adds a key to the next fetch, unless its outcome is known. -/
def request (state : SourceState σ) (key : String) : SourceState σ :=
  if Fields.has state.results key then state
  else { state with pending := addName state.pending key }

/-- What a fetch of keys says about each of them. -/
def outcomes (name : String) (keys : List String) (outcome : Except ExecutionError (List Value)) :
    List (String × LoadOutcome) :=
  match outcome with
  | .error error => keys.map fun key => (key, .error error)
  | .ok values =>
    if values.length = keys.length then keys.zip (values.map .ok)
    else
      let message := name ++ " returned " ++ toString values.length ++ " values for " ++
        toString keys.length ++ " keys"
      keys.map fun key => (key, .error { message })

/-- Records the outcome of a fetch. -/
def record (state : SourceState σ) (keys : List String)
    (outcome : Except ExecutionError (List Value)) : SourceState σ :=
  { state with
    results := (outcomes state.source.name keys outcome).foldl
      (fun results entry => Fields.insert results entry.1 entry.2) state.results }

end SourceState

/-- What surrounds a run: the application's state, its observer and the sources in use. -/
structure World (σ : Type) where
  /-- The application's state. -/
  app : σ
  /-- Tells the application what happens. -/
  observe : Event → σ → σ
  /-- The sources in use, in the order of their first use. -/
  sources : List (SourceId × SourceState σ)

/-- How far a fetch has got. -/
inductive FetchProgress (σ : Type) where
  /-- Its ticket is not served yet. -/
  | queued (ticket : Nat)
  /-- The keys are being fetched. -/
  | running (keys : List String) (rest : Fetch σ)

namespace Fetch

variable {σ : Type}

/-- Goes on with a fetch until it answers or pauses. -/
def poll : Fetch σ → σ → σ × Polled (Except ExecutionError (List Value)) (Fetch σ)
  | done outcome, state => (state, .ready outcome)
  | read next, state => (next state).poll state
  | write state next, _ => next.poll state
  | pause next, state => (state, .pending next)

end Fetch

namespace World

variable {σ : Type}

/-- Tells the observer of an event. -/
def tell (world : World σ) (event : Event) : World σ :=
  { world with app := world.observe event world.app }

/-- The state of a source, if it is in use. -/
def source? (world : World σ) (id : SourceId) : Option (SourceState σ) :=
  (world.sources.find? fun entry => entry.1 = id).map (·.2)

/-- Changes the state of a source in use. -/
def modifySource (world : World σ) (id : SourceId) (f : SourceState σ → SourceState σ) :
    World σ :=
  { world with
    sources := world.sources.map fun entry => if entry.1 = id then (id, f entry.2) else entry }

/-- Takes a source into use. -/
def useSource (world : World σ) (id : SourceId) (source : BatchSource σ) : World σ :=
  match world.source? id with
  | some _ => world
  | none => { world with sources := world.sources ++ [(id, SourceState.new source)] }

/-- Asks for a key. -/
def request (world : World σ) (key : LoadKey σ) : World σ :=
  (world.useSource key.id key.source).modifySource key.id fun state => state.request key.key

/-- The outcome of a key, if it is known. -/
def cached? (world : World σ) (id : SourceId) (key : String) : Option LoadOutcome :=
  (world.source? id).bind fun state => Fields.get? state.results key

/-- Forgets every outcome. -/
def clearCache (world : World σ) : World σ :=
  { world with
    sources := world.sources.map fun entry => (entry.1, { entry.2 with results := [] }) }

/-- Whether the ticket that is served at a source is a given one. -/
def isServed (world : World σ) (id : SourceId) (ticket : Nat) : Bool :=
  (world.source? id).any fun state => state.turns.serving = some ticket

/-- Goes on with the fetch of a source whose ticket is served. At its end the outcomes are
recorded and the next ticket is served. -/
def runFetch (id : SourceId) (name : String) (keys : List String) (fetch : Fetch σ) :
    StateM (World σ) (Polled Unit (FetchProgress σ)) := fun world =>
  match fetch.poll world.app with
  | (app, .pending rest) => (.pending (.running keys rest), { world with app })
  | (app, .ready outcome) =>
    let world := { world with app }.tell (.endFetch name keys.length)
    (.ready (), world.modifySource id fun state =>
      let state := state.record keys outcome
      { state with turns := state.turns.leave })

/-- Starts the fetch of a source whose ticket has come up: all keys that wait are fetched. -/
def serve (id : SourceId) : StateM (World σ) (Polled Unit (FetchProgress σ)) := fun world =>
  match world.source? id with
  | none => (.ready (), world)
  | some state =>
    let keys := state.pending
    if keys.isEmpty then
      (.ready (), world.modifySource id fun state => { state with turns := state.turns.leave })
    else
      let world := world.modifySource id fun state => { state with pending := [] }
      runFetch id state.source.name keys (state.source.fetch keys)
        (world.tell (.beginFetch state.source.name keys.length))

/-- Draws a ticket for a fetch of a source, and starts the fetch if the ticket is served. -/
def beginFetch (id : SourceId) : StateM (World σ) (Polled Unit (FetchProgress σ)) := fun world =>
  match world.source? id with
  | none => (.ready (), world)
  | some state =>
    let (ticket, turns) := state.turns.draw
    let world := world.modifySource id fun state => { state with turns }
    if turns.serving = some ticket then serve id world else (.pending (.queued ticket), world)

/-- Goes on with a fetch. -/
def resumeFetch (id : SourceId) :
    FetchProgress σ → StateM (World σ) (Polled Unit (FetchProgress σ))
  | .queued ticket => fun world =>
    match world.source? id with
    | none => (.ready (), world)
    | some state =>
      if state.turns.serving = some ticket then serve id world
      else (.pending (.queued ticket), world)
  | .running keys rest => fun world =>
    runFetch id (((world.source? id).map (·.source.name)).getD "") keys rest world

/-- Awaits a key whose fetch has not been started: a known outcome is the answer, else the key is
asked for again, should the cache have been cleared, and fetched. -/
def awaitKey (key : LoadKey σ) :
    StateM (World σ) (Polled LoadOutcome (Option (FetchProgress σ))) := fun world =>
  match world.cached? key.id key.key with
  | some outcome => (.ready outcome, world)
  | none =>
    match beginFetch key.id (world.request key) with
    | (.pending progress, world) => (.pending (some progress), world)
    | (.ready (), world) =>
      -- The key was among those just fetched, so its outcome is known now.
      match world.cached? key.id key.key with
      | some outcome => (.ready outcome, world)
      | none => (.pending none, world)

/-- Goes on awaiting a key. A fetch that has ended need not have held the key, for its outcome may
have been known before and forgotten since; then the key is awaited anew. -/
def resumeKey (key : LoadKey σ) :
    Option (FetchProgress σ) → StateM (World σ) (Polled LoadOutcome (Option (FetchProgress σ)))
  | none => awaitKey key
  | some progress => fun world =>
    match resumeFetch key.id progress world with
    | (.pending progress, world) => (.pending (some progress), world)
    | (.ready (), world) => awaitKey key world

/-- A fetch of a source that has been asked for: not begun, or how far it has got. -/
abbrev Flush (σ : Type) := SourceId × Option (FetchProgress σ)

/-- The fetches that are due: one per source with keys that wait. -/
def dueFetches (world : World σ) : List (Flush σ) :=
  (world.sources.filter fun entry => !entry.2.pending.isEmpty).map fun entry => (entry.1, none)

/-- Polls fetches once, in order, and keeps those that are not finished. -/
def pollFlushes : List (Flush σ) → StateM (World σ) (List (Flush σ))
  | [] => pure []
  | (id, progress?) :: rest => do
    let polled ← match progress? with
      | none => beginFetch id
      | some progress => resumeFetch id progress
    let others ← pollFlushes rest
    match polled with
    | .ready () => return others
    | .pending progress => return (id, some progress) :: others

end World

end GraphExec
