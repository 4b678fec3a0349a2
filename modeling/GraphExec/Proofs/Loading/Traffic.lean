import GraphExec.Proofs.Loading.Book

/-!
# Traffic at a source

Futures of every kind use a source at the same time: lazies that load keys, and flushes of what is
due. They are polled in any order, between pieces of application code that ask for keys and
clearings of the cache. An account tells which events a poll causes at one source; the traffic
keeps the accounts of all polls, one after the other.
-/

namespace GraphExec

variable {σ : Type}

namespace World

/-- The events of going on with a fetch of keys, given how far it gets. -/
def endAccount (keys : List String) (polled : Polled Unit (FetchProgress σ)) :
    List SourceEvent :=
  match polled with
  | .ready () => [.answered keys]
  | .pending _ => []

/-- The events of starting a fetch of what is due, given how far the fetch gets. -/
def fetchAccount (keys : List String) (polled : Polled Unit (FetchProgress σ)) :
    List SourceEvent :=
  if keys.isEmpty then [] else .fetched keys :: endAccount keys polled

/-- The keys that are due at a source. -/
def due (world : World σ) (id : SourceId) : List String :=
  ((world.source? id).map (·.pending)).getD []

/-- The events of drawing a ticket for a fetch of a source. -/
def beginAccount (id : SourceId) (world : World σ) : List SourceEvent :=
  if (world.source? id).any (·.turns.serving = none) then
    fetchAccount (world.due id) (beginFetch id world).1
  else []

/-- The events of going on with a fetch of a source. -/
def resumeAccount (id : SourceId) (progress : FetchProgress σ) (world : World σ) :
    List SourceEvent :=
  match progress with
  | .queued ticket =>
    if world.isServed id ticket then fetchAccount (world.due id) (resumeFetch id progress world).1
    else []
  | .running keys _ => endAccount keys (resumeFetch id progress world).1

/-- The events of awaiting a key that is not being fetched by the one who awaits it. -/
def awaitAccount (key : LoadKey σ) (world : World σ) : List SourceEvent :=
  match world.cached? key.id key.key with
  | some _ => []
  | none => .asked key.key :: beginAccount key.id (world.request key)

/-- The events of going on awaiting a key. -/
def keyAccount (key : LoadKey σ) (progress? : Option (FetchProgress σ)) (world : World σ) :
    List SourceEvent :=
  match progress? with
  | none => awaitAccount key world
  | some progress =>
    resumeAccount key.id progress world ++
      match resumeFetch key.id progress world with
      | (.pending _, _) => []
      | (.ready (), world) => awaitAccount key world

end World

/-- Events count only if they happen at the source that is looked at. -/
def seenFrom (watched id : SourceId) (events : List SourceEvent) : List SourceEvent :=
  if id = watched then events else []

namespace Action

variable {α : Type}

/-- The events of running application code, at a source. -/
def account (watched : SourceId) : Action σ α → World σ → List SourceEvent
  | done _, _ => []
  | read next, world => (next world.app).account watched world
  | write state next, world => next.account watched { world with app := state }
  | useSource id source next, world => next.account watched (world.useSource id source)
  | request key next, world =>
    seenFrom watched key.id [.asked key.key] ++ next.account watched (world.request key)

end Action

namespace Lazy

variable {α : Type}

/-- The events of polling a lazy, at a source. -/
def account (watched : SourceId) : Lazy σ α → World σ → List SourceEvent
  | done _, _ => []
  | read next, world => (next world.app).account watched world
  | write state next, world => next.account watched { world with app := state }
  | useSource id source next, world => next.account watched (world.useSource id source)
  | request key next, world =>
    seenFrom watched key.id [.asked key.key] ++ next.account watched (world.request key)
  | pause _, _ => []
  | await key next, world =>
    seenFrom watched key.id (World.awaitAccount key world) ++
      match World.awaitKey key world with
      | (.ready outcome, world) => (next outcome).account watched world
      | (.pending _, _) => []

end Lazy

namespace Pending

variable {α : Type}

/-- The events of polling what is left of a lazy, at a source. -/
def account (watched : SourceId) : Pending σ α → World σ → List SourceEvent
  | start lazy, world => lazy.account watched world
  | waiting key progress next, world =>
    seenFrom watched key.id (World.keyAccount key progress world) ++
      match World.resumeKey key progress world with
      | (.ready outcome, world) => (next outcome).account watched world
      | (.pending _, _) => []

/-- How far a lazy has got with a fetch of a source. -/
def progressAt (watched : SourceId) : Pending σ α → Option (FetchProgress σ)
  | start _ => none
  | waiting key progress _ => if key.id = watched then progress else none

end Pending

/-- Something that uses sources and is polled from time to time. -/
inductive Future (σ : Type) : Type 1 where
  /-- What is left of a lazy. -/
  | lazy {α : Type} (rest : Pending σ α)
  /-- A fetch of what is due at a source, and how far it has got. -/
  | flush (id : SourceId) (progress? : Option (FetchProgress σ))

namespace Future

/-- Polls a future; nothing is left of one that has finished. -/
def poll : Future σ → World σ → Option (Future σ) × World σ
  | lazy rest, world =>
    match rest.poll world with
    | (.ready _, world) => (none, world)
    | (.pending rest, world) => (some (lazy rest), world)
  | flush id progress?, world =>
    let (polled, world) := match progress? with
      | none => World.beginFetch id world
      | some progress => World.resumeFetch id progress world
    match polled with
    | .ready () => (none, world)
    | .pending progress => (some (flush id (some progress)), world)

/-- The events of polling a future, at a source. -/
def account (watched : SourceId) : Future σ → World σ → List SourceEvent
  | lazy rest, world => rest.account watched world
  | flush id none, world => seenFrom watched id (World.beginAccount id world)
  | flush id (some progress), world => seenFrom watched id (World.resumeAccount id progress world)

/-- How far a future has got with a fetch of a source. -/
def progressAt (watched : SourceId) : Future σ → Option (FetchProgress σ)
  | lazy rest => rest.progressAt watched
  | flush id progress? => if id = watched then progress? else none

/-- Whether a future has not been polled yet. -/
def IsFresh : Future σ → Prop
  | lazy (.start _) => True
  | lazy (.waiting _ _ _) => False
  | flush _ progress? => progress? = none

end Future

/-- A world, the futures that are alive in it, and what has happened at one source. -/
structure Traffic (σ : Type) where
  /-- The world. -/
  world : World σ
  /-- The futures that have been made and have not finished. -/
  futures : List (Future σ)
  /-- The events at the source, in order. -/
  events : List SourceEvent

namespace Traffic

/-- Nothing has been loaded and nobody loads. -/
def start (app : σ) (observe : Event → σ → σ) : Traffic σ := ⟨⟨app, observe, []⟩, [], []⟩

/-- What can happen next, as it is seen from a source. -/
inductive Move (watched : SourceId) : Traffic σ → Traffic σ → Prop
  /-- Application code runs. -/
  | act {α : Type} (traffic : Traffic σ) (action : Action σ α) :
    Move watched traffic
      ⟨(action.run traffic.world).2, traffic.futures,
        traffic.events ++ action.account watched traffic.world⟩
  /-- The state of the application changes. -/
  | change (traffic : Traffic σ) (app : σ) :
    Move watched traffic { traffic with world := { traffic.world with app } }
  /-- A future is made. -/
  | make (traffic : Traffic σ) (future : Future σ) (fresh : future.IsFresh) :
    Move watched traffic { traffic with futures := traffic.futures ++ [future] }
  /-- One of the futures is polled. -/
  | poll (traffic : Traffic σ) (before after : List (Future σ)) (future : Future σ)
      (among : traffic.futures = before ++ future :: after) :
    Move watched traffic
      ⟨(future.poll traffic.world).2,
        before ++ (future.poll traffic.world).1.toList ++ after,
        traffic.events ++ future.account watched traffic.world⟩
  /-- The cache is cleared. -/
  | clear (traffic : Traffic σ) :
    Move watched traffic
      ⟨traffic.world.clearCache, traffic.futures, traffic.events ++ [.cleared]⟩

/-- What can come about, as it is seen from a source. -/
inductive Reached (watched : SourceId) : Traffic σ → Prop
  /-- The start. -/
  | start (app : σ) (observe : Event → σ → σ) : Reached watched (start app observe)
  /-- One move later. -/
  | move {before after : Traffic σ} (reached : Reached watched before) (move : Move watched before after) :
    Reached watched after

end Traffic

end GraphExec
