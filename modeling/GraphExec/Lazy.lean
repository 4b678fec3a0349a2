import GraphExec.Action

/-!
# Lazy answers

A `Lazy` is an answer that is not there yet. Polling it goes on until it answers or waits: for
nothing in particular, or for a key that is being loaded. A poll that finds it waiting leaves what
is left of it, a `Pending`.
-/

namespace GraphExec

/-- An answer of type `α` that takes time. -/
inductive Lazy (σ : Type) (α : Type) where
  /-- Answers. -/
  | done (answer : α)
  /-- Looks at the application's state. -/
  | read (next : σ → Lazy σ α)
  /-- Changes the application's state. -/
  | write (state : σ) (next : Lazy σ α)
  /-- Takes a source of the loader into use. -/
  | useSource (id : SourceId) (source : BatchSource σ) (next : Lazy σ α)
  /-- Asks the loader for a key. -/
  | request (key : LoadKey σ) (next : Lazy σ α)
  /-- Waits until the next poll. -/
  | pause (next : Lazy σ α)
  /-- Waits for the outcome of a key. -/
  | await (key : LoadKey σ) (next : LoadOutcome → Lazy σ α)

/-- What is left of a lazy that has been polled. -/
inductive Pending (σ : Type) (α : Type) where
  /-- A lazy that goes on at the next poll. -/
  | start (lazy : Lazy σ α)
  /-- A lazy that waits for the outcome of a key. -/
  | waiting (key : LoadKey σ) (progress : Option (FetchProgress σ))
      (next : LoadOutcome → Lazy σ α)

/-- An answer that may be there at once. -/
inductive Answer (σ : Type) (ε : Type) (α : Type) where
  /-- The answer. -/
  | ready (answer : α)
  /-- The answer comes later, or fails. -/
  | later (lazy : Lazy σ (Except ε α))

namespace Lazy

variable {σ ε α β : Type}

/-- Goes on with what the answer says. -/
def bind : Lazy σ α → (α → Lazy σ β) → Lazy σ β
  | done answer, f => f answer
  | read next, f => read fun state => (next state).bind f
  | write state next, f => write state (next.bind f)
  | useSource id source next, f => useSource id source (next.bind f)
  | request key next, f => request key (next.bind f)
  | pause next, f => pause (next.bind f)
  | await key next, f => await key fun outcome => (next outcome).bind f

instance : Monad (Lazy σ) where
  pure := done
  bind := bind

/-- Application code as a lazy answer. -/
def ofAction : Action σ α → Lazy σ α
  | .done answer => done answer
  | .read next => read fun state => ofAction (next state)
  | .write state next => write state (ofAction next)
  | .useSource id source next => useSource id source (ofAction next)
  | .request key next => request key (ofAction next)

/-- Changes an answer that is no failure. -/
def mapOk (f : α → β) (lazy : Lazy σ (Except ε α)) : Lazy σ (Except ε β) :=
  lazy.bind fun result => done (result.map f)

/-- Changes an answer that is no failure into an answer or a failure. -/
def andThen (f : α → Except ε β) (lazy : Lazy σ (Except ε α)) : Lazy σ (Except ε β) :=
  lazy.bind fun result => done (result.bind f)

/-- The load of a key. -/
def load (key : LoadKey σ) : Lazy σ (Except ResolverError Value) :=
  await key fun outcome => done (outcome.mapError .execution)

/-- The loads of keys, one after another; the first failure is that of the whole. -/
def loadMany : List (LoadKey σ) → Lazy σ (Except ResolverError (List Value))
  | [] => done (.ok [])
  | key :: rest => await key fun outcome =>
    match outcome with
    | .error error => done (.error (.execution error))
    | .ok value => (loadMany rest).mapOk (value :: ·)

/-- Goes on with a lazy until it answers or waits. -/
def poll : Lazy σ α → StateM (World σ) (Polled α (Pending σ α))
  | done answer => pure (.ready answer)
  | read next => fun world => (next world.app).poll world
  | write state next => fun world => next.poll { world with app := state }
  | useSource id source next => fun world => next.poll (world.useSource id source)
  | request key next => fun world => next.poll (world.request key)
  | pause next => pure (.pending (.start next))
  | await key next => fun world =>
    match World.awaitKey key world with
    | (.ready outcome, world) => (next outcome).poll world
    | (.pending progress, world) => (.pending (.waiting key progress next), world)

end Lazy

namespace Pending

variable {σ α : Type}

/-- Goes on with what is left of a lazy until it answers or waits again. -/
def poll : Pending σ α → StateM (World σ) (Polled α (Pending σ α))
  | start lazy => lazy.poll
  | waiting key progress next => fun world =>
    match World.resumeKey key progress world with
    | (.ready outcome, world) => (next outcome).poll world
    | (.pending progress, world) => (.pending (.waiting key progress next), world)

/-- Whether a poll would get any further. It would not while a ticket drawn for a fetch is still
to come up. -/
def canGoOn (world : World σ) : Pending σ α → Bool
  | waiting key (some (.queued ticket)) _ => world.isServed key.id ticket
  | _ => true

/-- Polls up to `fuel` times until there is an answer. -/
def resolve? : Nat → Pending σ α → StateM (World σ) (Option α)
  | 0, _ => pure none
  | fuel + 1, pending => do
    match ← pending.poll with
    | .ready answer => return some answer
    | .pending rest => resolve? fuel rest

end Pending

end GraphExec
