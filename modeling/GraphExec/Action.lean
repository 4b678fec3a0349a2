import GraphExec.Loader

/-!
# Application code

Hooks and resolvers of the application run inside a request, one at a time. What they may do
beside answering is to look at the application's own state, to change it, to take a source of the
loader into use, and to ask the loader for a key. Code that does none of it is `done` with its
answer at once.
-/

namespace GraphExec

/-- A piece of application code that answers an `α`. -/
inductive Action (σ : Type) (α : Type) where
  /-- Answers. -/
  | done (answer : α)
  /-- Looks at the application's state. -/
  | read (next : σ → Action σ α)
  /-- Changes the application's state. -/
  | write (state : σ) (next : Action σ α)
  /-- Takes a source of the loader into use. -/
  | useSource (id : SourceId) (source : BatchSource σ) (next : Action σ α)
  /-- Asks the loader for a key, to be fetched with the next batch. -/
  | request (key : LoadKey σ) (next : Action σ α)

namespace Action

variable {σ α β : Type}

/-- Goes on with what the answer says. -/
def bind : Action σ α → (α → Action σ β) → Action σ β
  | done answer, f => f answer
  | read next, f => read fun state => (next state).bind f
  | write state next, f => write state (next.bind f)
  | useSource id source next, f => useSource id source (next.bind f)
  | request key next, f => request key (next.bind f)

instance : Monad (Action σ) where
  pure := done
  bind := bind

/-- The application's state. -/
def getState : Action σ σ :=
  read done

/-- Changes the application's state. -/
def modifyState (f : σ → σ) : Action σ Unit :=
  read fun state => write (f state) (done ())

/-- Asks the loader for keys of a source, one after another. The source is in use from then on,
even if there are no keys. -/
def requestKeys (id : SourceId) (source : BatchSource σ) (keys : List String) : Action σ Unit :=
  useSource id source (keys.foldr (fun key next => request ⟨id, source, key⟩ next) (done ()))

/-- Asks the loader for a key. -/
def requestKey (key : LoadKey σ) : Action σ Unit :=
  request key (done ())

/-- Runs a piece of application code to its answer. -/
def run : Action σ α → StateM (World σ) α
  | done answer => pure answer
  | read next => fun world => (next world.app).run world
  | write state next => fun world => next.run { world with app := state }
  | useSource id source next => fun world => next.run (world.useSource id source)
  | request key next => fun world => next.run (world.request key)

end Action

/-- Application code as the fetch of a batch; a fetch asks the loader for nothing. -/
def Fetch.ofAction {σ : Type} : Action σ (Except ExecutionError (List Value)) → Fetch σ
  | .done outcome => .done outcome
  | .read next => .read fun state => ofAction (next state)
  | .write state next => .write state (ofAction next)
  | .useSource _ _ next => ofAction next
  | .request _ next => ofAction next

end GraphExec
