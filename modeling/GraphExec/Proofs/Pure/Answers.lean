import GraphExec.Lazy
import GraphExec.Proofs.Pure.Loads

/-!
# Application code that answers one thing

Pure application code answers the same at every state of the application, and asks keywise sources
only. What it answers in a run, now or later, is what it answers at any one state.
-/

namespace GraphExec

variable {σ ε α β : Type}

/-! ### Code that answers at once -/

namespace Action

/-- At every state the code answers the same. -/
def Answers (loads : Loads) (answer : α) : Action σ α → Prop
  | done a => a = answer
  | read next => ∀ state, (next state).Answers loads answer
  | write _ next => next.Answers loads answer
  | useSource id source next => source.Keywise (loads id) ∧ next.Answers loads answer
  | request key next => key.source.Keywise (loads key.id) ∧ next.Answers loads answer

/-- What the code answers at a state. -/
def answer (state : σ) : Action σ α → α
  | done a => a
  | read next => (next state).answer state
  | write _ next => next.answer state
  | useSource _ _ next => next.answer state
  | request _ next => next.answer state

/-- The code answers one thing, of a kind. -/
def Settled (loads : Loads) (holds : α → Prop) (action : Action σ α) : Prop :=
  ∃ a, action.Answers loads a ∧ holds a

variable {loads : Loads} {a : α} {action : Action σ α}

theorem Answers.answer (answers : action.Answers loads a) (state : σ) :
    action.answer state = a := by
  induction action with
  | done b => exact answers
  | read next ih => exact ih state (answers state)
  | write other next ih => exact ih answers
  | useSource id source next ih => exact ih answers.2
  | request key next ih => exact ih answers.2

theorem Answers.run (answers : action.Answers loads a) {world : World σ}
    (keywise : world.Keywise loads) :
    (action.run world).1 = a ∧ (action.run world).2.Keywise loads := by
  induction action generalizing world with
  | done b => exact ⟨answers, keywise⟩
  | read next ih => exact ih _ (answers _) keywise
  | write state next ih => exact ih answers (keywise.app state)
  | useSource id source next ih => exact ih answers.2 (keywise.useSource answers.1)
  | request key next ih => exact ih answers.2 (keywise.request answers.1)

/-- Code that answers one thing answers it in any world. -/
theorem Answers.told (answers : action.Answers loads a) (world : World σ) :
    (action.run world).1 = a := by
  induction action generalizing world with
  | done b => exact answers
  | read next ih => exact ih _ (answers _) world
  | write state next ih => exact ih answers _
  | useSource id source next ih => exact ih answers.2 _
  | request key next ih => exact ih answers.2 _

theorem Answers.bind {f : α → Action σ β} {b : β} (answers : action.Answers loads a)
    (after : (f a).Answers loads b) : (action.bind f).Answers loads b := by
  induction action with
  | done other => exact answers ▸ after
  | read next ih => exact fun state => ih state (answers state)
  | write state next ih => exact ih answers
  | useSource id source next ih => exact ⟨answers.1, ih answers.2⟩
  | request key next ih => exact ⟨answers.1, ih answers.2⟩

theorem answer_bind (state : σ) (action : Action σ α) (f : α → Action σ β) :
    (action.bind f).answer state = (f (action.answer state)).answer state := by
  induction action with
  | done a => rfl
  | read next ih => exact ih state
  | write other next ih => exact ih
  | useSource id source next ih => exact ih
  | request key next ih => exact ih

variable {holds : α → Prop} {holds' : β → Prop}

theorem settled_done (fine : holds a) : (done a : Action σ α).Settled loads holds :=
  ⟨a, rfl, fine⟩

theorem Settled.bind {f : α → Action σ β} (settled : action.Settled loads holds)
    (then_ : ∀ a, holds a → (f a).Settled loads holds') :
    (action.bind f).Settled loads holds' := by
  obtain ⟨a, answers, fine⟩ := settled
  obtain ⟨b, after, fine'⟩ := then_ a fine
  exact ⟨b, answers.bind after, fine'⟩

theorem Settled.mono {holds' : α → Prop} (settled : action.Settled loads holds)
    (weaker : ∀ a, holds a → holds' a) : action.Settled loads holds' := by
  obtain ⟨a, answers, fine⟩ := settled
  exact ⟨a, answers, weaker a fine⟩

/-- What settled code answers in a run. -/
theorem Settled.run (settled : action.Settled loads holds) (state : σ) {world : World σ}
    (keywise : world.Keywise loads) :
    (action.run world).1 = action.answer state ∧ (action.run world).2.Keywise loads ∧
      holds (action.answer state) := by
  obtain ⟨a, answers, fine⟩ := settled
  obtain ⟨same, after⟩ := answers.run keywise
  rw [answers.answer state]
  exact ⟨same, after, fine⟩

end Action

/-! ### Code that takes time -/

namespace Lazy

/-- At every state the code answers the same in the end. -/
def Answers (loads : Loads) (answer : α) : Lazy σ α → Prop
  | done a => a = answer
  | read next => ∀ state, (next state).Answers loads answer
  | write _ next => next.Answers loads answer
  | useSource id source next => source.Keywise (loads id) ∧ next.Answers loads answer
  | request key next => key.source.Keywise (loads key.id) ∧ next.Answers loads answer
  | pause next => next.Answers loads answer
  | await key next =>
    key.source.Keywise (loads key.id) ∧ (next (.ok (loads key.id key.key))).Answers loads answer

/-- What the code answers in the end, at a state. -/
def answer (loads : Loads) (state : σ) : Lazy σ α → α
  | done a => a
  | read next => (next state).answer loads state
  | write _ next => next.answer loads state
  | useSource _ _ next => next.answer loads state
  | request _ next => next.answer loads state
  | pause next => next.answer loads state
  | await key next => (next (.ok (loads key.id key.key))).answer loads state

/-- The code answers one thing in the end, of a kind. -/
def Settled (loads : Loads) (holds : α → Prop) (lazy : Lazy σ α) : Prop :=
  ∃ a, lazy.Answers loads a ∧ holds a

variable {loads : Loads} {a : α} {lazy : Lazy σ α}

theorem Answers.answer (answers : lazy.Answers loads a) (state : σ) :
    lazy.answer loads state = a := by
  induction lazy with
  | done b => exact answers
  | read next ih => exact ih state (answers state)
  | write other next ih => exact ih answers
  | useSource id source next ih => exact ih answers.2
  | request key next ih => exact ih answers.2
  | pause next ih => exact ih answers
  | await key next ih => exact ih _ answers.2

theorem Answers.bind {f : α → Lazy σ β} {b : β} (answers : lazy.Answers loads a)
    (after : (f a).Answers loads b) : (lazy.bind f).Answers loads b := by
  induction lazy with
  | done other => exact answers ▸ after
  | read next ih => exact fun state => ih state (answers state)
  | write state next ih => exact ih answers
  | useSource id source next ih => exact ⟨answers.1, ih answers.2⟩
  | request key next ih => exact ⟨answers.1, ih answers.2⟩
  | pause next ih => exact ih answers
  | await key next ih => exact ⟨answers.1, ih _ answers.2⟩

variable {holds : α → Prop} {holds' : β → Prop}

theorem settled_done (fine : holds a) : (done a : Lazy σ α).Settled loads holds :=
  ⟨a, rfl, fine⟩

theorem Settled.bind {f : α → Lazy σ β} (settled : lazy.Settled loads holds)
    (then_ : ∀ a, holds a → (f a).Settled loads holds') :
    (lazy.bind f).Settled loads holds' := by
  obtain ⟨a, answers, fine⟩ := settled
  obtain ⟨b, after, fine'⟩ := then_ a fine
  exact ⟨b, answers.bind after, fine'⟩

theorem settled_ofAction {action : Action σ α} (settled : action.Settled loads holds) :
    (ofAction action).Settled loads holds := by
  obtain ⟨a, answers, fine⟩ := settled
  refine ⟨a, ?_, fine⟩
  induction action with
  | done b => exact answers
  | read next ih => exact fun state => ih state (answers state)
  | write state next ih => exact ih answers
  | useSource id source next ih => exact ⟨answers.1, ih answers.2⟩
  | request key next ih => exact ⟨answers.1, ih answers.2⟩

end Lazy

/-! ### What is left of code that takes time -/

namespace Pending

/-- What is left of the code answers one thing in the end. -/
def Answers (loads : Loads) (answer : α) : Pending σ α → Prop
  | start lazy => lazy.Answers loads answer
  | waiting key progress next =>
    key.source.Keywise (loads key.id) ∧
      (∀ rest, progress = some rest → rest.Keywise (loads key.id)) ∧
      (next (.ok (loads key.id key.key))).Answers loads answer

/-- A poll leaves keywise sources, and answers what was to be answered or leaves it to be. -/
def Advances (loads : Loads) (answer : α) (result : Polled α (Pending σ α) × World σ) : Prop :=
  result.2.Keywise loads ∧
    match result.1 with
    | .ready a => a = answer
    | .pending rest => rest.Answers loads answer

variable {loads : Loads} {a : α}

/-- A poll that comes to a key goes on from what the key stands for. -/
theorem advances_of_loaded {key : LoadKey σ} {next : LoadOutcome → Lazy σ α}
    (fine : key.source.Keywise (loads key.id))
    (answers : (next (.ok (loads key.id key.key))).Answers loads a)
    (ih : ∀ {world : World σ}, world.Keywise loads →
      Advances loads a ((next (.ok (loads key.id key.key))).poll world))
    {result : Polled LoadOutcome (Option (FetchProgress σ)) × World σ}
    (loaded : World.Loaded loads key result) :
    Advances loads a (match result with
      | (.ready outcome, world) => (next outcome).poll world
      | (.pending progress, world) => (.pending (.waiting key progress next), world)) := by
  obtain ⟨outcome | progress, world⟩ := result
  · obtain rfl := loaded.answer outcome rfl
    exact ih loaded.keywise
  · refine ⟨loaded.keywise, fine, fun rest same => loaded.rest rest ?_, answers⟩
    rw [same]

theorem advances_poll {lazy : Lazy σ α} (answers : lazy.Answers loads a) :
    ∀ {world : World σ}, world.Keywise loads → Advances loads a (lazy.poll world) := by
  induction lazy with
  | done b => exact fun keywise => ⟨keywise, answers⟩
  | read next ih => exact fun keywise => ih _ (answers _) keywise
  | write state next ih => exact fun keywise => ih answers (keywise.app state)
  | useSource id source next ih => exact fun keywise => ih answers.2 (keywise.useSource answers.1)
  | request key next ih => exact fun keywise => ih answers.2 (keywise.request answers.1)
  | pause next ih => exact fun keywise => ⟨keywise, answers⟩
  | await key next ih =>
      intro world keywise
      unfold Lazy.poll
      exact advances_of_loaded answers.1 answers.2 (ih _ answers.2) (keywise.awaitKey answers.1)

theorem Answers.poll {pending : Pending σ α} (answers : pending.Answers loads a)
    {world : World σ} (keywise : world.Keywise loads) : Advances loads a (pending.poll world) := by
  cases pending with
  | start lazy => exact advances_poll answers keywise
  | waiting key progress next =>
      obtain ⟨fine, going, answers⟩ := answers
      exact advances_of_loaded fine answers (advances_poll answers) (keywise.resumeKey fine going)

end Pending

end GraphExec
