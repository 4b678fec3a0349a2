import GraphExec.Proofs.Loading.Ledger

/-!
# What lazies are fed

A lazy is fed the outcomes of the keys that it awaits, one after another. The loads of many keys
come to the values of the keys in the order in which they were asked for, or to the first failure.
-/

namespace GraphExec

variable {σ α β : Type}

/-- The outcomes that are given for keys, in order. -/
abbrev Feed (σ : Type) := List (LoadKey σ × LoadOutcome)

namespace Lazy

/-- Given outcomes of the keys that it awaits, a lazy goes on as another one, whatever it finds the
state of the application to be. -/
inductive Feeds : Lazy σ α → Feed σ → Lazy σ α → Prop
  | here (lazy : Lazy σ α) : Feeds lazy [] lazy
  | read {next : σ → Lazy σ α} {fed : Feed σ} {rest : Lazy σ α} (state : σ)
      (after : Feeds (next state) fed rest) : Feeds (.read next) fed rest
  | write {state : σ} {next : Lazy σ α} {fed : Feed σ} {rest : Lazy σ α}
      (after : Feeds next fed rest) : Feeds (.write state next) fed rest
  | useSource {id : SourceId} {source : BatchSource σ} {next : Lazy σ α} {fed : Feed σ}
      {rest : Lazy σ α} (after : Feeds next fed rest) : Feeds (.useSource id source next) fed rest
  | request {key : LoadKey σ} {next : Lazy σ α} {fed : Feed σ} {rest : Lazy σ α}
      (after : Feeds next fed rest) : Feeds (.request key next) fed rest
  | pause {next : Lazy σ α} {fed : Feed σ} {rest : Lazy σ α} (after : Feeds next fed rest) :
      Feeds (.pause next) fed rest
  | await {key : LoadKey σ} {next : LoadOutcome → Lazy σ α} {fed : Feed σ} {rest : Lazy σ α}
      (outcome : LoadOutcome) (after : Feeds (next outcome) fed rest) :
      Feeds (.await key next) ((key, outcome) :: fed) rest

theorem Feeds.trans {first second third : Lazy σ α} {fed more : Feed σ}
    (one : first.Feeds fed second) (two : second.Feeds more third) :
    first.Feeds (fed ++ more) third := by
  induction one with
  | here lazy => exact two
  | read state _ ih => exact .read state (ih two)
  | write _ ih => exact .write (ih two)
  | useSource _ ih => exact .useSource (ih two)
  | request _ ih => exact .request (ih two)
  | pause _ ih => exact .pause (ih two)
  | await outcome _ ih => exact .await outcome (ih two)

/-- A lazy that goes on with the answer of another one is fed what both are fed. -/
theorem Feeds.of_bind {f : α → Lazy σ β} {b : β} (lazy : Lazy σ α) :
    ∀ {fed : Feed σ}, (lazy.bind f).Feeds fed (done b) →
      ∃ a first second, fed = first ++ second ∧ lazy.Feeds first (done a) ∧
        (f a).Feeds second (done b) := by
  induction lazy with
  | done answer => exact fun {fed} feeds => ⟨answer, [], fed, rfl, .here _, feeds⟩
  | read next ih =>
      rintro fed (_ | @⟨_, _, _, state, after⟩)
      obtain ⟨a, first, second, split, one, two⟩ := ih state after
      exact ⟨a, first, second, split, .read state one, two⟩
  | write state next ih =>
      rintro fed (_ | _ | ⟨after⟩)
      obtain ⟨a, first, second, split, one, two⟩ := ih after
      exact ⟨a, first, second, split, .write one, two⟩
  | useSource id source next ih =>
      rintro fed (_ | _ | _ | ⟨after⟩)
      obtain ⟨a, first, second, split, one, two⟩ := ih after
      exact ⟨a, first, second, split, .useSource one, two⟩
  | request key next ih =>
      rintro fed (_ | _ | _ | _ | ⟨after⟩)
      obtain ⟨a, first, second, split, one, two⟩ := ih after
      exact ⟨a, first, second, split, .request one, two⟩
  | pause next ih =>
      rintro fed (_ | _ | _ | _ | _ | ⟨after⟩)
      obtain ⟨a, first, second, split, one, two⟩ := ih after
      exact ⟨a, first, second, split, .pause one, two⟩
  | await key next ih =>
      rintro fed (_ | _ | _ | _ | _ | _ | @⟨_, _, fed, _, outcome, after⟩)
      obtain ⟨a, first, second, rfl, one, two⟩ := ih outcome after
      exact ⟨a, (key, outcome) :: first, second, rfl, .await outcome one, two⟩

/-- What the loads of keys come to, given outcomes of keys: the values in the order of the keys, or
the first failure, behind which no key is awaited. -/
def Delivers (keys : List (LoadKey σ)) (fed : Feed σ) :
    Except ResolverError (List Value) → Prop
  | .ok values => values.length = keys.length ∧ fed = keys.zip (values.map .ok)
  | .error failure => ∃ (first rest : List (LoadKey σ)) (key : LoadKey σ) (values : List Value)
      (error : ExecutionError), keys = first ++ key :: rest ∧ values.length = first.length ∧
        fed = first.zip (values.map .ok) ++ [(key, .error error)] ∧ failure = .execution error

theorem Feeds.delivers {keys : List (LoadKey σ)} :
    ∀ {fed : Feed σ} {answer : Except ResolverError (List Value)},
      (loadMany keys).Feeds fed (done answer) → Delivers keys fed answer := by
  induction keys with
  | nil =>
      rintro fed answer ⟨⟩
      exact ⟨rfl, rfl⟩
  | cons key rest ih =>
      rintro fed answer (_ | _ | _ | _ | _ | _ | @⟨_, _, fed, _, outcome, after⟩)
      cases outcome with
      | error error =>
          cases after
          exact ⟨[], rest, key, [], error, rfl, rfl, rfl, rfl⟩
      | ok value =>
          obtain ⟨result, first, second, rfl, one, two⟩ := Feeds.of_bind (loadMany rest) after
          cases two
          rw [List.append_nil]
          have delivers := ih one
          cases result with
          | ok values =>
              obtain ⟨length_eq, rfl⟩ := delivers
              exact ⟨congrArg (· + 1) length_eq, rfl⟩
          | error failure =>
              obtain ⟨begun, left, key', values, error, rfl, length_eq, rfl, rfl⟩ := delivers
              exact ⟨key :: begun, left, key', value :: values, error, rfl,
                congrArg (· + 1) length_eq, rfl, rfl⟩

/-- The load of a key comes to the outcome of the key. -/
theorem Feeds.of_load {key : LoadKey σ} {fed : Feed σ} {answer : Except ResolverError Value}
    (feeds : (load key).Feeds fed (done answer)) :
    ∃ outcome, fed = [(key, outcome)] ∧ answer = outcome.mapError .execution := by
  rcases feeds with _ | _ | _ | _ | _ | _ | @⟨_, _, fed, _, outcome, after⟩
  cases after
  exact ⟨outcome, rfl, rfl⟩

/-- What a lazy is fed when it is polled. -/
def fed : Lazy σ α → World σ → Feed σ
  | done _, _ => []
  | read next, world => (next world.app).fed world
  | write state next, world => next.fed { world with app := state }
  | useSource id source next, world => next.fed (world.useSource id source)
  | request key next, world => next.fed (world.request key)
  | pause _, _ => []
  | await key next, world =>
    match World.awaitKey key world with
    | (.ready outcome, world) => (key, outcome) :: (next outcome).fed world
    | (.pending _, _) => []

end Lazy

namespace Pending

/-- The lazy that something is left of, from where it waits. -/
def lazy : Pending σ α → Lazy σ α
  | start lazy => lazy
  | waiting key _ next => .await key next

/-- What a lazy that something is left of is fed when it is polled. -/
def fed : Pending σ α → World σ → Feed σ
  | start lazy, world => lazy.fed world
  | waiting key progress next, world =>
    match World.resumeKey key progress world with
    | (.ready outcome, world) => (key, outcome) :: (next outcome).fed world
    | (.pending _, _) => []

end Pending

/-- The lazy that a poll leaves, be it but an answer. -/
def Polled.lazy : Polled α (Pending σ α) → Lazy σ α
  | ready answer => .done answer
  | pending rest => rest.lazy

theorem Lazy.feeds_poll (lazy : Lazy σ α) :
    ∀ world, lazy.Feeds (lazy.fed world) (lazy.poll world).1.lazy := by
  induction lazy with
  | done answer => exact fun _ => .here _
  | read next ih => exact fun world => .read world.app (ih world.app world)
  | write state next ih => exact fun _ => .write (ih _)
  | useSource id source next ih => exact fun _ => .useSource (ih _)
  | request key next ih => exact fun _ => .request (ih _)
  | pause next => exact fun _ => .pause (.here _)
  | await key next ih =>
      intro world
      rcases awaited : World.awaitKey key world with ⟨outcome | progress?, after⟩ <;>
        simp only [fed, poll, awaited]
      · exact .await outcome (ih outcome after)
      · exact .here _

theorem Pending.feeds_poll (rest : Pending σ α) (world : World σ) :
    rest.lazy.Feeds (rest.fed world) (rest.poll world).1.lazy := by
  cases rest with
  | start lazy => exact lazy.feeds_poll world
  | waiting key progress? next =>
      rcases resumed : World.resumeKey key progress? world with ⟨outcome | progress', after⟩ <;>
        simp only [fed, poll, resumed]
      · exact .await outcome ((next outcome).feeds_poll after)
      · exact .here _

/-! ### Whatever is fed is in the ledger -/

namespace World

theorem loaded_of_awaitKey {key : LoadKey σ} {world : World σ} {outcome : LoadOutcome}
    (ready : (awaitKey key world).1 = .ready outcome) :
    LoadEvent.loaded key.key outcome ∈ awaitLedger key world := by
  unfold awaitLedger
  cases cached : world.cached? key.id key.key with
  | some said =>
      simp only [awaitKey, cached, Polled.ready.injEq] at ready
      exact ready ▸ List.mem_singleton_self _
  | none =>
      rw [ready]
      exact List.mem_cons_of_mem _ (List.mem_append_right _ (List.mem_singleton_self _))

theorem loaded_of_resumeKey {key : LoadKey σ} {progress? : Option (FetchProgress σ)}
    {world : World σ} {outcome : LoadOutcome}
    (ready : (resumeKey key progress? world).1 = .ready outcome) :
    LoadEvent.loaded key.key outcome ∈ keyLedger key progress? world := by
  cases progress? with
  | none => exact loaded_of_awaitKey ready
  | some progress =>
      rcases resumed : resumeFetch key.id progress world with ⟨⟨⟨⟩⟩ | rest, after⟩ <;>
        simp only [resumeKey, resumed] at ready <;> simp only [keyLedger, resumed]
      · exact List.mem_append_right _ (loaded_of_awaitKey ready)
      · cases ready

end World

theorem mem_entriesFrom {watched id : SourceId} {ledger : Ledger} {entry : LoadEvent}
    (mem : entry ∈ ledger) (same : id = watched) : entry ∈ entriesFrom watched id ledger := by
  rwa [entriesFrom, if_pos same]

theorem Lazy.loaded_of_fed {watched : SourceId} {key : LoadKey σ} {outcome : LoadOutcome}
    (here : key.id = watched) (lazy : Lazy σ α) :
    ∀ {world : World σ}, (key, outcome) ∈ lazy.fed world →
      LoadEvent.loaded key.key outcome ∈ lazy.ledger watched world := by
  induction lazy with
  | done answer => exact fun mem => absurd mem List.not_mem_nil
  | read next ih => exact fun {world} mem => ih world.app mem
  | write state next ih => exact fun mem => ih mem
  | useSource id source next ih => exact fun mem => ih mem
  | request other next ih => exact fun mem => List.mem_append_right _ (ih mem)
  | pause next => exact fun mem => absurd mem List.not_mem_nil
  | await other next ih =>
      intro world mem
      have first : ∀ said, (World.awaitKey other world).1 = .ready said →
          LoadEvent.loaded other.key said ∈ World.awaitLedger other world :=
        fun _ => World.loaded_of_awaitKey
      rcases awaited : World.awaitKey other world with ⟨said | progress?, after⟩ <;>
        simp only [fed, awaited] at mem <;> simp only [ledger, awaited]
      · rw [awaited] at first
        rcases List.mem_cons.mp mem with same | mem
        · injection same with same_key same_said
          subst same_key same_said
          exact List.mem_append_left _ (mem_entriesFrom (first _ rfl) here)
        · exact List.mem_append_right _ (ih said mem)
      · cases mem

theorem Pending.loaded_of_fed {watched : SourceId} {key : LoadKey σ} {outcome : LoadOutcome}
    (here : key.id = watched) (rest : Pending σ α) {world : World σ}
    (mem : (key, outcome) ∈ rest.fed world) :
    LoadEvent.loaded key.key outcome ∈ rest.ledger watched world := by
  cases rest with
  | start lazy => exact lazy.loaded_of_fed here mem
  | waiting other progress? next =>
      have first : ∀ said, (World.resumeKey other progress? world).1 = .ready said →
          LoadEvent.loaded other.key said ∈ World.keyLedger other progress? world :=
        fun _ => World.loaded_of_resumeKey
      rcases resumed : World.resumeKey other progress? world with ⟨said | progress', after⟩ <;>
        simp only [fed, resumed] at mem <;> simp only [ledger, resumed]
      · rw [resumed] at first
        rcases List.mem_cons.mp mem with same | mem
        · injection same with same_key same_said
          subst same_key same_said
          exact List.mem_append_left _ (mem_entriesFrom (first _ rfl) here)
        · exact List.mem_append_right _ ((next said).loaded_of_fed here mem)
      · cases mem

end GraphExec
