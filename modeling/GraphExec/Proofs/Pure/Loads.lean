import GraphExec.Action
import GraphExec.Proofs.Loading.Sources

/-!
# Sources that answer key by key

A batch source is keywise if every fetch succeeds, with a value for each key that depends on the key
alone. When all sources are keywise, whatever a key is loaded to does not depend on when, with which
other keys, or how often it is fetched.
-/

namespace GraphExec

variable {σ : Type}

/-- What each key of each source stands for. -/
abbrev Loads := SourceId → String → Value

/-- Whatever the application's state, a fetch answers the same. -/
def Fetch.Yields (outcome : Except ExecutionError (List Value)) : Fetch σ → Prop
  | .done answer => answer = outcome
  | .read next => ∀ state, (next state).Yields outcome
  | .write _ next => next.Yields outcome
  | .pause next => next.Yields outcome

/-- Every fetch answers the values of its keys. -/
def BatchSource.Keywise (value : String → Value) (source : BatchSource σ) : Prop :=
  ∀ keys, (source.fetch keys).Yields (.ok (keys.map value))

/-- A source in use is keywise, and knows nothing but what its keys stand for. -/
structure SourceState.Keywise (value : String → Value) (state : SourceState σ) : Prop where
  source : state.source.Keywise value
  results : ∀ key outcome, Fields.get? state.results key = some outcome → outcome = .ok (value key)

/-- All sources in use are keywise. -/
def World.Keywise (loads : Loads) (world : World σ) : Prop :=
  ∀ id state, world.source? id = some state → state.Keywise (loads id)

/-- A fetch under way is for the values of its keys. -/
def FetchProgress.Keywise (value : String → Value) : FetchProgress σ → Prop
  | .queued _ => True
  | .running keys rest => rest.Yields (.ok (keys.map value))

theorem Fetch.Yields.poll {outcome : Except ExecutionError (List Value)} {fetch : Fetch σ}
    (yields : fetch.Yields outcome) (state : σ) :
    match (fetch.poll state).2 with
    | .ready answer => answer = outcome
    | .pending rest => rest.Yields outcome := by
  induction fetch generalizing state with
  | done answer => exact yields
  | read next ih => exact ih _ (yields state) state
  | write other next ih => exact ih yields other
  | pause next ih => exact yields

namespace SourceState

variable {value : String → Value} {state : SourceState σ}

theorem keywise_new {source : BatchSource σ} (keywise : source.Keywise value) :
    (SourceState.new source).Keywise value :=
  ⟨keywise, fun _ _ known => by cases known⟩

theorem Keywise.request (keywise : state.Keywise value) (key : String) :
    (state.request key).Keywise value := by
  unfold SourceState.request
  split
  · exact keywise
  · exact ⟨keywise.source, keywise.results⟩

/-- What a fetch that succeeds key by key says about each key. -/
theorem outcomes_keywise (name : String) (keys : List String) :
    ∀ entry ∈ outcomes name keys (.ok (keys.map value)), entry.2 = .ok (value entry.1) := by
  intro entry mem
  unfold outcomes at mem
  simp only [List.length_map, if_true, List.map_map] at mem
  induction keys with
  | nil => cases mem
  | cons key rest ih =>
      rcases List.mem_cons.mp mem with rfl | later
      · rfl
      · exact ih later

theorem Keywise.record (keywise : state.Keywise value) (keys : List String) :
    (state.record keys (.ok (keys.map value))).Keywise value := by
  have fold : ∀ (entries : List (String × LoadOutcome)) (results : Fields LoadOutcome),
      (∀ entry ∈ entries, entry.2 = .ok (value entry.1)) →
      (∀ key outcome, Fields.get? results key = some outcome → outcome = .ok (value key)) →
      ∀ key outcome, Fields.get? (entries.foldl
        (fun results entry => Fields.insert results entry.1 entry.2) results) key = some outcome →
        outcome = .ok (value key) := by
    intro entries
    induction entries with
    | nil => exact fun _ _ known => known
    | cons entry rest ih =>
        intro results fine known
        refine ih _ (fun other mem => fine other (List.mem_cons_of_mem _ mem)) ?_
        intro key outcome found
        rw [Fields.get?_insert] at found
        split at found
        · rename_i same
          injection found with found
          rw [← found, ← same]
          exact fine entry List.mem_cons_self
        · exact known key outcome found
  exact ⟨keywise.source, fold _ _ (outcomes_keywise _ keys) keywise.results⟩

end SourceState

namespace World

variable {loads : Loads} {world : World σ}

theorem Keywise.app (keywise : world.Keywise loads) (app : σ) :
    ({ world with app } : World σ).Keywise loads :=
  keywise

theorem Keywise.tell (keywise : world.Keywise loads) (event : Event) :
    (world.tell event).Keywise loads :=
  keywise

/-- A change of one source that leaves it keywise. -/
theorem Keywise.modifySource (keywise : world.Keywise loads) {id : SourceId}
    {f : SourceState σ → SourceState σ}
    (stays : ∀ state, state.Keywise (loads id) → (f state).Keywise (loads id)) :
    (world.modifySource id f).Keywise loads := by
  intro other state found
  rw [source?_modifySource] at found
  split at found
  · rename_i same
    subst same
    obtain ⟨before, known, rfl⟩ := Option.map_eq_some_iff.mp found
    exact stays before (keywise _ _ known)
  · exact keywise other state found

theorem Keywise.useSource (keywise : world.Keywise loads) {id : SourceId} {source : BatchSource σ}
    (fine : source.Keywise (loads id)) : (world.useSource id source).Keywise loads := by
  intro other state found
  rw [source?_useSource] at found
  split at found
  · rename_i same
    subst same
    injection found with found
    subst found
    cases known : world.source? other with
    | none => exact SourceState.keywise_new fine
    | some before => exact keywise _ _ known
  · exact keywise other state found

theorem Keywise.request (keywise : world.Keywise loads) {key : LoadKey σ}
    (fine : key.source.Keywise (loads key.id)) : (world.request key).Keywise loads :=
  (keywise.useSource fine).modifySource fun _ known => known.request key.key

theorem Keywise.clearCache (keywise : world.Keywise loads) : world.clearCache.Keywise loads := by
  intro id state found
  rw [source?_clearCache] at found
  obtain ⟨before, known, rfl⟩ := Option.map_eq_some_iff.mp found
  exact ⟨(keywise id before known).source, fun _ _ none_known => by cases none_known⟩

theorem Keywise.cached? (keywise : world.Keywise loads) {id : SourceId} {key : String}
    {outcome : LoadOutcome} (known : world.cached? id key = some outcome) :
    outcome = .ok (loads id key) := by
  obtain ⟨state, found, known⟩ := Option.bind_eq_some_iff.mp known
  exact (keywise id state found).results key outcome known

/-- A poll leaves keywise sources, and what is left of a fetch for the values of its keys. -/
def Fetches (loads : Loads) (id : SourceId)
    (result : Polled Unit (FetchProgress σ) × World σ) : Prop :=
  result.2.Keywise loads ∧ ∀ rest, result.1 = .pending rest → rest.Keywise (loads id)

theorem fetches_ready {id : SourceId} (keywise : world.Keywise loads) :
    Fetches loads id (.ready (), world) :=
  ⟨keywise, nofun⟩

theorem fetches_pending {id : SourceId} {progress : FetchProgress σ}
    (keywise : world.Keywise loads) (fine : progress.Keywise (loads id)) :
    Fetches loads id (.pending progress, world) := by
  refine ⟨keywise, fun rest same => ?_⟩
  injection same with same
  exact same ▸ fine

theorem Keywise.runFetch (keywise : world.Keywise loads) {id : SourceId} {name : String}
    {keys : List String} {fetch : Fetch σ} (yields : fetch.Yields (.ok (keys.map (loads id)))) :
    Fetches loads id (World.runFetch id name keys fetch world) := by
  have polled := yields.poll world.app
  unfold World.runFetch
  rcases ends : fetch.poll world.app with ⟨app, outcome | rest⟩
  · rw [ends] at polled
    have same : outcome = .ok (keys.map (loads id)) := polled
    subst same
    refine fetches_ready (Keywise.modifySource (keywise.app app |>.tell _) fun state fine => ?_)
    have recorded := fine.record keys
    exact ⟨recorded.source, recorded.results⟩
  · rw [ends] at polled
    exact fetches_pending (keywise.app app) polled

theorem Keywise.serve (keywise : world.Keywise loads) (id : SourceId) :
    Fetches loads id (World.serve id world) := by
  unfold World.serve
  cases found : world.source? id with
  | none => exact fetches_ready keywise
  | some state =>
      by_cases empty : state.pending.isEmpty
      · simp only [empty, if_true]
        exact fetches_ready (keywise.modifySource fun _ fine => ⟨fine.source, fine.results⟩)
      · simp only [empty, if_false, Bool.false_eq_true]
        have cleared : (world.modifySource id fun state => { state with pending := [] }).Keywise
            loads := keywise.modifySource fun _ fine => ⟨fine.source, fine.results⟩
        exact (cleared.tell _).runFetch ((keywise id state found).source state.pending)

theorem Keywise.beginFetch (keywise : world.Keywise loads) (id : SourceId) :
    Fetches loads id (World.beginFetch id world) := by
  unfold World.beginFetch
  cases found : world.source? id with
  | none => exact fetches_ready keywise
  | some state =>
      have seated : (world.modifySource id fun before =>
          { before with turns := state.turns.draw.2 }).Keywise loads :=
        keywise.modifySource fun _ fine => ⟨fine.source, fine.results⟩
      by_cases served : state.turns.draw.2.serving = some state.turns.draw.1
      · simp only [served, if_true]
        exact seated.serve id
      · simp only [served, if_false]
        exact fetches_pending seated trivial

theorem Keywise.resumeFetch (keywise : world.Keywise loads) {id : SourceId}
    {progress : FetchProgress σ} (fine : progress.Keywise (loads id)) :
    Fetches loads id (World.resumeFetch id progress world) := by
  cases progress with
  | queued ticket =>
      unfold World.resumeFetch
      cases found : world.source? id with
      | none =>
          simp only [found]
          exact fetches_ready keywise
      | some state =>
          by_cases served : state.turns.serving = some ticket
          · simp only [found, served, if_true]
            exact keywise.serve id
          · simp only [found, served, if_false]
            exact fetches_pending keywise trivial
  | running keys rest => exact keywise.runFetch fine

/-- A poll of a key leaves keywise sources, and answers what the key stands for. -/
structure Loaded (loads : Loads) (key : LoadKey σ)
    (result : Polled LoadOutcome (Option (FetchProgress σ)) × World σ) : Prop where
  keywise : result.2.Keywise loads
  answer : ∀ outcome, result.1 = .ready outcome → outcome = .ok (loads key.id key.key)
  rest : ∀ progress, result.1 = .pending (some progress) → progress.Keywise (loads key.id)

theorem Keywise.loaded (keywise : world.Keywise loads) {key : LoadKey σ} {outcome : LoadOutcome}
    (cached : world.cached? key.id key.key = some outcome) :
    Loaded loads key (.ready outcome, world) := by
  refine ⟨keywise, fun other same => ?_, nofun⟩
  injection same with same
  exact same ▸ keywise.cached? cached

theorem Keywise.loading (keywise : world.Keywise loads) {key : LoadKey σ}
    {progress : FetchProgress σ} (fine : progress.Keywise (loads key.id)) :
    Loaded loads key (.pending (some progress), world) := by
  refine ⟨keywise, nofun, fun other same => ?_⟩
  injection same with same
  injection same with same
  exact same ▸ fine

theorem Keywise.awaitKey (keywise : world.Keywise loads) {key : LoadKey σ}
    (fine : key.source.Keywise (loads key.id)) : Loaded loads key (World.awaitKey key world) := by
  unfold World.awaitKey
  cases cached : world.cached? key.id key.key with
  | some outcome => exact keywise.loaded cached
  | none =>
      have fetches := (keywise.request fine).beginFetch key.id
      simp only
      rcases polled : World.beginFetch key.id (world.request key) with ⟨answer | progress, left⟩
      · rw [polled] at fetches
        cases cached : left.cached? key.id key.key with
        | some outcome =>
            simp only [cached]
            exact fetches.1.loaded cached
        | none =>
            simp only [cached]
            exact ⟨fetches.1, nofun, nofun⟩
      · rw [polled] at fetches
        exact fetches.1.loading (fetches.2 progress rfl)

theorem Keywise.resumeKey (keywise : world.Keywise loads) {key : LoadKey σ}
    (fine : key.source.Keywise (loads key.id)) {progress? : Option (FetchProgress σ)}
    (going : ∀ progress, progress? = some progress → progress.Keywise (loads key.id)) :
    Loaded loads key (World.resumeKey key progress? world) := by
  cases progress? with
  | none => exact keywise.awaitKey fine
  | some progress =>
      have fetches := keywise.resumeFetch (going progress rfl)
      unfold World.resumeKey
      dsimp only
      rcases polled : World.resumeFetch key.id progress world with ⟨answer | progress, left⟩
      · rw [polled] at fetches
        exact fetches.1.awaitKey fine
      · rw [polled] at fetches
        exact fetches.1.loading (fetches.2 progress rfl)

/-- The fetches that are asked for are for the values of their keys. -/
def FlushesKeywise (loads : Loads) (flushes : List (Flush σ)) : Prop :=
  ∀ id progress, (id, some progress) ∈ flushes → progress.Keywise (loads id)

theorem Keywise.pollFlushes {flushes : List (Flush σ)} :
    ∀ {world : World σ}, world.Keywise loads → FlushesKeywise loads flushes →
      (World.pollFlushes flushes world).2.Keywise loads ∧
        FlushesKeywise loads (World.pollFlushes flushes world).1 := by
  induction flushes with
  | nil => exact fun keywise _ => ⟨keywise, fun _ _ mem => absurd mem List.not_mem_nil⟩
  | cons flush rest ih =>
      intro world keywise going
      obtain ⟨id, progress?⟩ := flush
      have first : Fetches loads id (pollFlush (id, progress?) world) := by
        cases progress? with
        | none => exact keywise.beginFetch id
        | some progress => exact keywise.resumeFetch (going id progress List.mem_cons_self)
      obtain ⟨last, others⟩ := ih first.1 fun id progress mem =>
        going id progress (List.mem_cons_of_mem _ mem)
      rw [pollFlushes_cons]
      refine ⟨last, ?_⟩
      cases polled : (pollFlush (id, progress?) world).1 with
      | ready answer => exact others
      | pending progress =>
          intro other left mem
          rcases List.mem_cons.mp mem with same | mem
          · injection same with same same'
            injection same' with same'
            subst same same'
            exact first.2 _ polled
          · exact others other left mem

end World

end GraphExec
