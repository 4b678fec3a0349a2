import GraphExec.Lazy
import GraphExec.Proofs.Fields

/-!
# Sources of a world

What the operations of the loader do to the state of one source, and that they leave the others as
they are.
-/

namespace GraphExec

namespace SourceState

variable {σ : Type}

/-- A fetch says something about exactly the keys that it was made for. -/
theorem keys_outcomes (name : String) (keys : List String)
    (outcome : Except ExecutionError (List Value)) :
    (outcomes name keys outcome).map (·.1) = keys := by
  unfold outcomes
  cases outcome with
  | error error => simp [Function.comp_def]
  | ok values =>
      by_cases same : values.length = keys.length
      · simp [same, List.map_fst_zip]
      · simp [same, Function.comp_def]

/-- After a fetch the outcomes of its keys are known, and those that were known before. -/
theorem has_record (state : SourceState σ) (keys : List String)
    (outcome : Except ExecutionError (List Value)) (key : String) :
    Fields.has (state.record keys outcome).results key = true ↔
      key ∈ keys ∨ Fields.has state.results key = true := by
  have fold : ∀ (entries : List (String × LoadOutcome)) (results : Fields LoadOutcome),
      Fields.has (entries.foldl (fun results entry => Fields.insert results entry.1 entry.2) results)
        key = true ↔ key ∈ entries.map (·.1) ∨ Fields.has results key = true := by
    intro entries
    induction entries with
    | nil => simp
    | cons entry rest ih =>
        intro results
        rw [List.foldl_cons, ih, Fields.has_insert]
        simp only [List.map_cons, List.mem_cons]
        constructor
        · rintro (h | h | h)
          · exact .inl (.inr h)
          · exact .inl (.inl h)
          · exact .inr h
        · rintro ((h | h) | h)
          · exact .inr (.inl h)
          · exact .inl h
          · exact .inr (.inr h)
  unfold record
  rw [fold, keys_outcomes]

end SourceState

namespace World

variable {σ : Type}

@[simp] theorem source?_app (world : World σ) (app : σ) (id : SourceId) :
    ({ world with app } : World σ).source? id = world.source? id := rfl

@[simp] theorem source?_tell (world : World σ) (event : Event) (id : SourceId) :
    (world.tell event).source? id = world.source? id := rfl

theorem source?_modifySource (world : World σ) (id other : SourceId)
    (f : SourceState σ → SourceState σ) :
    (world.modifySource id f).source? other =
      if other = id then (world.source? other).map f else world.source? other := by
  unfold source? modifySource
  generalize world.sources = sources
  induction sources with
  | nil => simp
  | cons entry rest ih =>
      by_cases here : entry.1 = other
      · subst here
        by_cases same : entry.1 = id
        · simp [same]
        · simp [same]
      · have there : (if entry.1 = id then (id, f entry.2) else entry).1 ≠ other := by
          split
          · rename_i same
            exact same ▸ here
          · exact here
        simp only [List.map_cons, List.find?_cons, there, here, decide_false]
        exact ih

@[simp] theorem source?_modifySource_self (world : World σ) (id : SourceId)
    (f : SourceState σ → SourceState σ) :
    (world.modifySource id f).source? id = (world.source? id).map f := by
  rw [source?_modifySource, if_pos rfl]

theorem source?_modifySource_other {world : World σ} {id other : SourceId}
    (differs : other ≠ id) (f : SourceState σ → SourceState σ) :
    (world.modifySource id f).source? other = world.source? other := by
  rw [source?_modifySource, if_neg differs]

theorem source?_useSource (world : World σ) (id other : SourceId) (source : BatchSource σ) :
    (world.useSource id source).source? other =
      if other = id then some ((world.source? id).getD (SourceState.new source))
      else world.source? other := by
  unfold useSource
  by_cases same : other = id
  · subst same
    cases found : world.source? other with
    | some state => simp [found]
    | none =>
        simp only [source?, Option.map_eq_none_iff] at found
        simp [source?, List.find?_append, found]
  · cases found : world.source? id with
    | some state => simp [same]
    | none =>
        have aside : ¬ id = other := fun h => same h.symm
        simp [source?, List.find?_append, same, aside]

theorem source?_request (world : World σ) (key : LoadKey σ) (other : SourceId) :
    (world.request key).source? other =
      if other = key.id then
        some (((world.source? key.id).getD (SourceState.new key.source)).request key.key)
      else world.source? other := by
  unfold request
  rw [source?_modifySource, source?_useSource]
  by_cases same : other = key.id
  · simp [same]
  · simp [same]

theorem source?_clearCache (world : World σ) (id : SourceId) :
    world.clearCache.source? id =
      (world.source? id).map fun state => { state with results := [] } := by
  unfold source? clearCache
  generalize world.sources = sources
  induction sources with
  | nil => rfl
  | cons entry rest ih =>
      by_cases here : entry.1 = id
      · simp [here]
      · simp only [List.map_cons, List.find?_cons, here, decide_false]
        exact ih

/-! ### Fetches for a bucket -/

/-- The next poll of a fetch that has been asked for. -/
def pollFlush : Flush σ → StateM (World σ) (Polled Unit (FetchProgress σ))
  | (id, none) => beginFetch id
  | (id, some progress) => resumeFetch id progress

/-- The first fetch is polled, and then the others. -/
theorem pollFlushes_cons (flush : Flush σ) (rest : List (Flush σ)) (world : World σ) :
    pollFlushes (flush :: rest) world =
      (match (pollFlush flush world).1 with
        | .ready () => (pollFlushes rest (pollFlush flush world).2).1
        | .pending progress =>
          (flush.1, some progress) :: (pollFlushes rest (pollFlush flush world).2).1,
        (pollFlushes rest (pollFlush flush world).2).2) := by
  obtain ⟨id, progress?⟩ := flush
  have both : ∀ first : StateM (World σ) (Polled Unit (FetchProgress σ)),
      (do
        let polled ← first
        let others ← pollFlushes rest
        match polled with
        | .ready () => return others
        | .pending progress => return (id, some progress) :: others :
          StateM (World σ) (List (Flush σ))) world =
      (match (first world).1 with
        | .ready () => (pollFlushes rest (first world).2).1
        | .pending progress => (id, some progress) :: (pollFlushes rest (first world).2).1,
        (pollFlushes rest (first world).2).2) := by
    intro first
    show StateT.bind first _ world = _
    unfold StateT.bind
    rcases first world with ⟨answer | progress, left⟩ <;> rfl
  cases progress? with
  | none => exact both (beginFetch id)
  | some progress => exact both (resumeFetch id progress)

end World

end GraphExec
