import GraphExec.Proofs.Loading.Sources

/-!
# The line at a source

Tickets are numbered in the order in which they are drawn, and served in that order. Whatever is
done at a source, the line is a run of consecutive tickets, and it only ever moves forwards. Whoever
is served either leaves, and the line moves, or has less of its fetch left.
-/

namespace GraphExec

variable {σ α : Type}

namespace Turns

/-- The ticket that is served, or the one that will be served next. -/
def first (turns : Turns) : Nat := turns.serving.getD turns.next

/-- The line is a run of consecutive tickets that ends with the last one that was drawn. -/
def Ordered (turns : Turns) : Prop :=
  turns.first ≤ turns.next ∧
    turns.serving.toList ++ turns.waiting = List.range' turns.first (turns.next - turns.first)

theorem ordered_idle : idle.Ordered := ⟨Nat.le_refl _, rfl⟩

variable {turns : Turns}

theorem Ordered.waiting_eq_nil (ordered : turns.Ordered) (free : turns.serving = none) :
    turns.waiting = [] := by
  have line := ordered.2
  simpa [first, free] using line

theorem Ordered.waiting_eq (ordered : turns.Ordered) {ticket : Nat}
    (served : turns.serving = some ticket) :
    ticket < turns.next ∧
      turns.waiting = List.range' (ticket + 1) (turns.next - (ticket + 1)) := by
  obtain ⟨bound, line⟩ := ordered
  have first_eq : turns.first = ticket := by simp [first, served]
  rw [first_eq] at bound line
  simp only [served, Option.toList_some, List.singleton_append] at line
  obtain ⟨count, more⟩ : ∃ count, turns.next - ticket = count + 1 := by
    cases short : turns.next - ticket with
    | zero => simp [short] at line
    | succ count => exact ⟨count, rfl⟩
  rw [more, List.range'_succ] at line
  have rest : turns.next - (ticket + 1) = count := by omega
  exact ⟨by omega, by rw [rest]; exact (List.cons.inj line).2⟩

/-- A ticket that is drawn joins the end of the line. -/
theorem Ordered.draw (ordered : turns.Ordered) :
    turns.draw.2.Ordered ∧ turns.draw.2.first = turns.first := by
  obtain ⟨serving, waiting, next⟩ := turns
  cases serving with
  | none =>
      have alone := ordered.waiting_eq_nil rfl
      subst alone
      simp [Turns.draw, Ordered, first]
  | some ticket =>
      obtain ⟨bound, line⟩ := ordered.waiting_eq rfl
      simp only at bound line
      subst line
      have more : next + 1 - ticket = (next - (ticket + 1)) + 1 + 1 := by omega
      refine ⟨⟨Nat.le_succ_of_le (Nat.le_of_lt bound), ?_⟩, rfl⟩
      simp only [Turns.draw, first, Option.getD_some, Option.toList_some, List.singleton_append,
        more]
      rw [List.range'_succ, List.range'_concat]
      simp only [Nat.one_mul]
      congr 3
      omega

/-- When the one who is served leaves, the line moves. -/
theorem Ordered.leave (ordered : turns.Ordered) :
    turns.leave.Ordered ∧ turns.first ≤ turns.leave.first ∧
      (turns.serving ≠ none → turns.first < turns.leave.first) := by
  obtain ⟨serving, waiting, next⟩ := turns
  cases serving with
  | none =>
      have alone := ordered.waiting_eq_nil rfl
      subst alone
      simpa [Turns.leave, first] using ordered
  | some ticket =>
      obtain ⟨bound, line⟩ := ordered.waiting_eq rfl
      simp only at bound line
      subst line
      have moved : (Turns.leave ⟨some ticket, List.range' (ticket + 1) (next - (ticket + 1)),
          next⟩).first = ticket + 1 := by
        simp only [Turns.leave, first, List.head?_range']
        split
        · simp only [Option.getD_none]
          omega
        · rfl
      refine ⟨⟨by rw [moved]; exact bound, ?_⟩, ?_⟩
      · rw [moved]
        cases count : next - (ticket + 1) with
        | zero => simp [Turns.leave, count]
        | succ count' => simp [Turns.leave, count, List.range'_succ]
      · rw [moved]
        simp [first]

end Turns

namespace World

/-- The ticket that is served at a source, or the one that will be served next. -/
def first (world : World σ) (id : SourceId) : Nat :=
  ((world.source? id).map (·.turns.first)).getD 0

/-- A source that is in use has its line in order. -/
def InLine (world : World σ) (id : SourceId) : Prop :=
  ∀ state, world.source? id = some state → state.turns.Ordered

/-- From one world to another the line at a source has moved forwards, if at all. -/
def Moves (id : SourceId) (before after : World σ) : Prop :=
  before.InLine id → after.InLine id ∧ before.first id ≤ after.first id

namespace Moves

variable {id : SourceId} {before between after : World σ}

theorem refl (world : World σ) : Moves id world world := fun inLine => ⟨inLine, Nat.le_refl _⟩

theorem trans (first : Moves id before between) (second : Moves id between after) :
    Moves id before after := fun inLine =>
  ⟨(second (first inLine).1).1, Nat.le_trans (first inLine).2 (second (first inLine).1).2⟩

theorem of_source?_eq (same : after.source? id = before.source? id) : Moves id before after := by
  intro inLine
  refine ⟨fun state found => inLine state (same ▸ found), Nat.le_of_eq ?_⟩
  rw [first, first, same]

/-- Only the tickets count. -/
theorem of_turns {f : SourceState σ → SourceState σ} (source : BatchSource σ)
    (turns : ∀ state, (f state).turns = state.turns)
    (here : after.source? id = some (f ((before.source? id).getD (SourceState.new source)))) :
    Moves id before after := by
  intro inLine
  cases found : before.source? id with
  | none =>
      rw [found] at here
      refine ⟨fun state found' => ?_, by simp [first, found]⟩
      obtain rfl := Option.some.inj (here.symm.trans found')
      rw [turns]
      exact Turns.ordered_idle
  | some state =>
      rw [found] at here
      refine ⟨fun state' found' => ?_, ?_⟩
      · obtain rfl := Option.some.inj (here.symm.trans found')
        rw [turns]
        exact inLine state found
      · simp [first, found, here, turns]

end Moves

variable {id : SourceId}

theorem moves_useSource (world : World σ) (other : SourceId) (source : BatchSource σ) :
    Moves id world (world.useSource other source) := by
  by_cases same : id = other
  · subst same
    refine .of_turns (f := fun state => state) source (fun _ => rfl) ?_
    rw [source?_useSource, if_pos rfl]
  · exact .of_source?_eq (by rw [source?_useSource, if_neg same])

theorem moves_request (world : World σ) (key : LoadKey σ) :
    Moves id world (world.request key) := by
  by_cases same : id = key.id
  · subst same
    refine .of_turns (f := fun state => state.request key.key) key.source (fun state => ?_) ?_
    · unfold SourceState.request
      split <;> rfl
    · rw [source?_request, if_pos rfl]
  · exact .of_source?_eq (by rw [source?_request, if_neg same])

theorem moves_clearCache (world : World σ) : Moves id world world.clearCache := by
  intro inLine
  refine ⟨fun state found => ?_, Nat.le_of_eq ?_⟩
  · rw [source?_clearCache, Option.map_eq_some_iff] at found
    obtain ⟨old, found, rfl⟩ := found
    exact inLine old found
  · rw [first, first, source?_clearCache, Option.map_map]
    rfl

/-- When the one who is served at a source leaves, the line moves. -/
theorem moves_leave {world : World σ} {other : SourceId} {f : SourceState σ → SourceState σ}
    (turns : ∀ state, (f state).turns = state.turns.leave) :
    Moves id world (world.modifySource other f) := by
  by_cases same : id = other
  · subst same
    intro inLine
    cases found : world.source? id with
    | none => exact ⟨fun state found' => by simp [found] at found', by simp [first, found]⟩
    | some state =>
        have moved := (inLine state found).leave
        refine ⟨fun state' found' => ?_, by simpa [first, found, turns] using moved.2.1⟩
        simp only [source?_modifySource_self, found, Option.map_some, Option.some.injEq] at found'
        subst found'
        rw [turns]
        exact moved.1
  · exact .of_source?_eq (source?_modifySource_other same f)

theorem moves_runFetch (other : SourceId) (name : String) (keys : List String) (fetch : Fetch σ)
    (world : World σ) : Moves id world (runFetch other name keys fetch world).2 := by
  unfold runFetch
  rcases fetch.poll world.app with ⟨app, outcome | rest⟩
  · have told : Moves id world (({ world with app } : World σ).tell (.endFetch name keys.length)) :=
      .of_source?_eq rfl
    exact told.trans (moves_leave fun _ => rfl)
  · exact .of_source?_eq rfl

theorem moves_serve (other : SourceId) (world : World σ) :
    Moves id world (serve other world).2 := by
  unfold serve
  cases found : world.source? other with
  | none => exact .refl world
  | some state =>
      by_cases empty : state.pending.isEmpty
      · simp only [empty, if_true]
        exact moves_leave fun _ => rfl
      · simp only [empty, if_false, Bool.false_eq_true]
        have taken : Moves id world
            ((world.modifySource other fun state => { state with pending := [] }).tell
              (.beginFetch state.source.name state.pending.length)) := by
          by_cases same : id = other
          · subst same
            refine .of_turns (f := fun state => { state with pending := [] }) state.source
              (fun _ => rfl) ?_
            simp [found]
          · exact .of_source?_eq ((source?_tell _ _ _).trans (source?_modifySource_other same _))
        exact taken.trans (moves_runFetch other _ _ _ _)

theorem moves_beginFetch (other : SourceId) (world : World σ) :
    Moves id world (beginFetch other world).2 := by
  unfold beginFetch
  cases found : world.source? other with
  | none => exact .refl world
  | some state =>
      have drawn : Moves id world
          (world.modifySource other fun s => { s with turns := state.turns.draw.2 }) := by
        by_cases same : id = other
        · subst same
          intro inLine
          have grown := (inLine state found).draw
          refine ⟨fun state' found' => ?_, by simp [first, found, grown.2]⟩
          simp only [source?_modifySource_self, found, Option.map_some, Option.some.injEq] at found'
          exact found' ▸ grown.1
        · exact .of_source?_eq (source?_modifySource_other same _)
      simp only
      split
      · exact drawn.trans (moves_serve other _)
      · exact drawn

theorem moves_resumeFetch (other : SourceId) (progress : FetchProgress σ) (world : World σ) :
    Moves id world (resumeFetch other progress world).2 := by
  cases progress with
  | queued ticket =>
      simp only [resumeFetch]
      split
      · exact .refl world
      · split
        · exact moves_serve other world
        · exact .refl world
  | running keys rest => exact moves_runFetch other _ _ _ _

theorem moves_awaitKey (key : LoadKey σ) (world : World σ) :
    Moves id world (awaitKey key world).2 := by
  unfold awaitKey
  cases cached : world.cached? key.id key.key with
  | some outcome => exact .refl world
  | none =>
      have begun : Moves id world (beginFetch key.id (world.request key)).2 :=
        (moves_request world key).trans (moves_beginFetch key.id (world.request key))
      rcases fetched : beginFetch key.id (world.request key) with ⟨⟨⟨⟩⟩ | progress, after⟩ <;>
        rw [fetched] at begun
      · simp only
        split <;> exact begun
      · exact begun

theorem moves_resumeKey (key : LoadKey σ) (progress? : Option (FetchProgress σ))
    (world : World σ) : Moves id world (resumeKey key progress? world).2 := by
  cases progress? with
  | none => exact moves_awaitKey key world
  | some progress =>
      have resumed : Moves id world (resumeFetch key.id progress world).2 :=
        moves_resumeFetch key.id progress world
      simp only [resumeKey]
      rcases fetched : resumeFetch key.id progress world with ⟨⟨⟨⟩⟩ | progress', after⟩ <;>
        rw [fetched] at resumed
      · exact resumed.trans (moves_awaitKey key after)
      · exact resumed

end World

theorem Action.moves_run {id : SourceId} (action : Action σ α) :
    ∀ world, World.Moves id world (action.run world).2 := by
  induction action with
  | done answer => exact fun world => .refl world
  | read next ih => exact fun world => ih world.app world
  | write state next ih =>
      intro world
      have written : World.Moves id world { world with app := state } := .of_source?_eq rfl
      exact written.trans (ih _)
  | useSource other source next ih =>
      exact fun world => .trans (World.moves_useSource world other source) (ih _)
  | request key next ih => exact fun world => .trans (World.moves_request world key) (ih _)

theorem Lazy.moves_poll {id : SourceId} (lazy : Lazy σ α) :
    ∀ world, World.Moves id world (lazy.poll world).2 := by
  induction lazy with
  | done answer => exact fun world => .refl world
  | read next ih => exact fun world => ih world.app world
  | write state next ih =>
      intro world
      have written : World.Moves id world { world with app := state } := .of_source?_eq rfl
      exact written.trans (ih _)
  | useSource other source next ih =>
      exact fun world => .trans (World.moves_useSource world other source) (ih _)
  | request key next ih => exact fun world => .trans (World.moves_request world key) (ih _)
  | pause next => exact fun world => .refl world
  | await key next ih =>
      intro world
      have awaited : World.Moves id world (World.awaitKey key world).2 :=
        World.moves_awaitKey key world
      unfold poll
      rcases polled : World.awaitKey key world with ⟨outcome | progress?, after⟩ <;>
        rw [polled] at awaited
      · exact awaited.trans (ih outcome after)
      · exact awaited

theorem Pending.moves_poll {id : SourceId} (rest : Pending σ α) (world : World σ) :
    World.Moves id world (rest.poll world).2 := by
  cases rest with
  | start lazy => exact lazy.moves_poll world
  | waiting key progress? next =>
      have resumed : World.Moves id world (World.resumeKey key progress? world).2 :=
        World.moves_resumeKey key progress? world
      simp only [poll]
      rcases polled : World.resumeKey key progress? world with ⟨outcome | progress', after⟩ <;>
        rw [polled] at resumed
      · exact resumed.trans ((next outcome).moves_poll after)
      · exact resumed

/-! ### Whoever is served gets on -/

/-- What may be left of a fetch that has paused. -/
inductive Fetch.Leaves : Fetch σ → Fetch σ → Prop where
  | pause (next : Fetch σ) : Leaves next (.pause next)
  | read {next : σ → Fetch σ} {rest : Fetch σ} (state : σ) (after : Leaves rest (next state)) :
    Leaves rest (.read next)
  | write {state : σ} {next rest : Fetch σ} (after : Leaves rest next) :
    Leaves rest (.write state next)

/-- A fetch pauses finitely often. -/
theorem Fetch.leaves_wellFounded : WellFounded (Leaves (σ := σ)) := by
  refine ⟨fun fetch => ?_⟩
  induction fetch with
  | done outcome => exact ⟨_, nofun⟩
  | read next ih =>
      refine ⟨_, fun rest left => ?_⟩
      rcases left with _ | @⟨_, _, state, after⟩
      exact (ih state).inv after
  | write state next ih =>
      refine ⟨_, fun rest left => ?_⟩
      rcases left with _ | _ | ⟨after⟩
      exact ih.inv after
  | pause next ih =>
      refine ⟨_, fun rest left => ?_⟩
      rcases left with _ | _ | _
      exact ih

theorem Fetch.leaves_poll (fetch : Fetch σ) : ∀ {app after : σ} {rest : Fetch σ},
    fetch.poll app = (after, .pending rest) → rest.Leaves fetch := by
  induction fetch with
  | done outcome => exact fun polled => absurd (congrArg Prod.snd polled) nofun
  | read next ih => exact fun {app _ _} polled => .read app (ih app polled)
  | write state next ih => exact fun polled => .write (ih polled)
  | pause next =>
      intro app after rest polled
      obtain ⟨-, same⟩ := Prod.mk.inj polled
      injection same with same
      exact same ▸ .pause next

/-- How a fetch that was called gets on: it is begun, and then less and less of it is left. -/
inductive FetchProgress.Later : FetchProgress σ → FetchProgress σ → Prop where
  | begun (ticket : Nat) (keys : List String) (rest : Fetch σ) :
    Later (.running keys rest) (.queued ticket)
  | left {keys : List String} {rest fetch : Fetch σ} (after : rest.Leaves fetch) :
    Later (.running keys rest) (.running keys fetch)

theorem FetchProgress.later_wellFounded : WellFounded (Later (σ := σ)) := by
  have running : ∀ keys (fetch : Fetch σ), Acc Later (.running keys fetch) := by
    intro keys fetch
    induction Fetch.leaves_wellFounded.apply fetch with
    | intro fetch _ ih =>
        refine ⟨_, fun progress later => ?_⟩
        cases later with
        | left after => exact ih _ after
  refine ⟨fun progress => ?_⟩
  cases progress with
  | running keys rest => exact running keys rest
  | queued ticket =>
      refine ⟨_, fun progress later => ?_⟩
      cases later with
      | begun ticket keys rest => exact running keys rest

namespace World

variable {id : SourceId} {world : World σ}

/-- Whether somebody is served at a source. -/
def Busy (world : World σ) (id : SourceId) : Prop :=
  ∃ state, world.source? id = some state ∧ state.turns.serving ≠ none

/-- When the one who is served leaves, the line has moved. -/
theorem first_lt_of_leave {f : SourceState σ → SourceState σ}
    (turns : ∀ state, (f state).turns = state.turns.leave) (inLine : world.InLine id)
    (busy : world.Busy id) : world.first id < (world.modifySource id f).first id := by
  obtain ⟨state, found, serving⟩ := busy
  simpa [first, found, turns] using (inLine state found).leave.2.2 serving

/-- A fetch in flight ends, and the line moves, or less of it is left. -/
theorem runFetch_gets_on (name : String) (keys : List String) (fetch : Fetch σ)
    (inLine : world.InLine id) (busy : world.Busy id) :
    match runFetch id name keys fetch world with
    | (.ready (), after) => world.first id < after.first id
    | (.pending progress, _) => ∃ rest, progress = .running keys rest ∧ rest.Leaves fetch := by
  unfold runFetch
  rcases polled : fetch.poll world.app with ⟨app, outcome | rest⟩
  · have inLine' : (({ world with app } : World σ).tell (.endFetch name keys.length)).InLine id :=
      inLine
    exact first_lt_of_leave (fun _ => rfl) inLine' busy
  · exact ⟨rest, rfl, fetch.leaves_poll polled⟩

/-- Whoever is served and fetches what is due leaves, or its fetch is begun. -/
theorem serve_gets_on (inLine : world.InLine id) (busy : world.Busy id) :
    match serve id world with
    | (.ready (), after) => world.first id < after.first id
    | (.pending progress, _) => ∃ keys rest, progress = .running keys rest := by
  have ⟨state, found, serving⟩ := busy
  unfold serve
  simp only [found]
  by_cases empty : state.pending.isEmpty
  · simp only [empty, if_true]
    exact first_lt_of_leave (fun _ => rfl) inLine busy
  · simp only [empty, if_false, Bool.false_eq_true]
    have taken : ((world.modifySource id fun state => { state with pending := [] }).tell
        (.beginFetch state.source.name state.pending.length)).source? id =
        some { state with pending := [] } := by simp [found]
    have first_eq : ((world.modifySource id fun state => { state with pending := [] }).tell
        (.beginFetch state.source.name state.pending.length)).first id = world.first id := by
      simp [first, found]
    have goes := runFetch_gets_on state.source.name state.pending
      (state.source.fetch state.pending)
      (fun state' found' => Option.some.inj (taken.symm.trans found') ▸ inLine state found)
      ⟨_, taken, serving⟩
    rw [first_eq] at goes
    split <;> rename_i fetched <;> simp only [fetched] at goes
    · exact goes
    · obtain ⟨rest, rfl, -⟩ := goes
      exact ⟨_, rest, rfl⟩

/-- Whoever is served at a source and goes on with its fetch leaves, and the line moves, or has got
on. -/
theorem resumeFetch_gets_on {progress : FetchProgress σ} (inLine : world.InLine id)
    (busy : world.Busy id)
    (served : ∀ ticket, progress = .queued ticket → world.isServed id ticket = true) :
    match resumeFetch id progress world with
    | (.ready (), after) => world.first id < after.first id
    | (.pending left, _) => left.Later progress := by
  cases progress with
  | running keys fetch =>
      have goes := runFetch_gets_on (((world.source? id).map (·.source.name)).getD "") keys fetch
        inLine busy
      unfold resumeFetch
      split <;> rename_i fetched <;> simp only [fetched] at goes
      · exact goes
      · obtain ⟨rest, rfl, left⟩ := goes
        exact .left left
  | queued ticket =>
      have called := served ticket rfl
      have goes := serve_gets_on inLine busy
      have ⟨state, found, _⟩ := busy
      simp only [isServed, found, Option.any_some, decide_eq_true_eq] at called
      simp only [resumeFetch, found, called, if_true]
      split <;> rename_i fetched <;> simp only [fetched] at goes
      · exact goes
      · obtain ⟨keys, rest, rfl⟩ := goes
        exact .begun ticket keys rest

end World

end GraphExec
