import GraphExec.Proofs.Loading.Sources
import GraphExec.Proofs.Loading.Traffic

/-!
# The tally of a source

What the events say of a source, what its state says, and what the futures that use it hold are
kept in step by every poll. Tickets are held by one future each, and only the future whose ticket
is served can have a fetch in flight.
-/

namespace GraphExec

variable {σ α : Type}

/-- What is left of something that has been polled. -/
def Polled.left {β : Type} : Polled α β → Option β
  | ready _ => none
  | pending rest => some rest

/-- A ticket that is drawn while none is served is served. -/
theorem Turns.served_draw {turns : Turns} (nobody : turns.serving = none) :
    turns.draw.2.serving = some turns.draw.1 := by
  simp only [Turns.draw, nobody]

/-- How the tickets of a source, what futures hold of it and the fetch in flight hang together. -/
inductive Seating : Turns → List (FetchProgress σ) → Option (List String) → Prop where
  /-- Nobody is served and nobody waits. -/
  | idle (next : Nat) : Seating ⟨none, [], next⟩ [] none
  /-- The future whose ticket is served has not been polled since. -/
  | called {ticket next : Nat} {waiting : List Nat} {held : List (FetchProgress σ)}
      (distinct : (ticket :: waiting).Nodup) (drawn : ∀ t ∈ ticket :: waiting, t < next)
      (seats : held.Perm ((ticket :: waiting).map .queued)) :
      Seating ⟨some ticket, waiting, next⟩ held none
  /-- The future whose ticket is served has a fetch in flight. -/
  | serving {ticket next : Nat} {waiting : List Nat} {held : List (FetchProgress σ)}
      {keys : List String} (rest : Fetch σ)
      (distinct : (ticket :: waiting).Nodup) (drawn : ∀ t ∈ ticket :: waiting, t < next)
      (seats : held.Perm (.running keys rest :: waiting.map .queued)) :
      Seating ⟨some ticket, waiting, next⟩ held (some keys)

namespace Seating

/-- When a fetch ends, the next ticket is called. -/
theorem leave {ticket next : Nat} {waiting : List Nat} {held : List (FetchProgress σ)}
    (distinct : (ticket :: waiting).Nodup) (drawn : ∀ t ∈ ticket :: waiting, t < next)
    (seats : held.Perm (waiting.map .queued)) :
    Seating (Turns.leave ⟨some ticket, waiting, next⟩) held none := by
  cases waiting with
  | nil =>
      have empty : held = [] := List.perm_nil.mp seats
      subst empty
      exact .idle next
  | cons first others =>
      exact .called (List.nodup_cons.mp distinct).2
        (fun t ht => drawn t (List.mem_cons_of_mem _ ht)) seats

/-- Whoever holds the ticket that is served is the first in the seating. -/
theorem called_of_queued {turns : Turns} {ticket : Nat} {others : List (FetchProgress σ)}
    {inFlight : Option (List String)} (seating : Seating turns (.queued ticket :: others) inFlight)
    (served : turns.serving = some ticket) :
    inFlight = none ∧ ∃ waiting next, turns = ⟨some ticket, waiting, next⟩ ∧
      (ticket :: waiting).Nodup ∧ (∀ t ∈ ticket :: waiting, t < next) ∧
      others.Perm (waiting.map .queued) := by
  cases seating with
  | called distinct drawn seats =>
      injection served with served
      subst served
      exact ⟨rfl, _, _, rfl, distinct, drawn, List.Perm.cons_inv seats⟩
  | serving rest distinct drawn seats =>
      injection served with served
      subst served
      have mem := seats.subset List.mem_cons_self
      simp only [List.mem_cons, reduceCtorEq, List.mem_map, FetchProgress.queued.injEq,
        exists_eq_right, false_or] at mem
      exact absurd mem (List.nodup_cons.mp distinct).1

/-- Whoever has a fetch in flight is the one that is served. -/
theorem serving_of_running {turns : Turns} {keys : List String} {rest : Fetch σ}
    {others : List (FetchProgress σ)} {inFlight : Option (List String)}
    (seating : Seating turns (.running keys rest :: others) inFlight) :
    inFlight = some keys ∧ ∃ ticket waiting next, turns = ⟨some ticket, waiting, next⟩ ∧
      (ticket :: waiting).Nodup ∧ (∀ t ∈ ticket :: waiting, t < next) ∧
      others.Perm (waiting.map .queued) := by
  cases seating with
  | called distinct drawn seats =>
      have mem := seats.subset List.mem_cons_self
      simp at mem
  | serving rest distinct drawn seats =>
      have mem := seats.subset List.mem_cons_self
      simp only [List.mem_cons, FetchProgress.running.injEq, List.mem_map, reduceCtorEq,
        and_false, exists_false, or_false] at mem
      obtain ⟨rfl, rfl⟩ := mem
      exact ⟨rfl, _, _, _, rfl, distinct, drawn, List.Perm.cons_inv seats⟩

/-- The ticket that is served has been drawn. -/
theorem serving_lt {turns : Turns} {held : List (FetchProgress σ)}
    {inFlight : Option (List String)} (seating : Seating turns held inFlight) {ticket : Nat}
    (served : turns.serving = some ticket) : ticket < turns.next := by
  cases seating with
  | idle next => cases served
  | called distinct drawn seats | serving rest distinct drawn seats =>
      injection served with served
      exact drawn ticket (served ▸ List.mem_cons_self)

/-- A ticket that is drawn while another one is served is not. -/
theorem not_served_draw {turns : Turns} {held : List (FetchProgress σ)}
    {inFlight : Option (List String)} (seating : Seating turns held inFlight) {ticket : Nat}
    (served : turns.serving = some ticket) : turns.draw.2.serving ≠ some turns.draw.1 := by
  have older : ticket < turns.next := seating.serving_lt served
  simp only [Turns.draw, served]
  intro same
  injection same with same
  omega

/-- Drawing a ticket adds a seat at the end. -/
theorem draw {turns : Turns} {held : List (FetchProgress σ)} {inFlight : Option (List String)}
    (seating : Seating turns held inFlight) :
    Seating turns.draw.2 (.queued turns.draw.1 :: held) inFlight := by
  -- The new ticket is greater than all that have been drawn.
  have grown : ∀ {ticket next : Nat} {waiting : List Nat}, (ticket :: waiting).Nodup →
      (∀ t ∈ ticket :: waiting, t < next) →
      (ticket :: (waiting ++ [next])).Nodup ∧ ∀ t ∈ ticket :: (waiting ++ [next]), t < next + 1 := by
    intro ticket next waiting distinct drawn
    constructor
    · rw [← List.cons_append, List.nodup_append]
      refine ⟨distinct, by simp, ?_⟩
      intro t ht other hother same
      rw [List.mem_singleton] at hother
      exact absurd (drawn t ht) (by omega)
    · intro t ht
      rw [← List.cons_append, List.mem_append, List.mem_singleton] at ht
      rcases ht with ht | ht
      · exact Nat.lt_succ_of_lt (drawn t ht)
      · omega
  have behind : ∀ (next : Nat) {held seats : List (FetchProgress σ)}, held.Perm seats →
      (.queued next :: held).Perm (seats ++ [.queued next]) :=
    fun next _ _ same => (same.cons _).trans (List.perm_append_singleton _ _).symm
  cases seating with
  | idle next => exact .called (by simp) (by simp) (List.Perm.refl _)
  | @called ticket next _ _ distinct drawn seats =>
      obtain ⟨distinct', drawn'⟩ := grown distinct drawn
      refine .called distinct' drawn' ?_
      simpa [Turns.draw] using behind next seats
  | @serving ticket next _ _ _ rest distinct drawn seats =>
      obtain ⟨distinct', drawn'⟩ := grown distinct drawn
      refine .serving rest distinct' drawn' ?_
      simpa [Turns.draw] using behind next seats

/-- The order of the futures does not matter. -/
theorem held_perm {turns : Turns} {held other : List (FetchProgress σ)}
    {inFlight : Option (List String)} (same : held.Perm other)
    (seating : Seating turns held inFlight) : Seating turns other inFlight := by
  cases seating with
  | idle next =>
      have empty : other = [] := List.nil_perm.mp same
      subst empty
      exact .idle next
  | called distinct drawn seats => exact .called distinct drawn (same.symm.trans seats)
  | serving rest distinct drawn seats => exact .serving rest distinct drawn (same.symm.trans seats)

end Seating

/-- What the events say of a source, what its state says and what futures hold of it agree. -/
def Tally (watched : SourceId) (world : World σ) (held : List (FetchProgress σ))
    (book : SourceBook) : Prop :=
  match world.source? watched with
  | none => held = [] ∧ book = SourceBook.blank
  | some state =>
    state.pending = book.due ∧ (∀ key, Fields.has state.results key = true ↔ key ∈ book.known) ∧
      Seating state.turns held book.inFlight

namespace Tally

variable {watched : SourceId} {world : World σ} {held : List (FetchProgress σ)}
  {book : SourceBook}

/-- Only the state of the source counts. -/
theorem of_source?_eq {other : World σ} (same : other.source? watched = world.source? watched)
    (tally : Tally watched world held book) : Tally watched other held book := by
  unfold Tally at tally ⊢
  rw [same]
  exact tally

theorem of_some {state : SourceState σ} (found : world.source? watched = some state)
    (tally : Tally watched world held book) :
    state.pending = book.due ∧ (∀ key, Fields.has state.results key = true ↔ key ∈ book.known) ∧
      Seating state.turns held book.inFlight := by
  unfold Tally at tally
  rw [found] at tally
  exact tally

/-- Nobody waits for a fetch of a source that is not in use, and nothing has happened there. -/
theorem of_none (found : world.source? watched = none) (tally : Tally watched world held book) :
    held = [] ∧ book = SourceBook.blank := by
  unfold Tally at tally
  rwa [found] at tally

/-- Where somebody waits for a fetch, the source is in use. -/
theorem in_use {progress : FetchProgress σ} (tally : Tally watched world held book)
    (mem : progress ∈ held) :
    ∃ state, world.source? watched = some state ∧ Seating state.turns held book.inFlight := by
  cases found : world.source? watched with
  | none => exact absurd mem ((tally.of_none found).1 ▸ List.not_mem_nil)
  | some state => exact ⟨state, rfl, (tally.of_some found).2.2⟩

theorem mk_some (state : SourceState σ) (found : world.source? watched = some state)
    (due : state.pending = book.due)
    (known : ∀ key, Fields.has state.results key = true ↔ key ∈ book.known)
    (seating : Seating state.turns held book.inFlight) : Tally watched world held book := by
  unfold Tally
  rw [found]
  exact ⟨due, known, seating⟩

theorem held_perm {other : List (FetchProgress σ)} (same : held.Perm other)
    (tally : Tally watched world held book) : Tally watched world other book := by
  cases found : world.source? watched with
  | none =>
      obtain ⟨rfl, blank⟩ := tally.of_none found
      rw [List.nil_perm.mp same]
      exact tally
  | some state =>
      obtain ⟨due, known, seating⟩ := tally.of_some found
      exact mk_some state found due known (seating.held_perm same)

/-- A source that is new is in the same state as one that is not in use. -/
theorem of_getD (tally : Tally watched world held book) (source : BatchSource σ) :
    ∃ state, (world.source? watched).getD (SourceState.new source) = state ∧
      state.pending = book.due ∧ (∀ key, Fields.has state.results key = true ↔ key ∈ book.known) ∧
      Seating state.turns held book.inFlight := by
  cases found : world.source? watched with
  | none =>
      obtain ⟨rfl, rfl⟩ := tally.of_none found
      exact ⟨_, rfl, rfl, fun key => by simp [SourceState.new, SourceBook.blank], .idle 0⟩
  | some state => exact ⟨state, rfl, of_some found tally⟩

theorem useSource (tally : Tally watched world held book) (id : SourceId)
    (source : BatchSource σ) : Tally watched (world.useSource id source) held book := by
  by_cases same : watched = id
  · subst same
    obtain ⟨state, found, due, known, seating⟩ := tally.of_getD source
    refine mk_some state ?_ due known seating
    rw [World.source?_useSource, if_pos rfl, found]
  · refine of_source?_eq ?_ tally
    rw [World.source?_useSource, if_neg same]

theorem request (tally : Tally watched world held book) (key : LoadKey σ) :
    Tally watched (world.request key) held
      (book.enterAll (seenFrom watched key.id [.asked key.key])) := by
  by_cases same : watched = key.id
  · subst same
    obtain ⟨state, found, due, known, seating⟩ := tally.of_getD key.source
    have here : (world.request key).source? key.id = some (state.request key.key) := by
      rw [World.source?_request, if_pos rfl, found]
    have seen : book.enterAll (seenFrom key.id key.id [.asked key.key]) =
        book.enter (.asked key.key) := by simp [seenFrom, SourceBook.enterAll]
    rw [seen]
    unfold SourceBook.enter
    by_cases cached : key.key ∈ book.known
    · have unchanged : state.request key.key = state := if_pos ((known _).mpr cached)
      rw [unchanged] at here
      simp only [cached, if_true]
      exact mk_some _ here due known seating
    · have grown : state.request key.key =
          { state with pending := addName state.pending key.key } :=
        if_neg fun h => cached ((known _).mp h)
      rw [grown] at here
      simp only [cached, if_false]
      exact mk_some _ here (by simp [due]) known seating
  · have aside : seenFrom watched key.id [SourceEvent.asked key.key] = [] :=
      if_neg fun h => same h.symm
    rw [aside]
    refine of_source?_eq ?_ tally
    rw [World.source?_request, if_neg same]

theorem clear (tally : Tally watched world held book) :
    Tally watched world.clearCache held (book.enter .cleared) := by
  unfold Tally at tally ⊢
  rw [World.source?_clearCache]
  cases found : world.source? watched with
  | none =>
      rw [found] at tally
      obtain ⟨rfl, rfl⟩ := tally
      exact ⟨rfl, rfl⟩
  | some state =>
      rw [found] at tally
      exact ⟨tally.1, fun key => by simp [SourceBook.enter], tally.2.2⟩

end Tally

end GraphExec
