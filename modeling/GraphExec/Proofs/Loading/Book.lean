import GraphExec.Lazy
import GraphExec.Proofs.Fields

/-!
# The book of a source

What happens at a batch source is a list of events: keys are asked for, fetches begin and end, the
cache is cleared. The book that is kept of them knows which keys are due, which have an outcome,
and which are being fetched. A lawful list of events has one fetch at a time, and each fetch takes
exactly the keys that are due.

Main statement: in a lawful list of events a key of a fetch is fetched again by the next fetch
exactly if it was asked for while the first one was in flight.
-/

namespace GraphExec

/-- What happens at a source. -/
inductive SourceEvent where
  /-- A key was asked for. -/
  | asked (key : String)
  /-- A fetch of keys was begun. -/
  | fetched (keys : List String)
  /-- A fetch of keys has ended. -/
  | answered (keys : List String)
  /-- The outcomes were forgotten. -/
  | cleared
deriving DecidableEq, Repr

/-- What is known of a source from its events. -/
structure SourceBook where
  /-- The keys of the next fetch, first asked first. -/
  due : List String
  /-- The keys whose outcome is known. -/
  known : List String
  /-- The keys of the fetch that goes on. -/
  inFlight : Option (List String)
deriving DecidableEq, Repr

namespace SourceBook

/-- The book of a source to which nothing has happened. -/
def blank : SourceBook := ⟨[], [], none⟩

/-- The book after an event. -/
def enter (book : SourceBook) : SourceEvent → SourceBook
  | .asked key => if key ∈ book.known then book else { book with due := addName book.due key }
  | .fetched keys => { book with due := [], inFlight := some keys }
  | .answered keys => { book with known := keys ++ book.known, inFlight := none }
  | .cleared => { book with known := [] }

/-- Whether an event may happen: fetches do not overlap and take what is due. -/
def Admits (book : SourceBook) : SourceEvent → Prop
  | .fetched keys => book.inFlight = none ∧ keys = book.due ∧ keys ≠ []
  | .answered keys => book.inFlight = some keys
  | _ => True

/-- The book after some events. -/
def enterAll (book : SourceBook) (events : List SourceEvent) : SourceBook :=
  events.foldl enter book

/-- Whether events may happen one after another. -/
def Lawful : SourceBook → List SourceEvent → Prop
  | _, [] => True
  | book, event :: rest => book.Admits event ∧ Lawful (book.enter event) rest

theorem enterAll_append (book : SourceBook) (first second : List SourceEvent) :
    book.enterAll (first ++ second) = (book.enterAll first).enterAll second :=
  List.foldl_append

/-- Lawful lists of events are closed under continuation. -/
theorem lawful_append {book : SourceBook} {first second : List SourceEvent} :
    book.Lawful (first ++ second) ↔ book.Lawful first ∧ (book.enterAll first).Lawful second := by
  induction first generalizing book with
  | nil => simp [Lawful, enterAll]
  | cons event rest ih =>
      simp only [List.cons_append, Lawful, ih, enterAll, List.foldl_cons]
      exact and_assoc.symm

end SourceBook

/-- Whether an event is a fetch that begins. -/
def SourceEvent.isFetch : SourceEvent → Bool
  | .fetched _ => true
  | _ => false

namespace SourceBook

/-- Between a fetch that begins and the next event of a fetch, keys are only asked for: what is due
afterwards is what was asked for. -/
theorem due_of_asking {events : List SourceEvent} (book : SourceBook) (key : String)
    (quiet : ∀ event ∈ events, ∃ asked, event = .asked asked) :
    (book.enterAll events).known = book.known ∧
      (book.enterAll events).inFlight = book.inFlight ∧
      (key ∈ (book.enterAll events).due ↔
        key ∈ book.due ∨ (key ∉ book.known ∧ SourceEvent.asked key ∈ events)) := by
  induction events generalizing book with
  | nil => simp [enterAll]
  | cons event rest ih =>
      obtain ⟨asked, rfl⟩ := quiet event List.mem_cons_self
      have tail := ih (book.enter (.asked asked)) fun e he => quiet e (List.mem_cons_of_mem _ he)
      have split : book.enterAll (.asked asked :: rest) =
          (book.enter (.asked asked)).enterAll rest := rfl
      rw [split]
      by_cases present : asked ∈ book.known
      · have same : book.enter (.asked asked) = book := if_pos present
        rw [same] at tail ⊢
        refine ⟨tail.1, tail.2.1, tail.2.2.trans ?_⟩
        constructor
        · rintro (h | ⟨unknown, h⟩)
          · exact .inl h
          · exact .inr ⟨unknown, List.mem_cons_of_mem _ h⟩
        · rintro (h | ⟨unknown, h⟩)
          · exact .inl h
          · rcases List.mem_cons.mp h with h | h
            · injection h with h
              exact absurd (h ▸ present) unknown
            · exact .inr ⟨unknown, h⟩
      · have grown : book.enter (.asked asked) =
            { book with due := addName book.due asked } := if_neg present
        rw [grown] at tail ⊢
        refine ⟨tail.1, tail.2.1, tail.2.2.trans ?_⟩
        simp only [mem_addName, List.mem_cons, SourceEvent.asked.injEq]
        constructor
        · rintro ((h | rfl) | ⟨unknown, h⟩)
          · exact .inl h
          · exact .inr ⟨present, .inl rfl⟩
          · exact .inr ⟨unknown, .inr h⟩
        · rintro (h | ⟨unknown, rfl | h⟩)
          · exact .inl (.inl h)
          · exact .inl (.inr rfl)
          · exact .inr ⟨unknown, h⟩

/-- Of two fetches with no other fetch and no clearing between them, the first has ended before the
second begins, and in the meantime keys are only asked for. -/
theorem lawful_between_fetches {book : SourceBook} {keys next : List String}
    {between rest : List SourceEvent}
    (lawful : book.Lawful (.fetched keys :: between ++ .fetched next :: rest))
    (same : ∀ event ∈ between, event.isFetch = false ∧ event ≠ .cleared) :
    ∃ during after, between = during ++ .answered keys :: after ∧
      (∀ event ∈ during, ∃ asked, event = .asked asked) ∧
      (∀ event ∈ after, ∃ asked, event = .asked asked) := by
  -- Reads the events between the fetches, first while the fetch goes on, then after its end.
  have idle : ∀ {events : List SourceEvent} {book : SourceBook},
      book.inFlight = none → book.Lawful (events ++ .fetched next :: rest) →
      (∀ event ∈ events, event.isFetch = false ∧ event ≠ .cleared) →
      ∀ event ∈ events, ∃ asked, event = .asked asked := by
    intro events
    induction events with
    | nil => intro _ _ _ _ event member; cases member
    | cons head tail ih =>
        intro book free lawful same
        have head_asked : ∃ asked, head = .asked asked := by
          cases head with
          | asked key => exact ⟨key, rfl⟩
          | fetched keys => exact absurd (same _ List.mem_cons_self).1 (by simp [SourceEvent.isFetch])
          | answered keys =>
              have busy : book.inFlight = some keys := lawful.1
              rw [free] at busy
              cases busy
          | cleared => exact absurd rfl (same _ List.mem_cons_self).2
        obtain ⟨asked, rfl⟩ := head_asked
        intro event member
        rcases List.mem_cons.mp member with rfl | member
        · exact ⟨asked, rfl⟩
        · refine @ih (book.enter (.asked asked)) ?_ lawful.2
            (fun e he => same e (List.mem_cons_of_mem _ he)) event member
          simp only [enter]
          split <;> exact free
  have busy : ∀ {events : List SourceEvent} {book : SourceBook},
      book.inFlight = some keys → book.Lawful (events ++ .fetched next :: rest) →
      (∀ event ∈ events, event.isFetch = false ∧ event ≠ .cleared) →
      ∃ during after, events = during ++ .answered keys :: after ∧
        (∀ event ∈ during, ∃ asked, event = .asked asked) ∧
        (∀ event ∈ after, ∃ asked, event = .asked asked) := by
    intro events
    induction events with
    | nil =>
        intro book going lawful _
        have free : book.inFlight = none := lawful.1.1
        rw [going] at free
        cases free
    | cons head tail ih =>
        intro book going lawful same
        have same_tail : ∀ event ∈ tail, event.isFetch = false ∧ event ≠ .cleared :=
          fun e he => same e (List.mem_cons_of_mem _ he)
        cases head with
        | asked key =>
            have still : (book.enter (.asked key)).inFlight = some keys := by
              simp only [enter]
              split <;> exact going
            obtain ⟨during, after, rfl, hduring, hafter⟩ := ih still lawful.2 same_tail
            refine ⟨.asked key :: during, after, rfl, ?_, hafter⟩
            intro event member
            rcases List.mem_cons.mp member with rfl | member
            · exact ⟨key, rfl⟩
            · exact hduring event member
        | fetched other => exact absurd (same _ List.mem_cons_self).1 (by simp [SourceEvent.isFetch])
        | answered other =>
            have own : book.inFlight = some other := lawful.1
            rw [going] at own
            injection own with own
            subst own
            exact ⟨[], tail, rfl, fun _ h => absurd h List.not_mem_nil,
              @idle tail (book.enter (.answered keys)) rfl lawful.2 same_tail⟩
        | cleared => exact absurd rfl (same _ List.mem_cons_self).2
  exact @busy between (book.enter (.fetched keys)) rfl lawful.2 same

/-- A key of a fetch is fetched again by the next one exactly if its outcome was not known when the
first began, and it was asked for while that one was in flight. A key asked for later is known. -/
theorem mem_next_fetch_iff {book : SourceBook} {keys next : List String}
    {during after rest : List SourceEvent}
    (lawful : book.Lawful
      (.fetched keys :: (during ++ .answered keys :: after) ++ .fetched next :: rest))
    (hduring : ∀ event ∈ during, ∃ asked, event = .asked asked)
    (hafter : ∀ event ∈ after, ∃ asked, event = .asked asked) {key : String} (mem : key ∈ keys) :
    key ∈ next ↔ key ∉ book.known ∧ SourceEvent.asked key ∈ during := by
  let begun := book.enter (.fetched keys)
  let ended := (begun.enterAll during).enter (.answered keys)
  have first := due_of_asking begun key hduring
  have second := due_of_asking ended key hafter
  have takes : next = (ended.enterAll after).due := by
    have tail : begun.Lawful ((during ++ .answered keys :: after) ++ .fetched next :: rest) :=
      lawful.2
    have shape : begun.enterAll (during ++ .answered keys :: after) = ended.enterAll after := by
      rw [enterAll_append]
      rfl
    have last := (lawful_append.mp tail).2
    rw [shape] at last
    exact last.1.2.1
  have now_known : key ∈ ended.known := List.mem_append_left _ mem
  rw [takes, second.2.2]
  constructor
  · rintro (h | ⟨absent, _⟩)
    · exact (first.2.2.mp h).resolve_left List.not_mem_nil
    · exact absurd now_known absent
  · exact fun h => .inl (first.2.2.mpr (.inr h))

/-- When a fetch has ended, the outcomes of its keys are known. -/
theorem known_of_ended (book : SourceBook) {keys : List String} (during : List SourceEvent)
    {after : List SourceEvent}
    (hafter : ∀ event ∈ after, ∃ asked, event = .asked asked) {key : String} (mem : key ∈ keys) :
    key ∈ (book.enterAll (.fetched keys :: (during ++ .answered keys :: after))).known := by
  let ended := ((book.enter (.fetched keys)).enterAll during).enter (.answered keys)
  have shape : book.enterAll (.fetched keys :: (during ++ .answered keys :: after)) =
      ended.enterAll after := by
    show (book.enter (.fetched keys)).enterAll (during ++ .answered keys :: after) = _
    rw [enterAll_append]
    rfl
  rw [shape, (due_of_asking ended key hafter).1]
  exact List.mem_append_left _ mem

/-- A key whose outcome is known and that is not due is not fetched until the cache is cleared. -/
theorem not_fetched_of_settled {events rest : List SourceEvent} {book : SourceBook}
    {key : String} {next : List String} (known : key ∈ book.known) (settled : key ∉ book.due)
    (lawful : book.Lawful (events ++ .fetched next :: rest))
    (uncleared : SourceEvent.cleared ∉ events) : key ∉ next := by
  induction events generalizing book with
  | nil =>
      have takes : next = book.due := lawful.1.2.1
      exact takes ▸ settled
  | cons event tail ih =>
      have uncleared_tail : SourceEvent.cleared ∉ tail :=
        fun h => uncleared (List.mem_cons_of_mem _ h)
      refine @ih (book.enter event) ?_ ?_ lawful.2 uncleared_tail
      · cases event with
        | asked other =>
            simp only [enter]
            split <;> exact known
        | fetched keys => exact known
        | answered keys => exact List.mem_append_right _ known
        | cleared => exact absurd List.mem_cons_self uncleared
      · cases event with
        | asked other =>
            simp only [enter]
            split
            · exact settled
            · rename_i absent
              intro h
              rcases mem_addName.mp h with h | h
              · exact settled h
              · exact absent (h ▸ known)
        | fetched keys => exact List.not_mem_nil
        | answered keys => exact settled
        | cleared => exact settled

/-- What brings a key of a fetch into a later one: between the two nothing is fetched, the key is
asked for before the first one ends, and its outcome was not known when that one began. -/
def Refetches (book : SourceBook) (keys : List String) (between : List SourceEvent)
    (key : String) : Prop :=
  ∃ during after, between = during ++ .answered keys :: after ∧
    (∀ event ∈ during, ∃ asked, event = .asked asked) ∧
    (∀ event ∈ after, ∃ asked, event = .asked asked) ∧
    key ∉ book.known ∧ SourceEvent.asked key ∈ during

/-- Until the cache is cleared, the keys of a fetch that come into a later one are those that were
asked for while the first was in flight. -/
theorem mem_later_fetch_iff {book : SourceBook} {keys next : List String}
    {between rest : List SourceEvent}
    (lawful : book.Lawful (.fetched keys :: between ++ .fetched next :: rest))
    (uncleared : SourceEvent.cleared ∉ between) {key : String} (mem : key ∈ keys) :
    key ∈ next ↔ book.Refetches keys between key := by
  by_cases quiet : ∀ event ∈ between, event.isFetch = false
  · have same : ∀ event ∈ between, event.isFetch = false ∧ event ≠ .cleared :=
      fun event h => ⟨quiet event h, fun clear => uncleared (clear ▸ h)⟩
    obtain ⟨during, after, rfl, hduring, hafter⟩ := lawful_between_fetches lawful same
    rw [mem_next_fetch_iff lawful hduring hafter mem]
    constructor
    · exact fun h => ⟨during, after, rfl, hduring, hafter, h⟩
    · rintro ⟨during', after', split, hduring', hafter', h⟩
      have next_mem : key ∈ next :=
        (mem_next_fetch_iff (split ▸ lawful) hduring' hafter' mem).mpr h
      exact (mem_next_fetch_iff lawful hduring hafter mem).mp next_mem
  · -- Another fetch comes first; after it the key is settled.
    have another : (between.find? SourceEvent.isFetch).isSome = true := by
      rw [List.find?_isSome]
      simpa using quiet
    obtain ⟨event, found⟩ := Option.isSome_iff_exists.mp another
    obtain ⟨isFetch, first, second, rfl, before⟩ := List.find?_eq_some_iff_append.mp found
    obtain ⟨middle, rfl⟩ : ∃ middle, event = .fetched middle := by
      cases event with
      | fetched middle => exact ⟨middle, rfl⟩
      | _ => cases isFetch
    have lawful' : book.Lawful
        ((.fetched keys :: first) ++ .fetched middle :: (second ++ .fetched next :: rest)) := by
      simpa using lawful
    have same : ∀ event ∈ first, event.isFetch = false ∧ event ≠ .cleared := by
      intro event h
      refine ⟨by simpa using before event h, ?_⟩
      rintro rfl
      exact uncleared (List.mem_append_left _ h)
    obtain ⟨during, after, rfl, hduring, hafter⟩ := lawful_between_fetches lawful' same
    have settles := (lawful_append.mp lawful').2
    have known := known_of_ended book during hafter mem
    constructor
    · intro h
      refine absurd h (not_fetched_of_settled ?_ List.not_mem_nil settles.2 ?_)
      · exact known
      · exact fun h => uncleared (List.mem_append_right _ (List.mem_cons_of_mem _ h))
    · rintro ⟨during', after', split, hduring', hafter', _⟩
      have inside : SourceEvent.fetched middle ∈ during' ++ .answered keys :: after' :=
        split ▸ List.mem_append_right _ List.mem_cons_self
      rcases List.mem_append.mp inside with h | h
      · obtain ⟨_, h⟩ := hduring' _ h
        cases h
      · rcases List.mem_cons.mp h with h | h
        · cases h
        · obtain ⟨_, h⟩ := hafter' _ h
          cases h

theorem due_nodup_enter {book : SourceBook} (distinct : book.due.Nodup) (event : SourceEvent) :
    (book.enter event).due.Nodup := by
  cases event with
  | asked key =>
      simp only [enter]
      split
      · exact distinct
      · exact nodup_addName distinct key
  | fetched _ => exact List.nodup_nil
  | answered _ => exact distinct
  | cleared => exact distinct

/-- No fetch takes a key twice. -/
theorem fetched_nodup {events : List SourceEvent} {book : SourceBook} {keys : List String}
    (distinct : book.due.Nodup) (lawful : book.Lawful events)
    (mem : SourceEvent.fetched keys ∈ events) : keys.Nodup := by
  induction events generalizing book with
  | nil => cases mem
  | cons event rest ih =>
      rcases List.mem_cons.mp mem with rfl | mem
      · have takes : keys = book.due := lawful.1.2.1
        exact takes ▸ distinct
      · exact ih (due_nodup_enter distinct event) lawful.2 mem

end SourceBook

end GraphExec
