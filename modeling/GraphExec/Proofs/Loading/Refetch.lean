import GraphExec.Proofs.Loading.Polls

/-!
# Keys that are fetched twice

A source fetches a key again, although its cache has not been cleared, exactly if the key was asked
for while the fetch that holds it was in flight: the key is neither due nor known then, so the next
fetch takes it once more.
-/

namespace GraphExec

variable {σ : Type}

namespace Traffic

/-- Whoever uses a source, and in whatever order: no fetch takes a key twice, and until the cache is
cleared the keys of a fetch that come into a later one are those that were asked for while the
first was in flight. -/
theorem fetched_again_iff {watched : SourceId} {traffic : Traffic σ}
    (reached : Reached watched traffic) :
    (∀ keys, SourceEvent.fetched keys ∈ traffic.events → keys.Nodup) ∧
      ∀ (before between rest : List SourceEvent) (keys next : List String),
        traffic.events = before ++ (.fetched keys :: between ++ .fetched next :: rest) →
        SourceEvent.cleared ∉ between →
        ∀ key ∈ keys, (key ∈ next ↔ (SourceBook.blank.enterAll before).Refetches keys between key) := by
  have lawful := reached.tallied.lawful
  refine ⟨fun keys mem => SourceBook.fetched_nodup List.nodup_nil lawful mem, ?_⟩
  intro before between rest keys next history uncleared key mem
  rw [history, SourceBook.lawful_append] at lawful
  exact SourceBook.mem_later_fetch_iff lawful.2 uncleared mem

end Traffic

/-- A source whose fetches answer at the second poll. -/
def slowEcho : BatchSource Unit where
  name := "echo"
  fetch keys := .pause (.done (.ok (keys.map .string)))

/-- A lazy that loads one key. -/
def loadOne : Future Unit :=
  .lazy (.start (.await ⟨⟨0, ""⟩, slowEcho, "k"⟩ fun _ => .done ()))

/-- What happens at the source when two lazies that load the same key are polled in turn. -/
def twoLoads : List SourceEvent :=
  [.asked "k", .fetched ["k"], .asked "k", .answered ["k"], .fetched ["k"]]

namespace Traffic

/-- Polls the future at a place, if there is one. -/
def pollAt (watched : SourceId) (traffic : Traffic σ) (place : Nat) : Traffic σ :=
  match traffic.futures.drop place with
  | [] => traffic
  | future :: after =>
    ⟨(future.poll traffic.world).2,
      traffic.futures.take place ++ (future.poll traffic.world).1.toList ++ after,
      traffic.events ++ future.account watched traffic.world⟩

theorem Reached.pollAt {watched : SourceId} {traffic : Traffic σ}
    (reached : Reached watched traffic) (place : Nat) :
    Reached watched (traffic.pollAt watched place) := by
  unfold Traffic.pollAt
  split
  · exact reached
  · rename_i future after there
    refine reached.move (.poll traffic (traffic.futures.take place) after future ?_)
    rw [← there, List.take_append_drop]

theorem twoLoads_reached : ∃ traffic : Traffic Unit,
    Reached ⟨0, ""⟩ traffic ∧ traffic.events = twoLoads := by
  have started : Reached ⟨0, ""⟩ (start () fun _ state => state) := .start _ _
  have made := (started.move (.make _ loadOne trivial)).move (.make _ loadOne trivial)
  -- The first fetches the key; the second asks for it and waits for its turn. When the first is
  -- done, its place is taken by the second.
  exact ⟨_, (((made.pollAt 0).pollAt 1).pollAt 0).pollAt 0, by decide +kernel⟩

/-- The key of two lazies that are polled in turn is fetched twice. -/
theorem fetched_again_of_two_loads : ∃ traffic : Traffic Unit,
    Reached ⟨0, ""⟩ traffic ∧ traffic.events = twoLoads ∧
      ("k" ∈ ["k"] ↔ (SourceBook.blank.enterAll [.asked "k"]).Refetches ["k"]
        [.asked "k", .answered ["k"]] "k") := by
  obtain ⟨traffic, reached, events⟩ := twoLoads_reached
  exact ⟨traffic, reached, events, (fetched_again_iff reached).2 [.asked "k"]
    [.asked "k", .answered ["k"]] [] ["k"] ["k"] events (by decide) "k" (by decide)⟩

end Traffic

end GraphExec
