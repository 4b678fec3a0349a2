import GraphExec.Proofs.Run.Buckets

/-!
# The part of a run in the buckets

Of the steps that are parked in a schedule, those of one run stand at the same depths and in the same
order as if no other run had parked any. So the bucket that is taken up next holds the bucket that
the run alone would take up next, or nothing of it.
-/

namespace GraphExec

variable {σ : Type}

/-- A parked step, as one of a run that is by itself. -/
def ParkedStep.alone (parked : ParkedStep σ) : ParkedStep σ := { parked with owner := 0 }

namespace Buckets

variable {owner : Nat}

/-- The steps of a run in a bucket. -/
def partOf (owner : Nat) (bucket : List (ParkedStep σ)) : List (ParkedStep σ) :=
  (bucket.filter fun parked => parked.owner = owner).map ParkedStep.alone

/-- A bucket, unless it is empty. -/
def shelve (depth : Nat) : List (ParkedStep σ) → Buckets σ
  | [] => []
  | parked :: rest => [(depth, parked :: rest)]

/-- The buckets of a run. -/
def part (owner : Nat) (buckets : Buckets σ) : Buckets σ :=
  buckets.flatMap fun entry => shelve entry.1 (partOf owner entry.2)

theorem part_cons (owner : Nat) (entry : Nat × List (ParkedStep σ)) (rest : Buckets σ) :
    part owner (entry :: rest) = shelve entry.1 (partOf owner entry.2) ++ part owner rest := rfl

theorem partOf_append (owner : Nat) (front back : List (ParkedStep σ)) :
    partOf owner (front ++ back) = partOf owner front ++ partOf owner back := by
  unfold partOf
  rw [List.filter_append, List.map_append]

theorem partOf_own {parked : ParkedStep σ} (own : parked.owner = owner) :
    partOf owner [parked] = [parked.alone] := by
  simp [partOf, own]

theorem partOf_other {parked : ParkedStep σ} (other : parked.owner ≠ owner) :
    partOf owner [parked] = [] := by
  simp [partOf, other]

/-- The part of a run that is by itself is all there is. -/
theorem partOf_partOf (owner : Nat) (bucket : List (ParkedStep σ)) :
    partOf 0 (partOf owner bucket) = partOf owner bucket := by
  induction bucket with
  | nil => rfl
  | cons parked rest ih =>
      rw [← List.singleton_append, partOf_append, partOf_append, ih]
      by_cases own : parked.owner = owner
      · have alone : parked.alone.owner = 0 := rfl
        rw [partOf_own own, partOf_own alone]
        rfl
      · rw [partOf_other own]
        rfl

theorem mem_shelve {depth : Nat} {bucket : List (ParkedStep σ)} {entry : Nat × List (ParkedStep σ)}
    (mem : entry ∈ shelve depth bucket) : entry.1 = depth := by
  cases bucket with
  | nil => cases mem
  | cons parked rest => rw [List.mem_singleton.mp mem]

/-- The buckets of a run are no deeper than those that they are parts of. -/
theorem depth_of_mem_part {buckets : Buckets σ} {entry : Nat × List (ParkedStep σ)}
    (mem : entry ∈ buckets.part owner) : ∃ other ∈ buckets, other.1 = entry.1 := by
  obtain ⟨other, there, within⟩ := List.mem_flatMap.mp mem
  exact ⟨other, there, (mem_shelve within).symm⟩

/-- A step that is parked above all others makes a bucket of its own. -/
theorem park_above {buckets : Buckets σ} {depth : Nat} (parked : ParkedStep σ)
    (deeper : ∀ entry ∈ buckets, depth < entry.1) :
    buckets.park depth parked = (depth, [parked]) :: buckets := by
  cases buckets with
  | nil => rfl
  | cons entry rest =>
      unfold park
      rw [if_pos (deeper entry List.mem_cons_self)]

theorem part_park_other (buckets : Buckets σ) (depth : Nat) {parked : ParkedStep σ}
    (other : parked.owner ≠ owner) : (buckets.park depth parked).part owner = buckets.part owner := by
  induction buckets with
  | nil =>
      show shelve depth (partOf owner [parked]) ++ [] = []
      rw [partOf_other other]
      rfl
  | cons entry rest ih =>
      unfold park
      split
      · rw [part_cons, partOf_other other]
        rfl
      · split
        · rw [part_cons, part_cons, partOf_append, partOf_other other, List.append_nil]
        · rw [part_cons, part_cons, ih]

/-- Parking a step of a run parks it in the buckets of the run. -/
theorem Ordered.part_park {buckets : Buckets σ} (ordered : buckets.Ordered) (depth : Nat)
    {parked : ParkedStep σ} (own : parked.owner = owner) :
    (buckets.park depth parked).part owner = (buckets.part owner).park depth parked.alone := by
  induction buckets with
  | nil =>
      show shelve depth (partOf owner [parked]) ++ [] = [(depth, [parked.alone])]
      rw [partOf_own own]
      rfl
  | cons entry rest ih =>
      obtain ⟨above, behind⟩ := List.pairwise_cons.mp ordered
      obtain ⟨d, bucket⟩ := entry
      have rest_deeper {bound : Nat} (less : bound ≤ d) :
          ∀ other ∈ part owner rest, bound < other.1 := by
        intro other mem
        obtain ⟨one, there, same⟩ := depth_of_mem_part mem
        have deeper := above one there
        omega
      rw [Buckets.park]
      split
      · rename_i less
        rw [part_cons, partOf_own own]
        refine (park_above parked.alone fun other mem => ?_).symm
        obtain ⟨one, there, same⟩ := depth_of_mem_part mem
        rcases List.mem_cons.mp there with rfl | there
        · exact same ▸ less
        · have deeper := above one there
          omega
      · split
        · -- The step comes behind those at its depth, if any of them is of its run.
          rename_i same
          subst same
          rw [part_cons, part_cons, partOf_append, partOf_own own]
          cases partOf owner bucket with
          | nil => exact (park_above parked.alone (rest_deeper (Nat.le_refl _))).symm
          | cons first others => simp [shelve, Buckets.park]
        · rename_i not_less differs
          rw [part_cons, part_cons, ih behind]
          cases partOf owner bucket with
          | nil => rfl
          | cons first others => simp [shelve, Buckets.park, not_less, differs]

end Buckets

end GraphExec
