import Mathlib.Data.List.Forall2

/-!
# Computations that succeed

A computation that may fail succeeds when all of its parts do. What the parts have come to is read
off one after another, and so is what a list is made into, element by element.
-/

namespace GraphExec

variable {α β ε : Type}

namespace Except

variable {x : Except ε α} {b : β}

theorem bind_eq_ok {f : α → Except ε β} :
    (x >>= f) = .ok b ↔ ∃ a, x = .ok a ∧ f a = .ok b := by
  cases x with
  | error error => simp [bind, Except.bind]
  | ok a => simp [bind, Except.bind]

theorem map_eq_ok {f : α → β} : f <$> x = .ok b ↔ ∃ a, x = .ok a ∧ f a = b := by
  cases x with
  | error error => simp [Functor.map, Except.map]
  | ok a => simp [Functor.map, Except.map]

theorem bind_succeeds {f : α → Except ε β} :
    (∃ b, (x >>= f) = .ok b) ↔ ∃ a, x = .ok a ∧ ∃ b, f a = .ok b := by
  simp only [bind_eq_ok, ← exists_and_left]
  exact exists_comm

theorem succeeds_unit {x : Except ε Unit} : (∃ u, x = .ok u) ↔ x = .ok () :=
  ⟨fun ⟨_, succeeds⟩ => succeeds, fun succeeds => ⟨(), succeeds⟩⟩

end Except

/-- What a list is made into, in order, if that fails for none. -/
theorem forall₂_of_mapM {f : α → Except ε β} {list : List α} :
    ∀ {results : List β}, list.mapM f = .ok results →
      List.Forall₂ (fun a b => f a = .ok b) list results := by
  induction list with
  | nil =>
      intro results made
      injection made with made
      exact made ▸ .nil
  | cons first rest ih =>
      intro results made
      rw [List.mapM_cons] at made
      obtain ⟨result, one, made⟩ := Except.bind_eq_ok.mp made
      obtain ⟨behind, others, made⟩ := Except.bind_eq_ok.mp made
      injection made with made
      exact made ▸ .cons one (ih others)

theorem mapM_ok {f : α → Except ε β} {list : List α} (each : ∀ a ∈ list, ∃ b, f a = .ok b) :
    ∃ results, list.mapM f = .ok results := by
  induction list with
  | nil => exact ⟨[], rfl⟩
  | cons first rest ih =>
      obtain ⟨result, one⟩ := each first List.mem_cons_self
      obtain ⟨results, others⟩ := ih fun a mem => each a (List.mem_cons_of_mem _ mem)
      refine ⟨result :: results, ?_⟩
      rw [List.mapM_cons, one, others]
      rfl

end GraphExec
