import GraphExec.Proofs.Engine
import GraphExec.Proofs.Selections
import GraphExec.Selection.Grouping

/-!
# How a grouping descends

When the directives of a node have been asked, a grouping waits, or goes on with the rest of the
selections, or groups first what is inside the node. These are the cases of everything that is
shown of groupings.
-/

namespace GraphExec

variable {σ : Type}

namespace Grouper

/-- What is gathered from a node that counts, besides the node itself. -/
def inside? (grouper : Grouper σ) (available : Fields Fragment) :
    Selection → Option (Fields Fragment × List Selection)
  | .field _ => none
  | .inline condition _ inner =>
    if grouper.satisfies condition then some (available, inner) else none
  | .spread name _ =>
    (Fields.get? available name).bind fun fragment =>
      if grouper.satisfies (some fragment.condition) then
        some (Fields.erase available name, fragment.selections)
      else none

variable {grouper : Grouper σ} {available inner : Fields Fragment} {selection : Selection}
  {rest selections : List Selection} {found : Grouping}

/-- What is inside a node is an inline fragment or one that is spread there. -/
theorem inside_cases (inside : grouper.inside? available selection = some (inner, selections)) :
    (∃ condition directives, selection = .inline condition directives selections ∧
      grouper.satisfies condition = true ∧ inner = available) ∨
    ∃ name directives fragment, selection = .spread name directives ∧
      Fields.get? available name = some fragment ∧
      grouper.satisfies (some fragment.condition) = true ∧
      inner = Fields.erase available name ∧ selections = fragment.selections := by
  cases selection with
  | field node => cases inside
  | inline condition directives within =>
      simp only [inside?, Option.ite_none_right_eq_some] at inside
      obtain ⟨satisfied, same⟩ := inside
      injection same with same
      injection same with same_inner same
      exact .inl ⟨condition, directives, same ▸ rfl, satisfied, same_inner.symm⟩
  | spread name directives =>
      obtain ⟨fragment, known, inside⟩ := Option.bind_eq_some_iff.mp inside
      simp only [Option.ite_none_right_eq_some] at inside
      obtain ⟨satisfied, same⟩ := inside
      injection same with same
      injection same with same_inner same
      exact .inr ⟨name, directives, fragment, rfl, known, satisfied, same_inner.symm, same.symm⟩

/-- Where nothing is inside a fragment, its condition is not satisfied, or it is not available. -/
theorem nothing_inside (nothing : grouper.inside? available selection = none)
    (no_field : ∀ node, selection ≠ .field node) :
    (∃ condition directives within, selection = .inline condition directives within ∧
      grouper.satisfies condition = false) ∨
    ∃ name directives, selection = .spread name directives ∧
      ∀ fragment, Fields.get? available name = some fragment →
        grouper.satisfies (some fragment.condition) = false := by
  cases selection with
  | field node => exact absurd rfl (no_field node)
  | inline condition directives within =>
      refine .inl ⟨condition, directives, within, rfl, ?_⟩
      simpa [inside?] using nothing
  | spread name directives =>
      refine .inr ⟨name, directives, rfl, fun fragment known => ?_⟩
      simpa [inside?, known] using nothing

/-- The order in which a grouping goes through selections. -/
theorem descent (grouper : Grouper σ) {motive : Fields Fragment → List Selection → Prop}
    (nil : ∀ available, motive available [])
    (cons : ∀ available selection rest, motive available rest →
      (∀ inner selections, grouper.inside? available selection = some (inner, selections) →
        motive inner selections) →
      motive available (selection :: rest))
    (available : Fields Fragment) (selections : List Selection) : motive available selections := by
  induction available, selections using Selection.descent with
  | nil available => exact nil available
  | cons available selection rest tail inside fragments =>
      refine cons available selection rest tail fun inner selections within => ?_
      rcases inside_cases within with ⟨condition, directives, rfl, -, rfl⟩ |
        ⟨name, directives, fragment, rfl, known, -, rfl, rfl⟩
      · exact inside _ _ _ rfl
      · exact fragments name fragment known

/-- Groups on behind a part, unless the part waits. -/
def onward (grouper : Grouper σ) (available : Fields Fragment) (rest : List Selection)
    (program : Engine σ GroupingResult) : Engine σ GroupingResult := do
  match ← program with
  | .waiting key => return .waiting key
  | .complete found => grouper.groupFrom available rest found

/-- How a grouping goes on when the directives of a node have been asked. -/
inductive GoesOn (grouper : Grouper σ) (available : Fields Fragment) (selection : Selection)
    (rest : List Selection) (found : Grouping) : Inclusion → Engine σ GroupingResult → Prop
  | waiting (key : ArgumentKey) :
      GoesOn grouper available selection rest found (.waiting key) (pure (.waiting key))
  | failed (error : ExecutionError) :
      GoesOn grouper available selection rest found (.failed error)
        (grouper.groupFrom available rest (found.report error))
  | excluded :
      GoesOn grouper available selection rest found .excluded
        (grouper.groupFrom available rest found)
  | field (node : FieldNode) (same : selection = .field node) :
      GoesOn grouper available selection rest found .included
        (grouper.groupFrom available rest (found.add node))
  | past (no_field : ∀ node, selection ≠ .field node)
      (nothing : grouper.inside? available selection = none) :
      GoesOn grouper available selection rest found .included
        (grouper.groupFrom available rest found)
  | enters (inner : Fields Fragment) (selections : List Selection)
      (inside : grouper.inside? available selection = some (inner, selections)) :
      GoesOn grouper available selection rest found .included
        (grouper.onward available rest (grouper.groupFrom inner selections found))

theorem groupFrom_nil : grouper.groupFrom available [] found = pure (.complete found) := by
  rw [groupFrom]

/-- A grouping asks the directives of a node, and goes on. -/
theorem groupFrom_cons (grouper : Grouper σ) (available : Fields Fragment) (selection : Selection)
    (rest : List Selection) (found : Grouping) : ∃ next,
      grouper.groupFrom available (selection :: rest) found =
        grouper.inclusion selection.directives >>= next ∧
      ∀ inclusion, grouper.GoesOn available selection rest found inclusion (next inclusion) := by
  unfold groupFrom
  refine ⟨_, rfl, fun inclusion => ?_⟩
  cases inclusion with
  | waiting key => exact .waiting key
  | failed error => exact .failed error
  | excluded => exact .excluded
  | included =>
      cases selection with
      | field node => exact .field node rfl
      | inline condition directives within =>
          simp only
          split
          · rename_i satisfied
            exact .enters available within (by simp [inside?, satisfied])
          · rename_i missed
            exact .past (by intro _ same; cases same) (by simp [inside?, missed])
      | spread name directives =>
          simp only
          split
          · rename_i unknown
            exact .past (by intro _ same; cases same) (by simp [inside?, unknown])
          · rename_i fragment known
            split
            · rename_i satisfied
              exact .enters _ fragment.selections (by simp [inside?, known, satisfied])
            · rename_i missed
              exact .past (by intro _ same; cases same) (by simp [inside?, known, missed])

open Engine

/-- What a grouping answers at a stage it answers as it goes on. -/
theorem gives_cons {s t : Stage σ} {result : GroupingResult}
    (gives : (grouper.groupFrom available (selection :: rest) found).Gives s result t) :
    ∃ inclusion u next, (grouper.inclusion selection.directives).Gives s inclusion u ∧
      grouper.GoesOn available selection rest found inclusion next ∧ next.Gives u result t := by
  obtain ⟨next, same, goes_on⟩ := grouper.groupFrom_cons available selection rest found
  rw [same] at gives
  obtain ⟨inclusion, u, included, gives⟩ := gives_bind.mp gives
  exact ⟨inclusion, u, next inclusion, included, goes_on inclusion, gives⟩

/-- Behind a part a grouping waits for what the part waits for, or goes on with the rest. -/
theorem gives_onward {program : Engine σ GroupingResult} {s t : Stage σ} {result : GroupingResult}
    (gives : (grouper.onward available rest program).Gives s result t) :
    (∃ key, result = .waiting key ∧ program.Gives s (.waiting key) t) ∨
      ∃ found u, program.Gives s (.complete found) u ∧
        (grouper.groupFrom available rest found).Gives u result t := by
  obtain ⟨middle, u, first, gives⟩ := gives_bind.mp gives
  cases middle with
  | waiting key =>
      obtain ⟨rfl, rfl⟩ := gives_pure.mp gives
      exact .inl ⟨key, rfl, first⟩
  | complete found => exact .inr ⟨found, u, first, gives⟩

end Grouper

end GraphExec
