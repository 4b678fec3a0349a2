import GraphExec.Document.Syntax

/-!
# Induction over selections

Selections are gone through in order, inline fragments where they stand, and fragments without
those that are being gone through already.
-/

namespace GraphExec

/-- The order in which selections are gone through. -/
theorem Selection.descent {motive : Fields Fragment → List Selection → Prop}
    (nil : ∀ available, motive available [])
    (cons : ∀ available selection rest, motive available rest →
      (∀ condition directives inner, selection = .inline condition directives inner →
        motive available inner) →
      (∀ name fragment, Fields.get? available name = some fragment →
        motive (Fields.erase available name) fragment.selections) →
      motive available (selection :: rest))
    (available : Fields Fragment) (selections : List Selection) : motive available selections := by
  match selections with
  | [] => exact nil available
  | selection :: rest =>
      refine cons available selection rest (descent nil cons available rest) ?_ ?_
      · intro condition directives inner same
        exact descent nil cons available inner
      · intro name fragment found
        exact descent nil cons (Fields.erase available name) fragment.selections
termination_by (available.length, sizeOf selections)
decreasing_by
  · apply Prod.Lex.right
    simp only [List.cons.sizeOf_spec]
    omega
  · apply Prod.Lex.right
    subst same
    simp only [List.cons.sizeOf_spec, Selection.inline.sizeOf_spec]
    omega
  · exact Prod.Lex.left _ _ (Fields.length_erase_lt found)

end GraphExec
