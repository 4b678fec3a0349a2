import GraphExec.Proofs.Run.Inquiries

/-!
# What a gathering comes across

A gathering that is complete asks directives, meets type conditions and finds field nodes. A walk
tells which of these, in the order in which it comes to them.
-/

namespace GraphExec

variable {σ : Type}

namespace Grouper

/-- The type condition at a selection, if the fragment that it stands for is there. -/
def condition? (available : Fields Fragment) : Selection → Option String
  | .field _ => none
  | .inline condition _ _ => condition
  | .spread name _ => (Fields.get? available name).map (·.condition)

/-- A complete pass over selections: the directives that it asks, the type conditions that it meets
at nodes that are kept, and the field nodes that it finds. -/
inductive Walks (grouper : Grouper σ) : Fields Fragment → List Selection → Stage σ →
    List Asked → List String → List FieldNode → Stage σ → Prop
  | nil (available : Fields Fragment) (s : Stage σ) : Walks grouper available [] s [] [] [] s
  | left {available : Fields Fragment} {selection : Selection} {rest : List Selection}
      {s t u : Stage σ} {asked behind : List Asked} {conditions : List String}
      {nodes : List FieldNode} {inclusion : Inclusion}
      (heard : grouper.Says selection.directives s asked inclusion u)
      (out : inclusion.counts = false) (complete : ∀ key, inclusion ≠ .waiting key)
      (after : Walks grouper available rest u behind conditions nodes t) :
      Walks grouper available (selection :: rest) s (asked ++ behind) conditions nodes t
  | field {available : Fields Fragment} {node : FieldNode} {rest : List Selection}
      {s t u : Stage σ} {asked behind : List Asked} {conditions : List String}
      {nodes : List FieldNode}
      (heard : grouper.Says (Selection.field node).directives s asked .included u)
      (after : Walks grouper available rest u behind conditions nodes t) :
      Walks grouper available (.field node :: rest) s (asked ++ behind) conditions (node :: nodes) t
  | enters {available inner : Fields Fragment} {selection : Selection}
      {rest selections : List Selection} {s t u v : Stage σ} {asked within behind : List Asked}
      {conditions others : List String} {found nodes : List FieldNode}
      (heard : grouper.Says selection.directives s asked .included u)
      (inside : grouper.inside? available selection = some (inner, selections))
      (below : Walks grouper inner selections u within conditions found v)
      (after : Walks grouper available rest v behind others nodes t) :
      Walks grouper available (selection :: rest) s (asked ++ (within ++ behind))
        ((condition? available selection).toList ++ (conditions ++ others)) (found ++ nodes) t
  | past {available : Fields Fragment} {selection : Selection} {rest : List Selection}
      {s t u : Stage σ} {asked behind : List Asked} {conditions : List String}
      {nodes : List FieldNode} (heard : grouper.Says selection.directives s asked .included u)
      (fragment : ∀ node, selection ≠ .field node)
      (nothing : grouper.inside? available selection = none)
      (after : Walks grouper available rest u behind conditions nodes t) :
      Walks grouper available (selection :: rest) s (asked ++ behind)
        ((condition? available selection).toList ++ conditions) nodes t

open Engine

variable {grouper : Grouper σ}

/-- A gathering that is complete has groups of the field nodes that it has found. -/
theorem walks_of_groupFrom (available : Fields Fragment) (selections : List Selection) :
    ∀ {found result : Grouping} {s t : Stage σ},
      (grouper.groupFrom available selections found).Gives s (.complete result) t →
      ∃ asked conditions nodes, grouper.Walks available selections s asked conditions nodes t ∧
        result.groups = nodes.foldl Groups.add found.groups := by
  induction available, selections using grouper.descent with
  | nil available =>
      intro found result s t h
      rw [groupFrom_nil] at h
      obtain ⟨same, rfl⟩ := gives_pure.mp h
      injection same with same
      exact ⟨[], [], [], .nil available _, by rw [← same]; rfl⟩
  | cons available selection rest tail inside =>
      intro found result s t gives
      obtain ⟨inclusion, u, next, included, goes_on, h⟩ := gives_cons gives
      obtain ⟨asked, heard⟩ := says_of_inclusion included
      cases goes_on with
      | waiting key =>
          obtain ⟨same, -⟩ := gives_pure.mp h
          cases same
      | failed error | excluded =>
          obtain ⟨behind, conditions, nodes, after, groups⟩ := tail h
          exact ⟨_, _, _, .left heard rfl nofun after, groups⟩
      | field node same =>
          subst same
          obtain ⟨behind, conditions, nodes, after, groups⟩ := tail h
          exact ⟨_, _, _, .field heard after, groups⟩
      | past no_field nothing =>
          obtain ⟨behind, conditions, nodes, after, groups⟩ := tail h
          exact ⟨_, _, _, .past heard no_field nothing after, groups⟩
      | enters inner selections within =>
          rcases gives_onward h with ⟨key, wrong, -⟩ | ⟨middle, v, grouped, h⟩
          · cases wrong
          · obtain ⟨below, conditions, front, walks, first⟩ := inside inner selections within grouped
            obtain ⟨behind, others, nodes, after, groups⟩ := tail h
            refine ⟨_, _, _, .enters heard within walks after, ?_⟩
            rw [groups, first, List.foldl_append]

theorem walks_of_group {selections : List Selection} {grouping : Grouping} {s t : Stage σ}
    (h : (grouper.group selections).Gives s (.complete grouping) t) :
    ∃ asked conditions nodes,
      grouper.Walks grouper.job.fragments selections s asked conditions nodes t ∧
        grouping.groups = Groups.of nodes :=
  walks_of_groupFrom _ _ h

end Grouper

end GraphExec
