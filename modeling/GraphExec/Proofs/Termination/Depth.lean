import GraphExec.Proofs.Run.Flattening

/-!
# How deep selections are

A document is finite, but what it selects is as deep as its fragments make it. If no fragment is
spread below its own selections, every selection has a depth: the number of fields that can be
selected one below the other in it. The fields that are gathered for an object are deeper than what
is selected below them.
-/

namespace GraphExec

/-- A selection stands among others or below them, at whatever depth. -/
inductive Selection.Beneath (fragments : Fields Fragment) (selections : List Selection) :
    Selection → Prop
  | here {selection : Selection} (mem : selection ∈ selections) :
      Beneath fragments selections selection
  | field {node : FieldNode} {selection : Selection}
      (above : Beneath fragments selections (.field node)) (mem : selection ∈ node.selections) :
      Beneath fragments selections selection
  | inline {condition : Option String} {directives : List Directive} {inner : List Selection}
      {selection : Selection}
      (above : Beneath fragments selections (.inline condition directives inner))
      (mem : selection ∈ inner) : Beneath fragments selections selection
  | spread {name : String} {directives : List Directive} {fragment : Fragment}
      {selection : Selection} (above : Beneath fragments selections (.spread name directives))
      (known : (name, fragment) ∈ fragments) (mem : selection ∈ fragment.selections) :
      Beneath fragments selections selection

/-- No fragment is spread below its own selections, at whatever depth and through whichever other
fragments. -/
def Fragment.DeeplyAcyclic (fragments : Fields Fragment) : Prop :=
  ∀ name fragment, (name, fragment) ∈ fragments →
    ∀ directives, ¬ Selection.Beneath fragments fragment.selections (.spread name directives)

/-- No more fields are selected one below the other in a selection than some number. -/
inductive Selection.Within (fragments : Fields Fragment) : Nat → Selection → Prop
  | field {depth : Nat} {node : FieldNode}
      (deeper : ∀ selection ∈ node.selections, Within fragments depth selection) :
      Within fragments (depth + 1) (.field node)
  | inline {depth : Nat} {condition : Option String} {directives : List Directive}
      {inner : List Selection} (inside : ∀ selection ∈ inner, Within fragments depth selection) :
      Within fragments depth (.inline condition directives inner)
  | spread {depth : Nat} {name : String} {directives : List Directive}
      (inside : ∀ fragment, (name, fragment) ∈ fragments → ∀ selection ∈ fragment.selections,
        Within fragments depth selection) : Within fragments depth (.spread name directives)

namespace Selection

variable {fragments : Fields Fragment} {selections inner : List Selection}
  {selection other : Selection}

/-- What stands beneath selections that stand beneath others does so too. -/
theorem Beneath.trans (above : ∀ other ∈ inner, Beneath fragments selections other)
    (beneath : Beneath fragments inner selection) : Beneath fragments selections selection := by
  induction beneath with
  | here mem => exact above _ mem
  | field _ mem ih => exact .field ih mem
  | inline _ mem ih => exact .inline ih mem
  | spread _ known mem ih => exact .spread ih known mem

theorem Within.mono {depth more : Nat} (within : selection.Within fragments depth)
    (bound : depth ≤ more) : selection.Within fragments more := by
  induction within generalizing more with
  | field _ ih =>
      obtain ⟨more, rfl⟩ := Nat.exists_eq_add_of_le' (Nat.one_le_of_lt bound)
      exact .field fun other mem => ih other mem (Nat.le_of_succ_le_succ bound)
  | inline _ ih => exact .inline fun other mem => ih other mem bound
  | spread _ ih => exact .spread fun fragment known other mem => ih fragment known other mem bound

/-- Finitely many selections have a depth together if each of them has one. -/
theorem exists_within_all (each : ∀ other ∈ selections, ∃ depth, other.Within fragments depth) :
    ∃ depth, ∀ other ∈ selections, other.Within fragments depth := by
  induction selections with
  | nil => exact ⟨0, fun _ mem => absurd mem List.not_mem_nil⟩
  | cons first rest ih =>
      obtain ⟨depth, within⟩ := each first List.mem_cons_self
      obtain ⟨more, behind⟩ := ih fun other mem => each other (List.mem_cons_of_mem _ mem)
      refine ⟨max depth more, fun other mem => ?_⟩
      rcases List.mem_cons.mp mem with rfl | mem
      · exact within.mono (Nat.le_max_left _ _)
      · exact (behind other mem).mono (Nat.le_max_right _ _)

open Classical in
/-- The known fragments that are spread at a selection or below it. -/
noncomputable def spreads (fragments : Fields Fragment) (selection : Selection) : Finset String :=
  {name ∈ fragments.keys.toFinset |
    ∃ directives, Beneath fragments [selection] (.spread name directives)}

theorem mem_spreads {name : String} : name ∈ spreads fragments selection ↔ name ∈ fragments.keys ∧
    ∃ directives, Beneath fragments [selection] (.spread name directives) := by
  simp [spreads]

theorem spreads_mono (beneath : Beneath fragments [selection] other) :
    spreads fragments other ⊆ spreads fragments selection := by
  intro name mem
  obtain ⟨known, directives, spread⟩ := mem_spreads.mp mem
  refine mem_spreads.mpr ⟨known, directives, spread.trans fun first mem => ?_⟩
  rwa [List.mem_singleton.mp mem]

/-- While one goes into a fragment there is one fragment less that can be spread. -/
theorem spreads_lt (acyclic : Fragment.DeeplyAcyclic fragments) {name : String}
    {directives : List Directive} {fragment : Fragment} (known : (name, fragment) ∈ fragments)
    (mem : other ∈ fragment.selections) :
    (spreads fragments other).card < (spreads fragments (.spread name directives)).card := by
  have here : Beneath fragments [.spread name directives] (.spread name directives) :=
    .here (List.mem_singleton_self _)
  refine Finset.card_lt_card ⟨spreads_mono (.spread here known mem), fun fewer => ?_⟩
  obtain ⟨-, again, spread⟩ := mem_spreads.mp
    (fewer (mem_spreads.mpr ⟨Fields.mem_keys known, directives, here⟩))
  refine acyclic name fragment known again (spread.trans fun first here => ?_)
  exact List.mem_singleton.mp here ▸ .here mem

/-- Every selection has a depth, if fragments do not go round in circles. -/
theorem exists_within (acyclic : Fragment.DeeplyAcyclic fragments) (selection : Selection) :
    ∃ depth, selection.Within fragments depth := by
  -- One goes into a fragment, of which fewer are left then, or into a part of the selection.
  induction spread : (spreads fragments selection).card using Nat.strong_induction_on
    generalizing selection with
  | _ count fewer =>
    induction size : sizeOf selection using Nat.strong_induction_on generalizing selection with
    | _ size smaller =>
      have onward {other : Selection} (beneath : Beneath fragments [selection] other)
          (part : sizeOf other < sizeOf selection) : ∃ depth, other.Within fragments depth := by
        have bound := Finset.card_le_card (spreads_mono beneath)
        rcases Nat.lt_or_eq_of_le bound with less | same
        · exact fewer _ (spread ▸ less) other rfl
        · exact smaller _ (size ▸ part) other (same.trans spread) rfl
      have here : Beneath fragments [selection] selection := .here (List.mem_singleton_self _)
      cases selection with
      | field node =>
          have each : ∀ other ∈ node.selections, ∃ depth, other.Within fragments depth := by
            intro other mem
            refine onward (.field here mem) ?_
            have part := List.sizeOf_lt_of_mem mem
            cases node
            simp only [field.sizeOf_spec, FieldNodeOf.mk.sizeOf_spec] at part ⊢
            omega
          obtain ⟨depth, deeper⟩ := exists_within_all each
          exact ⟨depth + 1, .field deeper⟩
      | inline condition directives inner =>
          have each : ∀ other ∈ inner, ∃ depth, other.Within fragments depth := by
            intro other mem
            refine onward (.inline here mem) ?_
            have part := List.sizeOf_lt_of_mem mem
            simp only [inline.sizeOf_spec]
            omega
          obtain ⟨depth, inside⟩ := exists_within_all each
          exact ⟨depth, .inline inside⟩
      | spread name directives =>
          let inside := fragments.flatMap fun entry =>
            if entry.1 = name then entry.2.selections else []
          have each : ∀ other ∈ inside, ∃ depth, other.Within fragments depth := by
            intro other mem
            obtain ⟨⟨name', fragment⟩, known, written⟩ := List.mem_flatMap.mp mem
            split at written
            · rename_i same
              obtain rfl : name' = name := same
              exact fewer _ (spread ▸ spreads_lt acyclic known written) other rfl
            · cases written
          obtain ⟨depth, within⟩ := exists_within_all each
          refine ⟨depth, .spread fun fragment known other mem => within other ?_⟩
          exact List.mem_flatMap.mpr ⟨(name, fragment), known, by simpa using mem⟩

end Selection

/-! ### What is gathered -/

/-- What is gathered from selections is no deeper than they are. -/
theorem Gathers.within {keeps : List Directive → Bool → Prop} {satisfies : Option String → Bool}
    {fragments available : Fields Fragment} {selections : List Selection} {nodes : List FieldNode}
    {depth : Nat} (gathers : Gathers keeps satisfies available selections nodes) :
    (∀ selection ∈ selections, selection.Within fragments depth) → available ⊆ fragments →
    ∀ node ∈ nodes, (Selection.field node).Within fragments depth := by
  have behind {selection : Selection} {rest : List Selection}
      (within : ∀ other ∈ selection :: rest, other.Within fragments depth) :
      ∀ other ∈ rest, other.Within fragments depth :=
    fun other mem => within other (List.mem_cons_of_mem _ mem)
  induction gathers with
  | nil _ => exact fun _ _ _ mem => absurd mem List.not_mem_nil
  | left _ _ ih => exact fun within fewer => ih (behind within) fewer
  | field _ _ ih =>
      intro within fewer node mem
      rcases List.mem_cons.mp mem with rfl | mem
      · exact within _ List.mem_cons_self
      · exact ih (behind within) fewer node mem
  | inline _ _ _ _ inside ih =>
      intro within fewer node mem
      rcases List.mem_append.mp mem with mem | mem
      · cases within _ List.mem_cons_self with
        | inline deep => exact inside deep fewer node mem
      · exact ih (behind within) fewer node mem
  | missed _ _ _ ih => exact fun within fewer => ih (behind within) fewer
  | @spread available name _ _ _ _ _ _ known _ _ _ inside ih =>
      intro within fewer node mem
      rcases List.mem_append.mp mem with mem | mem
      · cases within _ List.mem_cons_self with
        | spread deep =>
            have member := fewer (Fields.mem_of_get? known)
            have left := (Fields.erase_sublist available name).subset
            exact inside (deep _ member) (fun _ mem => fewer (left mem)) node mem
      · exact ih (behind within) fewer node mem
  | unspread _ _ _ ih => exact fun within fewer => ih (behind within) fewer

/-- What is selected below a group of fields is less deep than they are. -/
theorem Groups.within_of {fragments : Fields Fragment} {nodes : List FieldNode} {depth : Nat}
    (within : ∀ node ∈ nodes, (Selection.field node).Within fragments depth) {key : String}
    {group : FieldGroup} (member : (key, group) ∈ Groups.of nodes) :
    ∃ less < depth, ∀ selection ∈ group.nodes.flatMap (·.selections),
      selection.Within fragments less := by
  have among (node : FieldNode) (mem : node ∈ group.nodes) := within node (nodes_subset member mem)
  cases among group.first List.mem_cons_self with
  | @field less _ _ =>
      refine ⟨less, Nat.lt_succ_self less, fun selection mem => ?_⟩
      obtain ⟨node, here, written⟩ := List.mem_flatMap.mp mem
      cases among node here with
      | field deeper => exact deeper selection written

end GraphExec
