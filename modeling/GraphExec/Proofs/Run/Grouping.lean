import GraphExec.Proofs.Run.Frame
import GraphExec.Proofs.Fields

/-!
# Groups of field nodes

What a grouping finds are the field nodes that are gathered in document order, fragments where they
stand. Their response keys are those of the groups, each once, in the order of its first node.
-/

namespace GraphExec

variable {σ : Type}

/-- The groups of field nodes. -/
def Groups.of (nodes : List FieldNode) : Groups :=
  nodes.foldl Groups.add []

/-- Which field nodes are gathered from selections, in document order. A node counts if its
directives keep it, and a fragment if besides the object satisfies its condition. -/
inductive Gathers (keeps : List Directive → Bool → Prop) (satisfies : Option String → Bool) :
    Fields Fragment → List Selection → List FieldNode → Prop
  | nil (available : Fields Fragment) : Gathers keeps satisfies available [] []
  | left {available : Fields Fragment} {selection : Selection} {rest : List Selection}
      {nodes : List FieldNode} (no : keeps selection.directives false)
      (behind : Gathers keeps satisfies available rest nodes) :
      Gathers keeps satisfies available (selection :: rest) nodes
  | field {available : Fields Fragment} {node : FieldNode} {rest : List Selection}
      {nodes : List FieldNode} (yes : keeps (Selection.field node).directives true)
      (behind : Gathers keeps satisfies available rest nodes) :
      Gathers keeps satisfies available (.field node :: rest) (node :: nodes)
  | inline {available : Fields Fragment} {condition : Option String} {directives : List Directive}
      {inner rest : List Selection} {within nodes : List FieldNode} (yes : keeps directives true)
      (satisfied : satisfies condition = true)
      (inside : Gathers keeps satisfies available inner within)
      (behind : Gathers keeps satisfies available rest nodes) :
      Gathers keeps satisfies available (.inline condition directives inner :: rest)
        (within ++ nodes)
  | missed {available : Fields Fragment} {condition : Option String} {directives : List Directive}
      {inner rest : List Selection} {nodes : List FieldNode} (yes : keeps directives true)
      (missed : satisfies condition = false)
      (behind : Gathers keeps satisfies available rest nodes) :
      Gathers keeps satisfies available (.inline condition directives inner :: rest) nodes
  | spread {available : Fields Fragment} {name : String} {directives : List Directive}
      {fragment : Fragment} {rest : List Selection} {within nodes : List FieldNode}
      (yes : keeps directives true) (known : Fields.get? available name = some fragment)
      (satisfied : satisfies (some fragment.condition) = true)
      (inside : Gathers keeps satisfies (Fields.erase available name) fragment.selections within)
      (behind : Gathers keeps satisfies available rest nodes) :
      Gathers keeps satisfies available (.spread name directives :: rest) (within ++ nodes)
  | unspread {available : Fields Fragment} {name : String} {directives : List Directive}
      {rest : List Selection} {nodes : List FieldNode} (yes : keeps directives true)
      (missed : ∀ fragment, Fields.get? available name = some fragment →
        satisfies (some fragment.condition) = false)
      (behind : Gathers keeps satisfies available rest nodes) :
      Gathers keeps satisfies available (.spread name directives :: rest) nodes

/-- Whether a node counts. -/
def Inclusion.counts : Inclusion → Bool
  | included => true
  | _ => false

/-- At some stage of a kind, the directives of a node say whether it counts. -/
def Grouper.Keeps (grouper : Grouper σ) (fits : Stage σ → Prop) (directives : List Directive)
    (kept : Bool) : Prop :=
  ∃ s inclusion t, fits s ∧ (grouper.inclusion directives).Gives s inclusion t ∧
    (∀ key, inclusion ≠ .waiting key) ∧ kept = inclusion.counts

open Engine

/-- Selections of which it is known what the directives of a node say, at stages of a kind. -/
structure Grouper.Knowing (grouper : Grouper σ) (fits : Stage σ → Prop)
    (keeps : List Directive → Bool → Prop) (told : Selection → Prop) : Prop where
  tells : ∀ selection s inclusion t, told selection → fits s →
    (grouper.inclusion selection.directives).Gives s inclusion t →
    fits t ∧ ((∀ key, inclusion ≠ .waiting key) → keeps selection.directives inclusion.counts)
  inline : ∀ condition directives inner, told (.inline condition directives inner) →
    ∀ selection ∈ inner, told selection

/-- What is inside a known node is known. -/
theorem Grouper.Knowing.inside {grouper : Grouper σ} {fits : Stage σ → Prop}
    {keeps : List Directive → Bool → Prop} {told : Selection → Prop}
    (knowing : grouper.Knowing fits keeps told) {available inner : Fields Fragment}
    {selection : Selection} {selections : List Selection}
    (fragments : ∀ fragment ∈ available.values, ∀ selection ∈ fragment.selections, told selection)
    (here : told selection)
    (within : grouper.inside? available selection = some (inner, selections)) :
    (∀ fragment ∈ inner.values, ∀ selection ∈ fragment.selections, told selection) ∧
      ∀ selection ∈ selections, told selection := by
  rcases inside_cases within with ⟨condition, directives, rfl, -, rfl⟩ |
    ⟨name, directives, fragment, rfl, known, -, rfl, rfl⟩
  · exact ⟨fragments, knowing.inline condition directives selections here⟩
  · exact ⟨fun other mem => fragments other (Fields.mem_of_mem_erase mem),
      fragments fragment (Fields.mem_values_of_get? known)⟩

/-- Field nodes are gathered inside a node that counts. -/
theorem Grouper.gathers_enters {grouper : Grouper σ} {keeps : List Directive → Bool → Prop}
    {available inner : Fields Fragment} {selection : Selection} {rest selections : List Selection}
    {front nodes : List FieldNode} (yes : keeps selection.directives true)
    (inside : grouper.inside? available selection = some (inner, selections))
    (below : Gathers keeps grouper.satisfies inner selections front)
    (behind : Gathers keeps grouper.satisfies available rest nodes) :
    Gathers keeps grouper.satisfies available (selection :: rest) (front ++ nodes) := by
  rcases inside_cases inside with ⟨condition, directives, rfl, satisfied, rfl⟩ |
    ⟨name, directives, fragment, rfl, known, satisfied, rfl, rfl⟩
  · exact .inline yes satisfied below behind
  · exact .spread yes known satisfied below behind

/-- None are gathered from a fragment that nothing is inside of. -/
theorem Grouper.gathers_past {grouper : Grouper σ} {keeps : List Directive → Bool → Prop}
    {available : Fields Fragment} {selection : Selection} {rest : List Selection}
    {nodes : List FieldNode} (yes : keeps selection.directives true)
    (no_field : ∀ node, selection ≠ .field node)
    (nothing : grouper.inside? available selection = none)
    (behind : Gathers keeps grouper.satisfies available rest nodes) :
    Gathers keeps grouper.satisfies available (selection :: rest) nodes := by
  rcases nothing_inside nothing no_field with ⟨condition, directives, within, rfl, missed⟩ |
    ⟨name, directives, rfl, missed⟩
  · exact .missed yes missed behind
  · exact .unspread yes missed behind

/-- A grouping that is complete has gathered field nodes and has grouped them. -/
theorem Grouper.groupFrom_gathers {grouper : Grouper σ} {fits : Stage σ → Prop}
    {keeps : List Directive → Bool → Prop} {told : Selection → Prop}
    (knowing : grouper.Knowing fits keeps told) (available : Fields Fragment)
    (selections : List Selection) :
    ∀ {found result : Grouping} {s t : Stage σ},
      (∀ fragment ∈ available.values, ∀ selection ∈ fragment.selections, told selection) →
      (∀ selection ∈ selections, told selection) → fits s →
      (grouper.groupFrom available selections found).Gives s (.complete result) t →
      ∃ nodes, Gathers keeps grouper.satisfies available selections nodes ∧
        result.groups = nodes.foldl Groups.add found.groups ∧ fits t := by
  induction available, selections using grouper.descent with
  | nil available =>
      intro found result s t _ _ fine h
      rw [groupFrom_nil] at h
      obtain ⟨same, rfl⟩ := gives_pure.mp h
      injection same with same
      exact ⟨[], .nil available, by rw [← same]; rfl, fine⟩
  | cons available selection rest tail inside =>
      intro found result s t known_fragments known fine gives
      obtain ⟨inclusion, u, next, included, goes_on, h⟩ := gives_cons gives
      have here := known selection List.mem_cons_self
      obtain ⟨fine', keeps⟩ := knowing.tells _ _ _ _ here fine included
      have behind_known : ∀ other ∈ rest, told other :=
        fun other mem => known other (List.mem_cons_of_mem _ mem)
      cases goes_on with
      | waiting key =>
          obtain ⟨same, -⟩ := gives_pure.mp h
          cases same
      | failed error | excluded =>
          obtain ⟨nodes, behind, groups⟩ := tail known_fragments behind_known fine' h
          exact ⟨nodes, .left (keeps nofun) behind, groups⟩
      | field node same =>
          subst same
          obtain ⟨nodes, behind, groups⟩ := tail known_fragments behind_known fine' h
          exact ⟨node :: nodes, .field (keeps nofun) behind, groups⟩
      | past no_field nothing =>
          obtain ⟨nodes, behind, groups⟩ := tail known_fragments behind_known fine' h
          exact ⟨nodes, gathers_past (keeps nofun) no_field nothing behind, groups⟩
      | enters inner selections within =>
          rcases gives_onward h with ⟨key, wrong, -⟩ | ⟨middle, v, grouped, h⟩
          · cases wrong
          · obtain ⟨fragments_known, inner_known⟩ := knowing.inside known_fragments here within
            obtain ⟨front, below, first, fine''⟩ := inside inner selections within fragments_known
              inner_known fine' grouped
            obtain ⟨nodes, behind, groups, fits_t⟩ := tail known_fragments behind_known fine'' h
            refine ⟨front ++ nodes, gathers_enters (keeps nofun) within below behind, ?_, fits_t⟩
            rw [groups, first, List.foldl_append]

/-- A grouping that is complete has gathered field nodes and has grouped them. -/
theorem Grouper.group_gathers {grouper : Grouper σ} {fits : Stage σ → Prop}
    (stays : ∀ directives s inclusion t, fits s →
      (grouper.inclusion directives).Gives s inclusion t → fits t)
    {selections : List Selection} {grouping : Grouping} {s t : Stage σ} (fine : fits s)
    (h : (grouper.group selections).Gives s (.complete grouping) t) :
    ∃ nodes, Gathers (grouper.Keeps fits) grouper.satisfies grouper.job.fragments selections nodes ∧
      grouping.groups = Groups.of nodes := by
  have knowing : grouper.Knowing fits (grouper.Keeps fits) fun _ => True :=
    ⟨fun selection s inclusion t _ fine included => ⟨stays _ _ _ _ fine included,
      fun finished => ⟨s, inclusion, t, fine, included, finished, rfl⟩⟩, fun _ _ _ _ _ _ => trivial⟩
  obtain ⟨nodes, gathers, groups, -⟩ := groupFrom_gathers knowing _ _
    (fun _ _ _ _ => trivial) (fun _ _ => trivial) fine h
  exact ⟨nodes, gathers, groups⟩

/-! ### Response keys -/

theorem Groups.keys_add (groups : Groups) (node : FieldNode) :
    (groups.add node).keys = addName groups.keys node.responseKey := by
  unfold Groups.add addName
  cases found : Fields.get? groups node.responseKey with
  | some group =>
      have present := Fields.mem_keys_of_get? found
      rw [if_pos present]
      exact Fields.keys_insert present
  | none =>
      have absent : node.responseKey ∉ groups.keys := by
        intro present
        obtain ⟨group, found'⟩ := Fields.get?_of_mem_keys present
        rw [found] at found'
        cases found'
      rw [if_neg absent]
      simp only [Fields.insert_of_not_mem absent]
      simp [Fields.keys]

/-- The response keys of groups are those of the nodes, in the order of the first node of each. -/
theorem Groups.keys_of (nodes : List FieldNode) :
    (Groups.of nodes).keys = (nodes.map (·.responseKey)).foldl addName [] := by
  have behind : ∀ groups : Groups, (nodes.foldl Groups.add groups).keys =
      (nodes.map (·.responseKey)).foldl addName groups.keys := by
    induction nodes with
    | nil => exact fun _ => rfl
    | cons node rest ih =>
        intro groups
        rw [List.foldl_cons, ih, Groups.keys_add]
        rfl
  exact behind []

theorem Groups.nodup_keys_of (nodes : List FieldNode) : (Groups.of nodes).keys.Nodup := by
  have behind : ∀ (keys names : List String), names.Nodup → (keys.foldl addName names).Nodup := by
    intro keys
    induction keys with
    | nil => exact fun _ distinct => distinct
    | cons key rest ih => exact fun names distinct => ih _ (nodup_addName distinct key)
  rw [Groups.keys_of]
  exact behind _ [] List.nodup_nil

/-- The response keys of a grouping differ from each other. -/
theorem Grouper.nodup_keys {grouper : Grouper σ} {selections : List Selection}
    {grouping : Grouping} {s t : Stage σ}
    (h : (grouper.group selections).Gives s (.complete grouping) t) :
    grouping.groups.keys.Nodup := by
  have any : ∀ (directives : List Directive) (s : Stage σ) (inclusion : Inclusion) (t : Stage σ),
      True → (grouper.inclusion directives).Gives s inclusion t → True :=
    fun _ _ _ _ _ _ => trivial
  obtain ⟨nodes, -, groups⟩ := group_gathers any trivial h
  rw [groups]
  exact Groups.nodup_keys_of nodes

end GraphExec
