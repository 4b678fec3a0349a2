import Mathlib
import GraphExec.Proofs.Run.Scope
import GraphExec.Proofs.Schema.Possible

/-!
# Gathering is flattening and grouping

What a gathering pass comes to can be said without its map. The selections are flattened: field
nodes stay in document order, whatever the directives of a node leave out goes with all that is
inside, and fragments are looked into if the object suits them. Then the field nodes are put under
their response keys. While no arguments have to be waited for, a pass comes to just that.
-/

namespace GraphExec

variable {σ : Type}

/-! ### Nodes by response key -/

/-- Field nodes under their response keys: the keys in the order in which they are first seen, and
under each of them its nodes in order. -/
def FieldNodeOf.byKey (nodes : List FieldNode) : List (String × List FieldNode) :=
  (nodes.map (·.responseKey)).eraseDups.map fun key =>
    (key, nodes.filter (·.responseKey == key))

/-- The nodes of groups, under their keys. -/
def Groups.listed (groups : Groups) : List (String × List FieldNode) :=
  groups.map fun entry => (entry.1, entry.2.nodes)

open FieldNodeOf (byKey)

/-- A group that is there is replaced in its place. -/
theorem Groups.listed_insert {groups : Groups} {key : String} (group : FieldGroup)
    (distinct : groups.keys.Nodup) (present : key ∈ groups.keys) :
    Groups.listed (Fields.insert groups key group) =
      groups.listed.map fun entry => if entry.1 = key then (key, group.nodes) else entry := by
  induction groups with
  | nil => cases present
  | cons first rest ih =>
      obtain ⟨k, old⟩ := first
      obtain ⟨absent, distinct⟩ := List.nodup_cons.mp distinct
      unfold Fields.insert
      by_cases here : k = key
      · subst here
        rw [if_pos rfl]
        -- The key does not come again, so nothing else is replaced.
        have others : Groups.listed rest = (Groups.listed rest).map fun entry =>
            if entry.1 = k then (k, group.nodes) else entry := by
          refine ((List.map_congr_left ?_).trans (List.map_id _)).symm
          intro entry mem
          refine if_neg fun same => absent ?_
          obtain ⟨other, member, rfl⟩ := List.mem_map.mp mem
          exact same ▸ Fields.mem_keys member
        show (k, group.nodes) :: Groups.listed rest = _
        rw [others]
        simp [listed]
      · rw [if_neg here]
        have present := (List.mem_cons.mp present).resolve_left fun same => here same.symm
        show (k, old.nodes) :: Groups.listed (Fields.insert rest key group) = _
        rw [ih distinct present]
        simp [listed, here]

/-- A node more comes behind the others of its key, and its key behind the others if it is new. -/
theorem FieldNodeOf.byKey_append (seen : List FieldNode) (node : FieldNode) :
    byKey (seen ++ [node]) =
      (addName (seen.map (·.responseKey)).eraseDups node.responseKey).map fun key =>
        (key, seen.filter (·.responseKey == key) ++
          if node.responseKey = key then [node] else []) := by
  unfold byKey
  rw [List.map_append, List.map_singleton, addName_eraseDups]
  refine List.map_congr_left fun key _ => ?_
  rw [List.filter_append]
  by_cases same : node.responseKey = key <;> simp [same]

/-- Adding a node to groups is adding it to the nodes under their response keys. -/
theorem Groups.listed_add {groups : Groups} {seen : List FieldNode} (node : FieldNode)
    (distinct : groups.keys.Nodup) (same : groups.listed = byKey seen) :
    (groups.add node).listed = byKey (seen ++ [node]) := by
  have keys : groups.keys = (seen.map (·.responseKey)).eraseDups := by
    have keys := congrArg (List.map (·.1)) same
    simpa [listed, byKey, Fields.keys, Function.comp_def] using keys
  rw [FieldNodeOf.byKey_append, ← keys]
  unfold Groups.add addName
  cases found : Fields.get? groups node.responseKey with
  | some group =>
      have present := Fields.mem_keys_of_get? found
      have here : group.nodes = seen.filter (·.responseKey == node.responseKey) := by
        have member : (node.responseKey, group.nodes) ∈ byKey seen :=
          same ▸ List.mem_map.mpr ⟨_, Fields.mem_of_get? found, rfl⟩
        obtain ⟨key, -, held⟩ := List.mem_map.mp member
        injection held with is_key held
        exact held.symm.trans (is_key ▸ rfl)
      show Groups.listed (Fields.insert groups node.responseKey _) = _
      rw [listed_insert _ distinct present, if_pos present, same, keys]
      unfold byKey
      rw [List.map_map]
      refine List.map_congr_left fun key _ => ?_
      have longer : FieldGroup.nodes { group with others := group.others ++ [node] } =
          group.nodes ++ [node] := rfl
      by_cases is_key : key = node.responseKey
      · subst is_key
        simp [longer, here]
      · simp [is_key, Ne.symm is_key]
  | none =>
      have absent : node.responseKey ∉ groups.keys := by
        intro present
        obtain ⟨group, there⟩ := Fields.get?_of_mem_keys present
        cases found.symm.trans there
      have none_before : seen.filter (·.responseKey == node.responseKey) = [] := by
        refine List.filter_eq_nil_iff.mpr fun other mem is_key => absent ?_
        rw [keys, List.mem_eraseDups]
        exact List.mem_map.mpr ⟨other, mem, by simpa using is_key⟩
      show Groups.listed (Fields.insert groups node.responseKey ⟨node, []⟩) = _
      rw [Fields.insert_of_not_mem absent, if_neg absent, List.map_append]
      have behind : Groups.listed (groups ++ [(node.responseKey, ⟨node, []⟩)]) =
          groups.listed ++ [(node.responseKey, [node])] := List.map_append
      rw [behind, same, keys]
      unfold byKey
      refine congr (congrArg (· ++ ·) (List.map_congr_left fun key mem => ?_)) ?_
      · have other : node.responseKey ≠ key := by
          rintro rfl
          exact absent (keys ▸ mem)
        simp [other]
      · simp [none_before]

/-- Groups of nodes are the nodes under their response keys. -/
theorem Groups.listed_of (nodes : List FieldNode) : (Groups.of nodes).listed = byKey nodes := by
  have grown : ∀ more seen : List FieldNode, (Groups.of seen).listed = byKey seen →
      (Groups.of (seen ++ more)).listed = byKey (seen ++ more) := by
    intro more
    induction more with
    | nil => exact fun seen same => by simpa using same
    | cons node rest ih =>
        intro seen same
        have one : Groups.of (seen ++ [node]) = (Groups.of seen).add node := by
          simp [Groups.of]
        have whole := ih (seen ++ [node]) (one ▸ listed_add node (nodup_keys_of seen) same)
        rwa [List.append_assoc] at whole
  exact grown nodes [] rfl

/-- Under the response keys, every node is there as often as it was given. -/
theorem FieldNodeOf.byKey_perm (nodes : List FieldNode) :
    ((byKey nodes).flatMap (·.2)).Perm nodes := by
  have sorted : ∀ keys : List String, keys.Nodup → ∀ nodes : List FieldNode,
      (∀ node ∈ nodes, node.responseKey ∈ keys) →
      (keys.flatMap fun key => nodes.filter (·.responseKey == key)).Perm nodes := by
    intro keys
    induction keys with
    | nil =>
        intro _ nodes within
        cases nodes with
        | nil => exact .refl _
        | cons node _ => cases within node List.mem_cons_self
    | cons key rest ih =>
        intro distinct nodes within
        obtain ⟨absent, distinct⟩ := List.nodup_cons.mp distinct
        -- What is not under the first key is under the others.
        let others := nodes.filter fun node => !(node.responseKey == key)
        have below := ih distinct others fun node mem => by
          obtain ⟨mem, other⟩ := List.mem_filter.mp mem
          refine (List.mem_cons.mp (within node mem)).resolve_left fun same => ?_
          simp [same] at other
        have apart : (rest.flatMap fun key => nodes.filter (·.responseKey == key)) =
            rest.flatMap fun key => others.filter (·.responseKey == key) := by
          refine List.flatMap_congr fun other mem => ?_
          rw [List.filter_filter]
          refine List.filter_congr fun node _ => ?_
          by_cases here : node.responseKey = other
          · have differs : other ≠ key := fun same => absent (same ▸ mem)
            simp [here, differs]
          · simp [here]
        rw [List.flatMap_cons, apart]
        exact (below.append_left _).trans (List.filter_append_perm _ _)
  unfold byKey
  rw [List.flatMap_map]
  refine sorted _ ?_ nodes fun node mem => ?_
  · have keys := Groups.nodup_keys_of nodes
    have same := congrArg (List.map (·.1)) (Groups.listed_of nodes)
    simp only [Groups.listed, byKey, List.map_map, Function.comp_def, List.map_id'] at same
    exact same ▸ keys
  · rw [List.mem_eraseDups]
    exact List.mem_map.mpr ⟨node, mem, rfl⟩

/-- The nodes of a group are among those that are grouped. -/
theorem Groups.nodes_subset {nodes : List FieldNode} {key : String} {group : FieldGroup}
    (member : (key, group) ∈ Groups.of nodes) : group.nodes ⊆ nodes := by
  intro node mem
  refine (FieldNodeOf.byKey_perm nodes).subset (List.mem_flatMap.mpr ⟨(key, group.nodes), ?_, mem⟩)
  rw [← Groups.listed_of]
  exact List.mem_map.mpr ⟨_, member, rfl⟩

/-! ### Flattening -/

namespace Grouper

/-- The object is of a type that a type of the schema names as one of its own. -/
def Suits (grouper : Grouper σ) (condition : String) : Prop :=
  ∃ name type, grouper.job.schema.type? name = some type ∧
    type.Tells condition grouper.typeName

/-- Selections are flattened to field nodes, with the errors of the directives that fail on the
way. All fragments are at hand everywhere. -/
inductive Flattens (grouper : Grouper σ) :
    List Selection → Stage σ → List FieldNode → List ExecutionError → Stage σ → Prop
  | nil (s : Stage σ) : Flattens grouper [] s [] [] s
  | excluded {selection : Selection} {rest : List Selection} {s t u : Stage σ}
      {asked : List Asked} {nodes : List FieldNode} {errors : List ExecutionError}
      (heard : grouper.Says selection.directives s asked .excluded u)
      (after : Flattens grouper rest u nodes errors t) :
      Flattens grouper (selection :: rest) s nodes errors t
  | failed {selection : Selection} {rest : List Selection} {s t u : Stage σ}
      {asked : List Asked} {error : ExecutionError} {nodes : List FieldNode}
      {errors : List ExecutionError}
      (heard : grouper.Says selection.directives s asked (.failed error) u)
      (after : Flattens grouper rest u nodes errors t) :
      Flattens grouper (selection :: rest) s nodes (error :: errors) t
  | field {node : FieldNode} {rest : List Selection} {s t u : Stage σ} {asked : List Asked}
      {nodes : List FieldNode} {errors : List ExecutionError}
      (heard : grouper.Says (Selection.field node).directives s asked .included u)
      (after : Flattens grouper rest u nodes errors t) :
      Flattens grouper (.field node :: rest) s (node :: nodes) errors t
  | inline {condition : Option String} {directives : List Directive} {inner rest : List Selection}
      {s t u v : Stage σ} {asked : List Asked} {front nodes : List FieldNode}
      {first errors : List ExecutionError} (heard : grouper.Says directives s asked .included u)
      (suits : ∀ type, condition = some type → grouper.Suits type)
      (inside : Flattens grouper inner u front first v)
      (after : Flattens grouper rest v nodes errors t) :
      Flattens grouper (.inline condition directives inner :: rest) s (front ++ nodes)
        (first ++ errors) t
  | passed {type : String} {directives : List Directive} {inner rest : List Selection}
      {s t u : Stage σ} {asked : List Asked} {nodes : List FieldNode}
      {errors : List ExecutionError} (heard : grouper.Says directives s asked .included u)
      (other : ¬ grouper.Suits type) (after : Flattens grouper rest u nodes errors t) :
      Flattens grouper (.inline (some type) directives inner :: rest) s nodes errors t
  | spread {name : String} {directives : List Directive} {fragment : Fragment}
      {rest : List Selection} {s t u v : Stage σ} {asked : List Asked}
      {front nodes : List FieldNode} {first errors : List ExecutionError}
      (heard : grouper.Says directives s asked .included u)
      (known : Fields.get? grouper.job.fragments name = some fragment)
      (suits : grouper.Suits fragment.condition)
      (inside : Flattens grouper fragment.selections u front first v)
      (after : Flattens grouper rest v nodes errors t) :
      Flattens grouper (.spread name directives :: rest) s (front ++ nodes) (first ++ errors) t
  | apart {name : String} {directives : List Directive} {fragment : Fragment}
      {rest : List Selection} {s t u : Stage σ} {asked : List Asked} {nodes : List FieldNode}
      {errors : List ExecutionError} (heard : grouper.Says directives s asked .included u)
      (known : Fields.get? grouper.job.fragments name = some fragment)
      (other : ¬ grouper.Suits fragment.condition)
      (after : Flattens grouper rest u nodes errors t) :
      Flattens grouper (.spread name directives :: rest) s nodes errors t
  | unknown {name : String} {directives : List Directive} {rest : List Selection}
      {s t u : Stage σ} {asked : List Asked} {nodes : List FieldNode}
      {errors : List ExecutionError} (heard : grouper.Says directives s asked .included u)
      (unknown : Fields.get? grouper.job.fragments name = none)
      (after : Flattens grouper rest u nodes errors t) :
      Flattens grouper (.spread name directives :: rest) s nodes errors t

variable {grouper : Grouper σ} {s t u : Stage σ}

open Engine

/-- What directives say in turn is what the program says of them. -/
theorem Says.gives {directives : List Directive} {asked : List Asked} {inclusion : Inclusion}
    (heard : grouper.Says directives s asked inclusion t) :
    (grouper.inclusion directives).Gives s inclusion t := by
  induction heard with
  | included s => exact gives_pure.mpr ⟨rfl, rfl⟩
  | other no_guard _ ih =>
      rw [inclusion_unguarded no_guard]
      exact ih
  | kept guard looked answered _ ih =>
      rw [inclusion_guarded guard]
      exact gives_bind.mpr ⟨_, _, looked, gives_bind.mpr ⟨_, _, answered, ih⟩⟩
  | excluded guard looked answered =>
      rw [inclusion_guarded guard]
      exact gives_bind.mpr ⟨_, _, looked, gives_bind.mpr ⟨_, _, answered, gives_pure.mpr ⟨rfl, rfl⟩⟩⟩
  | failed guard looked told =>
      rw [inclusion_guarded guard]
      exact gives_bind.mpr ⟨_, _, looked, gives_bind.mpr ⟨_, _, told, gives_pure.mpr ⟨rfl, rfl⟩⟩⟩
  | waiting guard looked =>
      rw [inclusion_guarded guard]
      exact gives_bind.mpr ⟨_, _, looked, gives_pure.mpr ⟨rfl, rfl⟩⟩

/-- Directives say one thing. -/
theorem Says.unique {directives : List Directive} {asked asked' : List Asked}
    {inclusion inclusion' : Inclusion} (one : grouper.Says directives s asked inclusion t)
    (other : grouper.Says directives s asked' inclusion' u) : inclusion = inclusion' ∧ t = u :=
  one.gives.unique other.gives

/-- Selections are flattened in one way. -/
theorem Flattens.unique {selections : List Selection} {nodes nodes' : List FieldNode}
    {errors errors' : List ExecutionError} (one : grouper.Flattens selections s nodes errors t)
    (other : grouper.Flattens selections s nodes' errors' u) :
    nodes = nodes' ∧ errors = errors' ∧ t = u := by
  -- What the directives of the first node say leaves only cases in which they say the same.
  induction one generalizing nodes' errors' u with
  | nil s =>
      cases other
      exact ⟨rfl, rfl, rfl⟩
  | excluded heard after ih =>
      cases other with
      | excluded heard' after' =>
          obtain ⟨-, rfl⟩ := heard.unique heard'
          exact ih after'
      | _ => cases (heard.unique ‹Says grouper _ _ _ _ _›).1
  | failed heard after ih =>
      cases other with
      | failed heard' after' =>
          obtain ⟨same, rfl⟩ := heard.unique heard'
          injection same with same
          obtain ⟨rfl, rfl, rfl⟩ := ih after'
          exact ⟨rfl, same ▸ rfl, rfl⟩
      | _ => cases (heard.unique ‹Says grouper _ _ _ _ _›).1
  | field heard after ih =>
      cases other with
      | field heard' after' =>
          obtain ⟨-, rfl⟩ := heard.unique heard'
          obtain ⟨rfl, rfl, rfl⟩ := ih after'
          exact ⟨rfl, rfl, rfl⟩
      | _ => cases (heard.unique ‹Says grouper _ _ _ _ _›).1
  | inline heard suits inside after within behind =>
      cases other with
      | inline heard' _ inside' after' =>
          obtain ⟨-, rfl⟩ := heard.unique heard'
          obtain ⟨rfl, rfl, rfl⟩ := within inside'
          obtain ⟨rfl, rfl, rfl⟩ := behind after'
          exact ⟨rfl, rfl, rfl⟩
      | passed _ unsuited _ => exact absurd (suits _ rfl) unsuited
      | _ => cases (heard.unique ‹Says grouper _ _ _ _ _›).1
  | passed heard unsuited after ih =>
      cases other with
      | inline _ suits _ _ => exact absurd (suits _ rfl) unsuited
      | passed heard' _ after' =>
          obtain ⟨-, rfl⟩ := heard.unique heard'
          exact ih after'
      | _ => cases (heard.unique ‹Says grouper _ _ _ _ _›).1
  | spread heard known suits inside after within behind =>
      cases other with
      | spread heard' known' _ inside' after' =>
          obtain ⟨-, rfl⟩ := heard.unique heard'
          obtain rfl := Option.some.inj (known.symm.trans known')
          obtain ⟨rfl, rfl, rfl⟩ := within inside'
          obtain ⟨rfl, rfl, rfl⟩ := behind after'
          exact ⟨rfl, rfl, rfl⟩
      | apart _ known' unsuited _ =>
          obtain rfl := Option.some.inj (known.symm.trans known')
          exact absurd suits unsuited
      | unknown _ missing _ => cases known.symm.trans missing
      | _ => cases (heard.unique ‹Says grouper _ _ _ _ _›).1
  | apart heard known unsuited after ih =>
      cases other with
      | spread _ known' suits _ _ =>
          obtain rfl := Option.some.inj (known.symm.trans known')
          exact absurd suits unsuited
      | apart heard' _ _ after' =>
          obtain ⟨-, rfl⟩ := heard.unique heard'
          exact ih after'
      | unknown _ missing _ => cases known.symm.trans missing
      | _ => cases (heard.unique ‹Says grouper _ _ _ _ _›).1
  | unknown heard missing after ih =>
      cases other with
      | spread _ known _ _ _ => cases known.symm.trans missing
      | apart _ known _ _ => cases known.symm.trans missing
      | unknown heard' _ after' =>
          obtain ⟨-, rfl⟩ := heard.unique heard'
          exact ih after'
      | _ => cases (heard.unique ‹Says grouper _ _ _ _ _›).1

/-! ### Passes that wait for nothing -/

section

variable {scope : List Selection}

/-- Directives in reach never wait. -/
theorem Says.prompt {directives : List Directive} {asked : List Asked} {inclusion : Inclusion}
    (heard : grouper.Says directives s asked inclusion t)
    (asks : ∀ directive ∈ directives, ∀ definition keeps,
      directive.guard? grouper.job = some (definition, keeps) →
      grouper.Asks scope (directive.inquiry definition grouper.identity))
    (prompt : grouper.Prompt scope s) :
    grouper.Prompt scope t ∧ ∀ key, inclusion ≠ .waiting key := by
  induction heard with
  | included s => exact ⟨prompt, by intro key same; cases same⟩
  | other _ _ ih => exact ih (fun d mem => asks d (List.mem_cons_of_mem _ mem)) prompt
  | kept guard looked answered _ ih =>
      obtain ⟨-, prompt, -⟩ := Finds.lookUp prompt (asks _ List.mem_cons_self _ _ guard) looked
      have same : SameBags _ _ := keeps_call _ _ _ _ answered
      exact ih (fun d mem => asks d (List.mem_cons_of_mem _ mem)) (Finds.of_same prompt same)
  | excluded guard looked answered =>
      obtain ⟨-, prompt, -⟩ := Finds.lookUp prompt (asks _ List.mem_cons_self _ _ guard) looked
      have same : SameBags _ _ := keeps_call _ _ _ _ answered
      exact ⟨Finds.of_same prompt same, by intro key same; cases same⟩
  | failed guard looked told =>
      obtain ⟨-, prompt, -⟩ := Finds.lookUp prompt (asks _ List.mem_cons_self _ _ guard) looked
      have same : SameBags _ _ := keeps_argumentError grouper _ _ _ _ told
      exact ⟨Finds.of_same prompt same, by intro key same; cases same⟩
  | waiting guard looked =>
      obtain ⟨-, -, bag, -, ⟨result, rfl⟩, found⟩ :=
        Finds.lookUp prompt (asks _ List.mem_cons_self _ _ guard) looked
      cases found

theorem satisfies_iff (finished : grouper.job.schema.Finished) {condition : String} :
    grouper.satisfies (some condition) = true ↔ grouper.Suits condition :=
  finished.isPossibleType_iff

/-- A pass that waits for nothing is complete, and has found what flattening the selections comes
to. -/
theorem groupFrom_flattens (finished : grouper.job.schema.Finished)
    (acyclic : Fragment.Acyclic grouper.job.fragments) (available : Fields Fragment)
    (selections : List Selection) :
    ∀ {found : Grouping} {result : GroupingResult} {s t : Stage σ},
      (∀ selection : Selection, selection.Reached grouper.job.fragments selections →
        selection.Reached grouper.job.fragments scope) →
      (∀ name directives,
        (Selection.spread name directives).Reached grouper.job.fragments selections →
        Fields.get? available name = Fields.get? grouper.job.fragments name) →
      grouper.Prompt scope s →
      (grouper.groupFrom available selections found).Gives s result t →
      ∃ nodes errors, grouper.Flattens selections s nodes errors t ∧
        result = .complete ⟨nodes.foldl Groups.add found.groups, found.errors ++ errors⟩ ∧
        grouper.Prompt scope t := by
  induction available, selections using grouper.descent with
  | nil available =>
      intro found result s t _ _ prompt h
      rw [groupFrom_nil] at h
      obtain ⟨rfl, rfl⟩ := gives_pure.mp h
      exact ⟨[], [], .nil _, by simp, prompt⟩
  | cons available selection rest tail inside =>
      intro found result s t reach agree prompt gives
      obtain ⟨inclusion, u, next, included, goes_on, h⟩ := gives_cons gives
      obtain ⟨asked, heard⟩ := says_of_inclusion included
      obtain ⟨prompt, never⟩ := heard.prompt
        (fun directive written definition keeps guard =>
          .directive (reach _ (.here List.mem_cons_self)) written guard) prompt
      have behind {found : Grouping} {v : Stage σ} (prompt : grouper.Prompt scope v)
          (h : (grouper.groupFrom available rest found).Gives v result t) :=
        tail (fun other reached => reach other reached.behind)
          (fun name directives reached => agree name directives reached.behind) prompt h
      cases goes_on with
      | waiting key => exact absurd rfl (never key)
      | failed error =>
          obtain ⟨nodes, errors, after, rfl, prompt⟩ := behind prompt h
          exact ⟨nodes, error :: errors, .failed heard after, by simp [Grouping.report], prompt⟩
      | excluded =>
          obtain ⟨nodes, errors, after, rfl, prompt⟩ := behind prompt h
          exact ⟨nodes, errors, .excluded heard after, rfl, prompt⟩
      | field node same =>
          subst same
          obtain ⟨nodes, errors, after, rfl, prompt⟩ := behind prompt h
          exact ⟨node :: nodes, errors, .field heard after, rfl, prompt⟩
      | past no_field nothing =>
          obtain ⟨nodes, errors, after, rfl, prompt⟩ := behind prompt h
          have unsuited {type : String} (missed : grouper.satisfies (some type) = false) :
              ¬ grouper.Suits type := fun suits =>
            Bool.false_ne_true (missed.symm.trans ((satisfies_iff finished).mpr suits))
          rcases nothing_inside nothing no_field with
            ⟨condition, directives, within, rfl, missed⟩ | ⟨name, directives, rfl, missed⟩
          · cases condition with
            | none => cases missed
            | some type =>
                exact ⟨nodes, errors, .passed heard (unsuited missed) after, rfl, prompt⟩
          · have whole := agree name directives (.here List.mem_cons_self)
            cases known : Fields.get? grouper.job.fragments name with
            | none => exact ⟨nodes, errors, .unknown heard known after, rfl, prompt⟩
            | some fragment =>
                have missed := unsuited (missed fragment (whole.trans known))
                exact ⟨nodes, errors, .apart heard known missed after, rfl, prompt⟩
      | enters inner selections within =>
          obtain ⟨middle, v, grouped, h⟩ := gives_bind.mp h
          rcases inside_cases within with ⟨condition, directives, rfl, satisfied, rfl⟩ |
            ⟨name, directives, fragment, rfl, held, satisfied, rfl, rfl⟩
          · obtain ⟨front, first, below, rfl, prompt⟩ := inside _ _ within
              (fun other reached => reach other reached.of_inline)
              (fun name directives reached => agree name directives reached.of_inline) prompt grouped
            obtain ⟨nodes, errors, after, rfl, prompt⟩ := behind prompt h
            refine ⟨front ++ nodes, first ++ errors, .inline heard ?_ below after, by simp, prompt⟩
            rintro type rfl
            exact (satisfies_iff finished).mp satisfied
          · have known : Fields.get? grouper.job.fragments name = some fragment :=
              (agree name directives (.here List.mem_cons_self)).symm.trans held
            have member := Fields.mem_of_get? known
            -- What is spread in the fragment is at hand, for the fragment is not spread there again.
            have at_hand : ∀ other directives,
                (Selection.spread other directives).Reached grouper.job.fragments
                  fragment.selections →
                Fields.get? (Fields.erase available name) other =
                  Fields.get? grouper.job.fragments other := by
              intro other directives reached
              have apart : other ≠ name := by
                rintro rfl
                exact acyclic _ _ member _ reached
              rw [Fields.get?_erase_of_ne apart]
              exact agree other directives (reached.of_spread member)
            obtain ⟨front, first, below, rfl, prompt⟩ := inside _ _ within
              (fun other reached => reach other (reached.of_spread member)) at_hand prompt grouped
            obtain ⟨nodes, errors, after, rfl, prompt⟩ := behind prompt h
            exact ⟨front ++ nodes, first ++ errors,
              .spread heard known ((satisfies_iff finished).mp satisfied) below after, by simp, prompt⟩

end

/-- Gathering selection sets while no arguments have to be waited for comes to the field nodes that
flattening them in order comes to, under their response keys: each as often as it is reached. -/
theorem group_flattens {sets : List (List Selection)} {result : GroupingResult}
    (finished : grouper.job.schema.Finished) (acyclic : Fragment.Acyclic grouper.job.fragments)
    (prompt : grouper.Prompt sets.flatten s)
    (h : (grouper.group sets.flatten).Gives s result t) :
    ∃ nodes errors grouping,
      (∀ nodes' errors' u, grouper.Flattens sets.flatten s nodes' errors' u ↔
        nodes' = nodes ∧ errors' = errors ∧ u = t) ∧
      result = .complete grouping ∧ grouping.errors = errors ∧
      grouping.groups.listed = byKey nodes ∧
      (grouping.groups.listed.flatMap (·.2)).Perm nodes := by
  obtain ⟨nodes, errors, flattens, same, -⟩ := groupFrom_flattens finished acyclic _ _
    (fun _ reached => reached) (fun _ _ _ => rfl) prompt h
  have listed : Groups.listed (nodes.foldl Groups.add []) = byKey nodes := Groups.listed_of nodes
  refine ⟨nodes, errors, _, fun nodes' errors' u => ⟨fun other => ?_, ?_⟩, same, rfl, listed, ?_⟩
  · exact other.unique flattens
  · rintro ⟨rfl, rfl, rfl⟩
    exact flattens
  · show (Groups.listed (nodes.foldl Groups.add [])).flatMap (·.2) |>.Perm nodes
    rw [listed]
    exact FieldNodeOf.byKey_perm nodes

/-! ### An order -/

/-- A schema with one field. -/
def menu : SchemaBuilder Unit :=
  (SchemaBuilder.new "Query").register (.object
    { name := "Query", fields := [("soup", { name := "soup", type := .named "String" })] })

/-- What it comes to when it is finished. -/
def menuSchema : Schema Unit where
  types := menu.types
  queryType := "Query"
  mutationType? := none
  subscriptionType? := none
  directives := menu.directives
  possible := [("Query", ["Query"])]
  hooks := {}

theorem menu_finish : menu.finish = .ok menuSchema := rfl

/-- A field without selections. -/
def dish (name : String) (offset : Nat) (directives : List Directive) : FieldNode :=
  ⟨none, name, [], directives, [], ⟨1, offset + 1⟩, offset⟩

/-- The fragment `fragment Course on Query { soup cake }`. -/
def course : Fragment where
  name := "Course"
  condition := "Query"
  selections := [.field (dish "soup" 98 []), .field (dish "cake" 103 [])]
  location := ⟨1, 74⟩

/-- The directive `@skip(if: true)`. -/
def notToday : Directive := ⟨"skip", [("if", .bool true)], ⟨1, 8⟩, 7⟩

/-- What `{ soup @skip(if: true) ...Course ... on Bill { cake } ...Course }` selects. -/
def orders : List (List Selection) :=
  [[.field (dish "soup" 2 [notToday]), .spread "Course" [],
    .inline (some "Bill") [] [.field (dish "cake" 50 [])], .spread "Course" []]]

/-- Who gathers the order. -/
def waiter : Grouper Unit where
  job :=
    { schema := menuSchema
      operation := ⟨none, .query, [], orders.flatten, ⟨1, 1⟩⟩
      fragments := [("Course", course)]
      query := ⟨[], none, none⟩
      root := .null }
  typeName := "Query"
  identity := .data 0
  path := []

/-- A stage at which nothing has been done yet. -/
def table : Stage Unit :=
  ⟨⟨Draft.new .null, [], [], [], [], 0, 1⟩, ⟨(), fun _ state => state, []⟩⟩

theorem course_acyclic : Fragment.Acyclic waiter.job.fragments := by
  intro name fragment known directives reached
  have only : fragment = course := (Prod.mk.inj (List.mem_singleton.mp known)).2
  subst only
  have among := reached.mem_nested
  simp [course, waiter, Fields.values, Selection.nested, Selection.inPlace] at among

/-- The arguments `(if: true)`. -/
def whenTrue : Arguments where
  values := [("if", .bool true)]
  details :=
    [("if", ⟨"if", .nonNull (.named "Boolean"), .bool true, some (.bool true), false, .finished⟩)]

theorem orders_prompt : waiter.Prompt orders.flatten table := by
  rintro inquiry ⟨reached, written, guard⟩
  rename_i selection directive definition keeps
  have only : directive = notToday := by
    have among := reached.mem_nested
    simp only [orders, course, waiter, Fields.values, Selection.nested, Selection.inPlace,
      List.flatten_cons, List.flatten_nil, List.append_nil, List.nil_append, List.map_cons,
      List.map_nil, List.flatMap_cons, List.flatMap_nil, List.cons_append, List.mem_cons,
      List.not_mem_nil, or_false] at among
    rcases among with rfl | rfl | rfl | rfl | rfl | rfl | rfl
    · exact List.mem_singleton.mp written
    all_goals cases written
  subst only
  have same : some (DirectiveDefinition.conditional "skip" not, _) = some (definition, keeps) :=
    guard
  injection same with same
  injection same with same
  subst same
  intro world
  exact ⟨.ok whenTrue, by cbv⟩

/-- The offsets of the nodes that are gathered. -/
def offsets : Except FatalError GroupingResult → List (String × List Nat)
  | .ok (.complete grouping) =>
    grouping.groups.listed.map fun entry => (entry.1, entry.2.map (·.offset))
  | _ => []

theorem group_flattens_orders : ∃ nodes errors grouping t,
    (waiter.group orders.flatten).Gives table (.complete grouping) t ∧
      (∀ nodes' errors' u, waiter.Flattens orders.flatten table nodes' errors' u ↔
        nodes' = nodes ∧ errors' = errors ∧ u = t) ∧
      grouping.errors = errors ∧ grouping.groups.listed = byKey nodes ∧
      (grouping.groups.listed.flatMap (·.2)).Perm nodes ∧
      grouping.groups.listed.map (fun entry => (entry.1, entry.2.map (·.offset))) =
        [("soup", [98, 98]), ("cake", [103, 103])] := by
  have finished : waiter.job.schema.Finished := ⟨menu, .register (.new "Query") _, menu_finish⟩
  have ran : offsets ((waiter.group orders.flatten).runAt table).1 =
      [("soup", [98, 98]), ("cake", [103, 103])] := by cbv
  obtain ⟨grouping, t, gives, listed⟩ : ∃ grouping t,
      (waiter.group orders.flatten).Gives table (.complete grouping) t ∧
        grouping.groups.listed.map (fun entry => (entry.1, entry.2.map (·.offset))) =
          [("soup", [98, 98]), ("cake", [103, 103])] := by
    rcases run : (waiter.group orders.flatten).runAt table with ⟨error | ⟨grouping | key⟩, t⟩
    · rw [run] at ran
      cases ran
    · rw [run] at ran
      exact ⟨grouping, t, run, ran⟩
    · rw [run] at ran
      cases ran
  obtain ⟨nodes, errors, grouping', flattens, same, told, keyed, perm⟩ :=
    group_flattens finished course_acyclic orders_prompt gives
  injection same with same
  subst same
  exact ⟨nodes, errors, grouping, t, gives, flattens, told, keyed, perm, listed⟩

end Grouper

end GraphExec
