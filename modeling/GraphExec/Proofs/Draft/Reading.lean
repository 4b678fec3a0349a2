import GraphExec.Proofs.Draft.Shows

/-!
# Reading off a finished plan

When no task is left, the data that a draft is read off as are what it shows.
-/

namespace GraphExec

/-- The verdict on a slot without a task. -/
def Content.verdict (nodeJson : NodeId → Json) (content : Content) (key : PathSegment) : Verdict :=
  match content.held? key, content, key with
  | some entry, _, _ => .shown (Draft.entryJson nodeJson entry)
  | none, .list _ skipped, .index n => if n ∈ skipped then .omitted else .shown .null
  | none, _, _ => .omitted

namespace Draft

theorem contentJson_list (nodeJson : NodeId → Json) (items : List (Option Entry))
    (skipped : List Nat) (neat : (Content.list items skipped).Neat) :
    contentJson nodeJson (.list items skipped) =
      (Shape.list items.length).json ((Content.list items skipped).verdict nodeJson) := by
  have step : ∀ (rest : List (Option Entry)) (start : Nat),
      (∀ i, i < rest.length → ∀ h : start + i < items.length, rest[i]? = some items[start + i]) →
      start + rest.length = items.length →
      ((rest.zipIdx start).filter fun x => !skipped.contains x.2).map
          (fun x => (x.1.map (entryJson nodeJson)).getD .null) =
        (List.range' start rest.length).filterMap fun n =>
          ((Content.list items skipped).verdict nodeJson (.index n)).json? := by
    intro rest
    induction rest with
    | nil => intro start _ _; rfl
    | cons item rest ih =>
        intro start same size
        have bound : start < items.length := by
          simp only [List.length_cons] at size
          omega
        have here : items[start]? = some item := by
          have h := same 0 (by simp) (by simpa using bound)
          simpa [List.getElem?_eq_getElem bound] using h.symm
        have tail := ih (start + 1) (by
          intro i less h
          have h' := same (i + 1) (by simpa using less) (by omega)
          simpa [Nat.add_assoc, Nat.add_comm 1 i] using h') (by
            simp only [List.length_cons] at size
            omega)
        have entry : (Content.list items skipped).held? (.index start) = item := by
          simp [Content.held?, here]
        simp only [List.zipIdx_cons, List.length_cons, List.range'_succ, List.filterMap_cons,
          List.filter_cons]
        rw [← tail]
        cases item with
        | some e =>
            have kept : start ∉ skipped := (neat.within (.index start) e entry).2
            simp [Content.verdict, entry, kept, Verdict.json?]
        | none =>
            by_cases left : start ∈ skipped
            · simp [Content.verdict, entry, left, Verdict.json?]
            · simp [Content.verdict, entry, left, Verdict.json?]
  unfold contentJson Shape.json
  simp only [Json.array.injEq]
  rw [List.range_eq_range']
  exact step items 0 (fun i less h => by simp [List.getElem?_eq_getElem less]) (by simp)

theorem contentJson_object (nodeJson : NodeId → Json) (entries : Fields Entry)
    (keys : List String) (neat : (Content.object entries keys).Neat) :
    contentJson nodeJson (.object entries keys) =
      (Shape.object keys).json ((Content.object entries keys).verdict nodeJson) := by
  have order : (if keys.isEmpty then entries.keys else keys) = keys := by
    cases keys with
    | cons _ _ => rfl
    | nil =>
        cases entries with
        | nil => rfl
        | cons entry rest =>
            have here : (Content.object (entry :: rest) []).held? (.field entry.1) = some entry.2 := by
              simp [Content.held?, Fields.get?]
            cases (neat.within _ _ here).1
  have distinct : keys.Nodup := by
    refine (List.pairwise_map.mp neat.distinct).imp ?_
    intro a b differs same
    exact differs (congrArg PathSegment.field same)
  have read : (fun key => (Fields.get? entries key).map fun entry =>
      (key, entryJson nodeJson entry)) = fun key =>
        (((Content.object entries keys).verdict nodeJson (.field key)).json?).map
          fun json => (key, json) := by
    funext key
    cases found : Fields.get? entries key with
    | none => simp [Content.verdict, Content.held?, found, Verdict.json?]
    | some entry => simp [Content.verdict, Content.held?, found, Verdict.json?]
  unfold contentJson Shape.json
  simp only [order, Json.object.injEq, read]
  refine Fields.ofList_of_nodup (distinct.sublist (Fields.names_sublist ?_ keys))
  intro key pair h
  obtain ⟨json, -, rfl⟩ := Option.map_eq_some_iff.mp h
  rfl

/-- The JSON of a node, slot by slot. -/
theorem nodeJson_eq {draft : Draft} {id : NodeId} {node : Node} (found : draft.node? id = some node)
    (neat : node.content.Neat) (fuel : Nat) :
    draft.nodeJson (fuel + 1) id =
      node.content.shape.json (node.content.verdict (draft.nodeJson fuel)) := by
  simp only [nodeJson, found]
  cases here : node.content with
  | object entries keys => exact contentJson_object _ entries keys (here ▸ neat)
  | list items skipped => exact contentJson_list _ items skipped (here ▸ neat)

end Draft

namespace Plan

variable {T : Type} {spot : T → Spot} {comes : T → Verdict → Prop}

/-- A node of a plan without tasks shows its JSON. -/
theorem shows_nodeJson {draft : Draft} (wf : draft.Wf) :
    ∀ (fuel id : Nat), draft.Alive id → draft.nodes.size ≤ id + fuel →
      Shows spot comes ⟨draft, []⟩ (.node id) (.shown (draft.nodeJson fuel id)) := by
  intro fuel
  induction fuel with
  | zero =>
      intro id alive bound
      exact absurd alive.lt_size (Nat.not_lt.mpr bound)
  | succ fuel ih =>
      intro id alive bound
      obtain ⟨node, found, -⟩ := alive.node
      have content : draft.content? id = some node.content := by
        simp [Draft.content?, found]
      have neat := wf.neat id node.content alive content
      have idle : ∀ s, ¬ TaskAt spot (⟨draft, []⟩ : Plan T) s := by
        rintro s ⟨task, mem, -⟩
        cases mem
      rw [Draft.nodeJson_eq found neat]
      refine .shown (idle _) content ?_ ?_
      · intro key slot
        cases entry : node.content.held? key with
        | some e =>
            have at_slot : draft.held? id key = some e := by
              simpa [Draft.held?, content] using entry
            have verdict : node.content.verdict (draft.nodeJson fuel) key =
                .shown (Draft.entryJson (draft.nodeJson fuel) e) := by
              simp [Content.verdict, entry]
            rw [verdict]
            cases e with
            | leaf value => exact .leaf at_slot
            | node child =>
                obtain ⟨lives, up⟩ := wf.entry id key child alive at_slot
                have deeper := wf.rooted.above child id key up
                have below := ih child lives (by omega)
                exact .node at_slot below
        | none =>
            refine .blank (idle _) content entry ?_
            cases here : node.content with
            | object entries keys =>
                rw [here] at entry
                simp [Content.Blank, Content.verdict, entry]
            | list items skipped =>
                rw [here] at entry slot
                obtain ⟨n, -, rfl⟩ := Content.mem_slots_index.mp slot
                by_cases left : n ∈ skipped
                · exact .inl ⟨left, by simp [Content.verdict, entry, left]⟩
                · exact .inr ⟨left, by simp [Content.verdict, entry, left]⟩
      · intro key slot
        unfold Content.verdict
        split
        · exact fun h => by cases h
        · split <;> exact fun h => by cases h
        · exact fun h => by cases h

/-- A plan that starts with a task at the root. -/
def start (value : AppValue) (task : T) : Plan T := ⟨.new value, [task]⟩

theorem tidy_start (value : AppValue) {task : T} (here : spot task = .node Draft.root) :
    Tidy spot (start value task) where
  wf := Draft.wf_new value
  apart := List.pairwise_singleton _ _
  free t mem _ := by
    rw [List.mem_singleton.mp mem, here]
    rfl
  known t mem := by
    rw [List.mem_singleton.mp mem, here]
    exact Nat.zero_lt_one

/-- The data that a finished plan is read off as are those that its first task comes to. -/
theorem Reaches.toJson_eq {value : AppValue} {task : T} {draft : Draft}
    (here : spot task = .node Draft.root)
    (reaches : Reaches spot comes (start value task) ⟨draft, []⟩) :
    ∃ verdict, comes task verdict ∧ draft.toJson = verdict.data ∧ verdict ≠ .omitted := by
  have tidy := tidy_start value here
  have last := reaches.tidy tidy
  have first_shows : ∀ {v}, Outcome spot comes (start value task) v → comes task v := by
    intro v outcome
    rcases outcome with ⟨null, -⟩ | ⟨-, shows⟩
    · cases null
    · exact shows.of_task tidy List.mem_cons_self here rfl
  cases null : draft.dataIsNull with
  | true =>
      have outcome : Outcome spot comes ⟨draft, []⟩ .invalid := .inl ⟨null, rfl⟩
      refine ⟨.invalid, first_shows (reaches.back tidy outcome), ?_, by simp⟩
      simp [Draft.toJson, null, Verdict.data, Verdict.json?]
  | false =>
      have alive : draft.Alive Draft.root := (alive_root_iff last).mpr null
      have shows : Shows spot comes ⟨draft, []⟩ (.node Draft.root)
          (.shown (draft.nodeJson draft.nodes.size Draft.root)) :=
        shows_nodeJson last.wf draft.nodes.size Draft.root alive (Nat.le_add_left _ _)
      refine ⟨_, first_shows (reaches.back tidy (.inr ⟨null, shows⟩)), ?_, by simp⟩
      simp [Draft.toJson, null, Verdict.data, Verdict.json?]

end Plan

end GraphExec
