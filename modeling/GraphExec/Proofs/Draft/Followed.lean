import GraphExec.Proofs.Draft.Nulled

/-!
# Following paths through the data

A path of a draft counts the places of a list as they were allocated, and the data of the response
only those that are not left out. Followed with the places counted as they are shown, the path to a
position that was nulled comes upon a null, at its end or on the way; and it is the path of the draft
unless a place before one on the way is left out.
-/

namespace GraphExec

namespace Json

/-- What stands one step down: the member of an object, or the item of an array. -/
def below? : Json → PathSegment → Option Json
  | json, .field name => json.member? name
  | .array items, .index n => items[n]?
  | _, .index _ => none

/-- What stands at the end of a path. -/
def at? : Json → Path → Option Json
  | json, [] => some json
  | json, key :: rest => (json.below? key).bind fun below => below.at? rest

/-- A path comes upon a null, at its end or before. -/
def LeadsToNull (json : Json) (path : Path) : Prop :=
  ∃ front, front <+: path ∧ json.at? front = some .null

theorem at?_append (json : Json) (front back : Path) :
    json.at? (front ++ back) = (json.at? front).bind (·.at? back) := by
  induction front generalizing json with
  | nil => rfl
  | cons key rest ih =>
      simp only [List.cons_append, at?]
      cases json.below? key with
      | none => rfl
      | some below => exact ih below

theorem at?_concat {json above : Json} {path : Path} (here : json.at? path = some above)
    (key : PathSegment) : json.at? (path ++ [key]) = above.below? key := by
  rw [at?_append, here]
  show (above.below? key).bind (fun below => some below) = _
  cases above.below? key <;> rfl

theorem leadsToNull_nil {json : Json} : json.LeadsToNull [] ↔ json = .null := by
  constructor
  · rintro ⟨front, before, null⟩
    obtain rfl := List.prefix_nil.mp before
    exact Option.some.inj null
  · rintro rfl
    exact ⟨[], List.prefix_rfl, rfl⟩

theorem leadsToNull_cons {json : Json} {key : PathSegment} {rest : Path} :
    json.LeadsToNull (key :: rest) ↔
      json = .null ∨ ∃ below, json.below? key = some below ∧ below.LeadsToNull rest := by
  constructor
  · rintro ⟨front, before, null⟩
    cases front with
    | nil => exact .inl (Option.some.inj null)
    | cons first front =>
        obtain ⟨rfl, behind⟩ := List.cons_prefix_cons.mp before
        obtain ⟨below, step, null⟩ := Option.bind_eq_some_iff.mp null
        exact .inr ⟨below, step, front, behind, null⟩
  · rintro (rfl | ⟨below, step, front, before, null⟩)
    · exact ⟨[], List.nil_prefix, rfl⟩
    · refine ⟨key :: front, List.cons_prefix_cons.mpr ⟨rfl, before⟩, ?_⟩
      show (json.below? key).bind _ = _
      rw [step]
      exact null

theorem LeadsToNull.of_at? {json : Json} {path : Path} (null : json.at? path = some .null) :
    json.LeadsToNull path :=
  ⟨path, List.prefix_rfl, null⟩

theorem LeadsToNull.append {json : Json} {path : Path} (leads : json.LeadsToNull path)
    (more : Path) : json.LeadsToNull (path ++ more) := by
  obtain ⟨front, before, null⟩ := leads
  exact ⟨front, before.trans (List.prefix_append _ _), null⟩

end Json

/-- The item of a list that is read off place by place, as far as a place has one. -/
theorem getElem?_filterMap_range {α : Type} (f : Nat → Option α) {size n : Nat} {a : α}
    (bound : n < size) (here : f n = some a) :
    ((List.range size).filterMap f)[(List.range n).countP fun m => (f m).isSome]? = some a := by
  have split : List.range size = List.range n ++ n :: List.range' (n + 1) (size - n - 1) := by
    rw [List.range_eq_range', List.range_eq_range', ← List.range'_succ]
    have whole := List.range'_append_1 (s := 0) (m := n) (n := size - n)
    rw [Nat.zero_add, Nat.add_sub_cancel' (Nat.le_of_lt bound)] at whole
    rw [← whole]
    congr 2
    omega
  rw [split, List.filterMap_append, ← List.length_filterMap_eq_countP,
    List.getElem?_append_right (Nat.le_refl _), Nat.sub_self, List.filterMap_cons, here]
  rfl

namespace Content

variable {content : Content} {key : PathSegment} {nodeJson : NodeId → Json}

/-- A key as the response counts it: places of a list that are left out do not count. -/
def shownKey : Content → PathSegment → PathSegment
  | list _ skipped, .index n => .index ((List.range n).countP fun m => decide (m ∉ skipped))
  | _, key => key

/-- No place of a list before a key is left out. -/
def Whole (content : Content) (key : PathSegment) : Prop :=
  ∀ n m, key = .index n → m < n → ¬ content.Skips (.index m)

theorem shownKey_eq (whole : content.Whole key) : content.shownKey key = key := by
  cases content with
  | object entries keys => rfl
  | list items skipped =>
      cases key with
      | field name => rfl
      | index n =>
          have all : (List.range n).countP (fun m => decide (m ∉ skipped)) = (List.range n).length := by
            refine List.countP_eq_length.mpr fun m mem => decide_eq_true ?_
            exact whole n m rfl (List.mem_range.mp mem)
          show PathSegment.index _ = _
          rw [all, List.length_range]

/-- What stands at a slot of a node stands there in its JSON. -/
theorem below?_json (neat : content.Neat) {entry : Entry} (held : content.held? key = some entry) :
    (content.shape.json (content.verdict nodeJson)).below? (content.shownKey key) =
      some (Draft.entryJson nodeJson entry) := by
  have slot := (neat.within key entry held).1
  have verdict : content.verdict nodeJson key = .shown (Draft.entryJson nodeJson entry) := by
    unfold verdict
    rw [held]
  cases content with
  | object entries keys =>
      obtain ⟨name, mem, rfl⟩ := mem_slots_field.mp slot
      refine Fields.get?_of_mem ?_ (List.mem_filterMap.mpr ⟨name, mem, ?_⟩)
      · have distinct : keys.Nodup := (List.pairwise_map.mp neat.distinct).imp fun differs same =>
          differs (congrArg PathSegment.field same)
        refine distinct.sublist (Fields.names_sublist ?_ keys)
        intro key pair h
        obtain ⟨json, -, rfl⟩ := Option.map_eq_some_iff.mp h
        rfl
      · rw [verdict]
        rfl
  | list items skipped =>
      obtain ⟨n, bound, rfl⟩ := mem_slots_index.mp slot
      have counts : ∀ m, decide (m ∉ skipped) =
          (((Content.list items skipped).verdict nodeJson (.index m)).json?).isSome := by
        intro m
        cases stands : (Content.list items skipped).held? (.index m) with
        | some other =>
            have kept := (neat.within _ other stands).2
            have kept' : m ∉ skipped := kept
            simp [Content.verdict, stands, Verdict.json?, kept']
        | none => by_cases left : m ∈ skipped <;> simp [Content.verdict, stands, left, Verdict.json?]
      show ((List.range items.length).filterMap _)[(List.range n).countP _]? = _
      simp only [counts]
      refine getElem?_filterMap_range _ bound ?_
      rw [verdict]
      rfl

end Content

namespace Draft

variable {draft : Draft}

/-- A key of a node as the response counts it. -/
def shownKey (draft : Draft) (id : NodeId) (key : PathSegment) : PathSegment :=
  ((draft.content? id).map (·.shownKey key)).getD key

/-- The path from the root to a node, with places counted as the response counts them. -/
def shownPath (draft : Draft) (id : NodeId) : Path :=
  ((draft.ancestors id).map fun above => draft.shownKey above.1 above.2).reverse

/-- The path from the root to a key of a node, with places counted as the response counts them. -/
def shownPathTo (draft : Draft) (id : NodeId) (key : PathSegment) : Path :=
  draft.shownPath id ++ [draft.shownKey id key]

/-- Nothing is left out before the places of lists that a path goes through. -/
def Straight (draft : Draft) (id : NodeId) (key : PathSegment) : Prop :=
  ∀ above ∈ (id, key) :: draft.ancestors id, ∀ content, draft.content? above.1 = some content →
    content.Whole above.2

theorem shownKey_eq {id : NodeId} {key : PathSegment}
    (whole : ∀ content, draft.content? id = some content → content.Whole key) :
    draft.shownKey id key = key := by
  unfold shownKey
  cases found : draft.content? id with
  | none => rfl
  | some content => exact Content.shownKey_eq (whole content found)

/-- A path along which nothing is left out is as it is shown. -/
theorem Straight.shownPathTo_eq {id : NodeId} {key : PathSegment} (straight : draft.Straight id key) :
    draft.shownPathTo id key = draft.pathTo id key := by
  have way : (draft.ancestors id).map (fun above => draft.shownKey above.1 above.2) =
      (draft.ancestors id).map (·.2) :=
    List.map_congr_left fun above mem =>
      shownKey_eq (straight above (List.mem_cons_of_mem _ mem))
  unfold shownPathTo shownPath pathTo path
  rw [way, shownKey_eq (straight (id, key) List.mem_cons_self)]

theorem shownPath_eq (rooted : draft.Rooted) {id parent : NodeId} {key : PathSegment}
    (up : draft.parent? id = some (parent, key)) :
    draft.shownPath id = draft.shownPathTo parent key := by
  unfold shownPath
  rw [ancestors_eq rooted, up, List.map_cons, List.reverse_cons]
  rfl

theorem shownPath_root (rooted : draft.Rooted) : draft.shownPath root = [] := by
  unfold shownPath
  rw [ancestors_eq rooted, rooted.parent?_root]
  rfl

/-- What stands at a slot of a node that is shown. -/
theorem at?_shownPathTo (wf : draft.Wf) {id : Nat} {key : PathSegment} {entry : Entry} {fuel : Nat}
    {data : Json} (alive : draft.Alive id)
    (here : data.at? (draft.shownPath id) = some (draft.nodeJson (fuel + 1) id))
    (held : draft.held? id key = some entry) :
    data.at? (draft.shownPathTo id key) = some (entryJson (draft.nodeJson fuel) entry) := by
  obtain ⟨node, found, -⟩ := alive.node
  have content : draft.content? id = some node.content := by
    simp [content?, found]
  have neat := wf.neat id node.content alive content
  rw [Draft.held?, content] at held
  unfold shownPathTo shownKey
  rw [Json.at?_concat here, nodeJson_eq found neat, content]
  exact Content.below?_json neat held

/-- Whoever goes down to a node finds it in the data, or comes upon a null. -/
theorem at?_shownPath (wf : draft.Wf) (buried : draft.Buried) :
    ∀ id : Nat, id < draft.nodes.size →
      (draft.Alive id → ∃ fuel, draft.nodes.size ≤ id + (fuel + 1) ∧
        draft.toJson.at? (draft.shownPath id) = some (draft.nodeJson (fuel + 1) id)) ∧
      (¬ draft.Alive id → draft.toJson.LeadsToNull (draft.shownPath id)) := by
  intro id
  induction id using Nat.strongRecOn with
  | ind id ih =>
      intro bound
      cases up : draft.parent? id with
      | none =>
          obtain rfl := wf.rooted.eq_root bound up
          rw [shownPath_root wf.rooted]
          have size : draft.nodes.size = draft.nodes.size - 1 + 1 :=
            (Nat.succ_pred_eq_of_pos (Nat.zero_lt_of_lt bound)).symm
          constructor
          · intro alive
            have shows : draft.dataIsNull = false := wf.null.symm.trans alive
            refine ⟨draft.nodes.size - 1, Nat.le_of_eq ?_, ?_⟩
            · rw [← size]
              exact (Nat.zero_add _).symm
            · rw [← size]
              simp [toJson, shows, Json.at?]
          · intro dead
            have null : draft.dataIsNull = true := by
              rw [← wf.null]
              simpa [Draft.Alive] using dead
            exact .of_at? (by simp [toJson, null, Json.at?])
      | some above =>
          obtain ⟨parent, key⟩ := above
          have less : parent < id := wf.rooted.above id parent key up
          obtain ⟨living, fallen⟩ := ih parent less (Nat.lt_trans less bound)
          rw [shownPath_eq wf.rooted up]
          constructor
          · intro alive
            obtain ⟨lives, held⟩ := wf.child id parent key alive up
            obtain ⟨fuel, enough, here⟩ := living lives
            cases fuel with
            | zero => exact absurd bound (Nat.not_lt_of_le (Nat.le_trans enough less))
            | succ fuel =>
                refine ⟨fuel, ?_, at?_shownPathTo wf lives here held⟩
                calc draft.nodes.size ≤ parent + (fuel + 1 + 1) := enough
                  _ = parent + 1 + (fuel + 1) := Nat.add_right_comm parent (fuel + 1) 1
                  _ ≤ id + (fuel + 1) := Nat.add_le_add_right less _
          · intro dead
            by_cases lives : draft.Alive parent
            · obtain ⟨fuel, -, here⟩ := living lives
              exact .of_at? (at?_shownPathTo wf lives here (buried id parent key up dead lives))
            · exact (fallen lives).append _

/-- At first nothing has fallen. -/
theorem buried_new (value : AppValue) : (new value).Buried := by
  intro id parent key up dead
  cases parent?_new.symm.trans up

/-- Whoever goes down to a position that was nulled comes upon a null. -/
theorem Nulled.leads (wf : draft.Wf) (buried : draft.Buried) {id : Nat} {key : PathSegment}
    (known : id < draft.nodes.size) (nulled : draft.Nulled id key) :
    draft.toJson.LeadsToNull (draft.shownPathTo id key) := by
  obtain ⟨living, fallen⟩ := at?_shownPath wf buried id known
  by_cases alive : draft.Alive id
  · obtain ⟨fuel, -, here⟩ := living alive
    exact .of_at? (at?_shownPathTo wf alive here (nulled alive))
  · exact (fallen alive).append _

end Draft

end GraphExec
