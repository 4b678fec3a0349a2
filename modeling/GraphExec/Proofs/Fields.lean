import GraphExec.Fields

/-!
# Lookup in named entries
-/

namespace GraphExec

namespace Fields

variable {α : Type}

@[simp] theorem has_nil (name : String) : has ([] : Fields α) name = false := rfl

theorem get?_insert (fields : Fields α) (name other : String) (value : α) :
    get? (insert fields name value) other = if name = other then some value else get? fields other := by
  induction fields with
  | nil => simp [insert, get?]
  | cons entry rest ih =>
      obtain ⟨k, v⟩ := entry
      unfold insert
      by_cases same : k = name
      · subst same
        by_cases here : k = other <;> simp [get?, here]
      · by_cases here : k = other
        · subst here
          simp [get?, same, Ne.symm same]
        · simp [get?, same, here, ih]

theorem has_insert (fields : Fields α) (name other : String) (value : α) :
    has (insert fields name value) other = true ↔ other = name ∨ has fields other = true := by
  unfold has
  rw [get?_insert]
  by_cases same : name = other
  · simp [same]
  · simp [same, Ne.symm same]

theorem erase_of_get?_eq_none {fields : Fields α} {name : String}
    (absent : get? fields name = none) : Fields.erase fields name = fields := by
  induction fields with
  | nil => rfl
  | cons entry rest ih =>
      obtain ⟨k, v⟩ := entry
      unfold get? at absent
      unfold Fields.erase
      by_cases here : k = name
      · simp [here] at absent
      · simp only [here, if_false] at absent ⊢
        rw [ih absent]

/-! ### Names -/

theorem insert_of_not_mem {fields : Fields α} {name : String} (absent : name ∉ keys fields)
    (value : α) : insert fields name value = fields ++ [(name, value)] := by
  induction fields with
  | nil => rfl
  | cons entry rest ih =>
      obtain ⟨k, v⟩ := entry
      simp only [keys, List.map_cons, List.mem_cons, not_or] at absent
      unfold insert
      rw [if_neg fun h => absent.1 h.symm, ih absent.2]
      rfl

/-- Pairs under different names are entries as they stand. -/
theorem ofList_of_nodup {pairs : List (String × α)} (distinct : (pairs.map (·.1)).Nodup) :
    ofList pairs = pairs := by
  have fold : ∀ (rest : List (String × α)) (found : Fields α),
      ((found ++ rest).map (·.1)).Nodup →
      rest.foldl (fun fields pair => insert fields pair.1 pair.2) found = found ++ rest := by
    intro rest
    induction rest with
    | nil => intro found _; simp
    | cons pair rest ih =>
        intro found distinct
        have absent : pair.1 ∉ keys found := by
          rw [List.map_append, List.nodup_append] at distinct
          exact fun mem => distinct.2.2 _ mem _ (by simp) rfl
        rw [List.foldl_cons, insert_of_not_mem absent, ih]
        · simp
        · simpa using distinct
  exact fold pairs [] (by simpa using distinct)

/-- Entries that are read off under some of the names, in order. -/
theorem names_sublist {f : String → Option (String × α)}
    (named : ∀ name pair, f name = some pair → pair.1 = name) (names : List String) :
    ((names.filterMap f).map (·.1)).Sublist names := by
  induction names with
  | nil => exact .slnil
  | cons name rest ih =>
      rw [List.filterMap_cons]
      cases found : f name with
      | none => exact ih.cons name
      | some pair =>
          rw [List.map_cons, named name pair found]
          exact ih.cons_cons name

theorem mem_keys_of_get? {fields : Fields α} {name : String} {value : α}
    (found : get? fields name = some value) : name ∈ keys fields := by
  induction fields with
  | nil => cases found
  | cons entry rest ih =>
      obtain ⟨k, v⟩ := entry
      unfold get? at found
      by_cases same : k = name
      · simp [keys, same]
      · rw [if_neg same] at found
        exact List.mem_cons_of_mem _ (ih found)

theorem get?_of_mem_keys {fields : Fields α} {name : String} (mem : name ∈ keys fields) :
    ∃ value, get? fields name = some value := by
  induction fields with
  | nil => cases mem
  | cons entry rest ih =>
      obtain ⟨k, v⟩ := entry
      unfold get?
      by_cases same : k = name
      · exact ⟨v, if_pos same⟩
      · rw [if_neg same]
        refine ih ?_
        simpa [keys, Ne.symm same] using mem

theorem has_iff_mem_keys {fields : Fields α} {name : String} :
    has fields name = true ↔ name ∈ keys fields := by
  rw [has, Option.isSome_iff_exists]
  constructor
  · rintro ⟨value, found⟩
    exact mem_keys_of_get? found
  · exact get?_of_mem_keys

theorem get?_of_mem {fields : Fields α} {name : String} {value : α}
    (distinct : (keys fields).Nodup) (mem : (name, value) ∈ fields) :
    get? fields name = some value := by
  induction fields with
  | nil => cases mem
  | cons entry rest ih =>
      obtain ⟨k, v⟩ := entry
      obtain ⟨absent, distinct⟩ := List.nodup_cons.mp distinct
      rcases List.mem_cons.mp mem with same | later
      · injection same with same same'
        subst same same'
        exact if_pos rfl
      · have here : k ≠ name := by
          rintro rfl
          exact absent (List.mem_map.mpr ⟨_, later, rfl⟩)
        unfold get?
        rw [if_neg here]
        exact ih distinct later

theorem mem_of_get? {fields : Fields α} {name : String} {value : α}
    (found : get? fields name = some value) : (name, value) ∈ fields := by
  induction fields with
  | nil => cases found
  | cons entry rest ih =>
      obtain ⟨k, v⟩ := entry
      unfold get? at found
      split at found
      · rename_i same
        injection found with found
        subst same found
        exact List.mem_cons_self
      · exact List.mem_cons_of_mem _ (ih found)

theorem mem_keys {fields : Fields α} {name : String} {value : α} (mem : (name, value) ∈ fields) :
    name ∈ keys fields :=
  List.mem_map.mpr ⟨(name, value), mem, rfl⟩

theorem mem_values_of_get? {fields : Fields α} {name : String} {value : α}
    (found : get? fields name = some value) : value ∈ values fields :=
  List.mem_map.mpr ⟨_, mem_of_get? found, rfl⟩

theorem keys_insert {fields : Fields α} {name : String} {value : α}
    (present : name ∈ keys fields) : keys (insert fields name value) = keys fields := by
  induction fields with
  | nil => cases present
  | cons entry rest ih =>
      obtain ⟨k, v⟩ := entry
      unfold insert
      by_cases same : k = name
      · simp [keys, same]
      · rw [if_neg same]
        have later : name ∈ keys rest := by simpa [keys, Ne.symm same] using present
        simpa [keys] using ih later

theorem nodup_keys_insert {fields : Fields α} {name : String} {value : α}
    (distinct : (keys fields).Nodup) : (keys (insert fields name value)).Nodup := by
  by_cases present : name ∈ keys fields
  · rw [keys_insert present]
    exact distinct
  · rw [insert_of_not_mem present]
    simp only [keys, List.map_append, List.map_cons, List.map_nil] at present distinct ⊢
    refine List.nodup_append.mpr ⟨distinct, by simp, ?_⟩
    intro other mem other' mem' same
    rw [List.mem_singleton.mp mem'] at same
    exact present (same ▸ mem)

theorem mem_of_mem_insert {fields : Fields α} {name : String} {value : α}
    {entry : String × α} (mem : entry ∈ insert fields name value) :
    entry ∈ fields ∨ entry = (name, value) := by
  induction fields with
  | nil => exact .inr (List.mem_singleton.mp mem)
  | cons first rest ih =>
      obtain ⟨k, v⟩ := first
      unfold insert at mem
      split at mem
      · rename_i same
        rcases List.mem_cons.mp mem with rfl | mem
        · exact .inr (by rw [same])
        · exact .inl (List.mem_cons_of_mem _ mem)
      · rcases List.mem_cons.mp mem with rfl | mem
        · exact .inl List.mem_cons_self
        · rcases ih mem with mem | same
          · exact .inl (List.mem_cons_of_mem _ mem)
          · exact .inr same

theorem mem_insert {fields : Fields α} (distinct : (keys fields).Nodup) {name other : String}
    {value old : α} : (other, old) ∈ insert fields name value ↔
      other = name ∧ old = value ∨ (other, old) ∈ fields ∧ name ≠ other := by
  constructor
  · intro mem
    have found := get?_of_mem (nodup_keys_insert distinct) mem
    rw [get?_insert] at found
    split at found
    · rename_i same
      exact .inl ⟨same.symm, (Option.some.inj found).symm⟩
    · rename_i differs
      exact .inr ⟨mem_of_get? found, differs⟩
  · rintro (⟨rfl, rfl⟩ | ⟨mem, differs⟩)
    · exact mem_of_get? (by rw [get?_insert, if_pos rfl])
    · refine mem_of_get? ?_
      rw [get?_insert, if_neg differs, get?_of_mem distinct mem]

theorem erase_sublist (fields : Fields α) (name : String) :
    (Fields.erase fields name).Sublist fields := by
  induction fields with
  | nil => exact .slnil
  | cons first rest ih =>
      obtain ⟨k, v⟩ := first
      unfold Fields.erase
      split
      · exact List.sublist_cons_self _ _
      · exact ih.cons_cons _

theorem mem_of_mem_erase {fields : Fields α} {name : String} {value : α}
    (mem : value ∈ (Fields.erase fields name).values) : value ∈ fields.values :=
  ((erase_sublist fields name).map _).subset mem

theorem keys_erase_sublist (fields : Fields α) (name : String) :
    (keys (Fields.erase fields name)).Sublist (keys fields) :=
  (erase_sublist fields name).map _

theorem nodup_keys_erase {fields : Fields α} {name : String} (distinct : (keys fields).Nodup) :
    (keys (Fields.erase fields name)).Nodup :=
  distinct.sublist (keys_erase_sublist fields name)

theorem get?_erase_of_ne {fields : Fields α} {name other : String} (apart : other ≠ name) :
    get? (Fields.erase fields name) other = get? fields other := by
  induction fields with
  | nil => rfl
  | cons first rest ih =>
      obtain ⟨k, v⟩ := first
      unfold Fields.erase
      by_cases here : k = name
      · subst here
        rw [if_pos rfl]
        exact (if_neg (Ne.symm apart)).symm
      · rw [if_neg here]
        show (if k = other then some v else _) = if k = other then some v else _
        rw [ih]

theorem get?_of_erase {fields : Fields α} {name other : String} {value : α}
    (distinct : (keys fields).Nodup) (found : get? (Fields.erase fields name) other = some value) :
    get? fields other = some value := by
  induction fields with
  | nil => cases found
  | cons first rest ih =>
      obtain ⟨k, v⟩ := first
      obtain ⟨absent, distinct⟩ := List.nodup_cons.mp distinct
      unfold Fields.erase at found
      unfold get?
      split at found
      · rw [if_neg]
        · exact found
        · rintro rfl
          exact absent (mem_keys_of_get? found)
      · unfold get? at found
        split at found
        · rename_i here
          exact (if_pos here).trans found
        · rename_i apart
          exact (if_neg apart).trans (ih distinct found)

/-- A name that occurs once is gone when it is removed. -/
theorem get?_erase_self {fields : Fields α} {name : String} (distinct : (keys fields).Nodup) :
    get? (Fields.erase fields name) name = none := by
  induction fields with
  | nil => rfl
  | cons first rest ih =>
      obtain ⟨k, v⟩ := first
      obtain ⟨absent, distinct⟩ := List.nodup_cons.mp distinct
      unfold Fields.erase
      split
      · rename_i here
        cases found : get? rest name with
        | none => rfl
        | some value => exact absurd (mem_keys_of_get? found) (here ▸ absent)
      · rename_i apart
        rw [get?, if_neg apart]
        exact ih distinct

/-- Entries of which none is found are none. -/
theorem eq_nil_of_get? {fields : Fields α} (absent : ∀ name, get? fields name = none) :
    fields = [] := by
  cases fields with
  | nil => rfl
  | cons entry rest =>
      obtain ⟨name, value⟩ := entry
      have here := absent name
      rw [get?, if_pos rfl] at here
      cases here

/-- The names of entries that are made from a list of pairs are those of the pairs. -/
theorem has_ofList (pairs : List (String × α)) (name : String) :
    has (ofList pairs) name = true ↔ name ∈ pairs.map (·.1) := by
  have fold : ∀ (rest : List (String × α)) (found : Fields α),
      has (rest.foldl (fun fields pair => insert fields pair.1 pair.2) found) name = true ↔
        name ∈ rest.map (·.1) ∨ has found name = true := by
    intro rest
    induction rest with
    | nil => simp
    | cons pair rest ih =>
        intro found
        rw [List.foldl_cons, ih, has_insert, List.map_cons, List.mem_cons, or_left_comm, or_assoc]
  rw [ofList, fold]
  simp

end Fields

theorem mem_addName {names : List String} {name other : String} :
    other ∈ addName names name ↔ other ∈ names ∨ other = name := by
  unfold addName
  split
  · rename_i present
    constructor
    · exact .inl
    · rintro (mem | rfl)
      · exact mem
      · exact present
  · simp

theorem nodup_addName {names : List String} (distinct : names.Nodup) (name : String) :
    (addName names name).Nodup := by
  unfold addName
  split
  · exact distinct
  · rename_i absent
    refine List.nodup_append.mpr ⟨distinct, by simp, ?_⟩
    intro other mem other' mem' same
    rw [List.mem_singleton.mp mem'] at same
    exact absent (same ▸ mem)

/-- Adding a name to names without repetitions. -/
theorem addName_eraseDups (keys : List String) (key : String) :
    addName keys.eraseDups key = (keys ++ [key]).eraseDups := by
  have alone : [key].eraseDups = [key] := rfl
  unfold addName
  rw [List.eraseDups_append]
  by_cases among : key ∈ keys
  · have none_new : [key].removeAll keys = [] := by simp [List.removeAll, among]
    simp [among, none_new, List.mem_eraseDups]
  · have new : [key].removeAll keys = [key] := by simp [List.removeAll, among]
    simp [among, new, alone, List.mem_eraseDups]

end GraphExec
