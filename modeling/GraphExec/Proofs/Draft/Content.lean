import GraphExec.Draft.Json
import GraphExec.Proofs.Fields

/-!
# Slots of a node

An object has a slot for each of its keys, a list one for each of its places. A slot is vacant
until an entry is written to it or it is left out.
-/

namespace GraphExec

/-- The slots of a node: the keys of an object in order, or the places of a list. -/
inductive Shape where
  | object (keys : List String)
  | list (size : Nat)

/-- The slots, in the order of the response. -/
def Shape.slots : Shape → List PathSegment
  | object keys => keys.map .field
  | list size => (List.range size).map .index

namespace Content

def shape : Content → Shape
  | object _ keys => .object keys
  | list items _ => .list items.length

/-- What stands at a slot. -/
def held? : Content → PathSegment → Option Entry
  | object entries _, .field name => Fields.get? entries name
  | list items _, .index n => items[n]?.join
  | _, _ => none

/-- Whether a place of a list is left out. -/
def Skips : Content → PathSegment → Prop
  | list _ skipped, .index n => n ∈ skipped
  | _, _ => False

def Vacant (content : Content) (key : PathSegment) : Prop :=
  key ∈ content.shape.slots ∧ content.held? key = none ∧ ¬ content.Skips key

/-- Entries stand at slots that are not left out. -/
structure Neat (content : Content) : Prop where
  distinct : content.shape.slots.Nodup
  within : ∀ key entry, content.held? key = some entry →
    key ∈ content.shape.slots ∧ ¬ content.Skips key

@[simp] theorem shape_put (content : Content) (key : PathSegment) (entry : Entry) :
    (content.put key entry).shape = content.shape := by
  cases content <;> cases key <;> simp [put, shape]

@[simp] theorem shape_skip (content : Content) (key : PathSegment) :
    (content.skip key).shape = content.shape := by
  cases content <;> cases key <;> simp [skip, shape]

@[simp] theorem skips_put (content : Content) (key other : PathSegment) (entry : Entry) :
    (content.put key entry).Skips other ↔ content.Skips other := by
  cases content <;> cases key <;> cases other <;> simp [put, Skips]

theorem held?_put_of_ne {content : Content} {key other : PathSegment} (differs : other ≠ key)
    (entry : Entry) : (content.put key entry).held? other = content.held? other := by
  cases content with
  | object entries keys =>
      cases key with
      | field name =>
          cases other with
          | field name' =>
              have differs' : name ≠ name' := fun h => differs (h ▸ rfl)
              simp [put, held?, Fields.get?_insert, differs']
          | index n => rfl
      | index n => rfl
  | list items skipped =>
      cases key with
      | field name => rfl
      | index n =>
          cases other with
          | field name => rfl
          | index n' =>
              have differs' : n ≠ n' := fun h => differs (h ▸ rfl)
              simp [put, held?, List.getElem?_set_ne differs']

theorem mem_slots_field {keys : List String} {key : PathSegment} :
    key ∈ (Shape.object keys).slots ↔ ∃ name ∈ keys, key = .field name := by
  simp [Shape.slots, eq_comm]

theorem mem_slots_index {size : Nat} {key : PathSegment} :
    key ∈ (Shape.list size).slots ↔ ∃ n < size, key = .index n := by
  simp [Shape.slots, eq_comm]

theorem held?_put_self {content : Content} {key : PathSegment}
    (slot : key ∈ content.shape.slots) (entry : Entry) :
    (content.put key entry).held? key = some entry := by
  cases content with
  | object entries keys =>
      obtain ⟨name, -, rfl⟩ := mem_slots_field.mp slot
      simp [put, held?, Fields.get?_insert]
  | list items skipped =>
      obtain ⟨n, bound, rfl⟩ := mem_slots_index.mp slot
      simp [put, held?, bound]

theorem Neat.put {content : Content} (neat : content.Neat) {key : PathSegment}
    (slot : key ∈ content.shape.slots) (kept : ¬ content.Skips key) (entry : Entry) :
    (content.put key entry).Neat := by
  refine ⟨by simpa using neat.distinct, ?_⟩
  intro other found h
  rw [shape_put, skips_put]
  by_cases same : other = key
  · exact same ▸ ⟨slot, kept⟩
  · rw [held?_put_of_ne same] at h
    exact neat.within other found h

/-- Leaving out a vacant slot changes no entry. -/
theorem held?_skip {content : Content} {key : PathSegment} (vacant : content.Vacant key)
    (other : PathSegment) : (content.skip key).held? other = content.held? other := by
  obtain ⟨-, absent, -⟩ := vacant
  cases content with
  | object entries keys =>
      cases key with
      | field name => simp only [skip, Fields.erase_of_get?_eq_none absent]
      | index n => rfl
  | list items skipped =>
      cases key with
      | field name => rfl
      | index n => cases other <;> rfl

theorem skips_skip {content : Content} {key other : PathSegment} :
    (content.skip key).Skips other → other = key ∨ content.Skips other := by
  cases content <;> cases key <;> cases other <;> simp [skip, Skips]

theorem skips_of_skip {content : Content} {key other : PathSegment} (skips : content.Skips other) :
    (content.skip key).Skips other := by
  cases content <;> cases key <;> cases other <;> simp_all [skip, Skips]

theorem skips_skip_self {size : List (Option Entry)} {skipped : List Nat} {n : Nat} :
    ((Content.list size skipped).skip (.index n)).Skips (.index n) := by
  simp [skip, Skips]

theorem Neat.skip {content : Content} (neat : content.Neat) {key : PathSegment}
    (vacant : content.Vacant key) : (content.skip key).Neat := by
  refine ⟨by simpa using neat.distinct, ?_⟩
  intro other found h
  rw [held?_skip vacant] at h
  have before := neat.within other found h
  refine ⟨by simpa using before.1, fun skips => ?_⟩
  rcases skips_skip skips with rfl | skips
  · rw [vacant.2.1] at h
    cases h
  · exact before.2 skips

theorem neat_emptyObject : emptyObject.Neat :=
  ⟨List.nodup_nil, fun key entry h => by cases key <;> cases h⟩

theorem nodup_slots_list (size : Nat) : (Shape.list size).slots.Nodup := by
  refine List.pairwise_map.mpr (List.nodup_range.imp ?_)
  intro a b differs h
  injection h with h
  exact differs h

theorem held?_emptyList (size : Nat) (key : PathSegment) : (emptyList size).held? key = none := by
  cases key with
  | field name => rfl
  | index n =>
      simp only [emptyList, held?, List.getElem?_replicate]
      split <;> rfl

@[simp] theorem shape_emptyList (size : Nat) : (emptyList size).shape = .list size := by
  simp [emptyList, shape]

theorem not_skips_emptyList (size : Nat) (key : PathSegment) : ¬ (emptyList size).Skips key := by
  cases key <;> simp [emptyList, Skips]

theorem neat_emptyList (size : Nat) : (emptyList size).Neat := by
  refine ⟨by simpa using nodup_slots_list size, ?_⟩
  intro key entry h
  rw [held?_emptyList] at h
  cases h

end Content

end GraphExec
