import GraphExec.Proofs.Run.Frame

/-!
# What completing a position amounts to

A position is completed by writing a value, by leaving it out, or by opening a list or handing over
to the building of an object. `Completes` tells which value leads to which of these, and what the
application was asked on the way.
-/

namespace GraphExec

variable {σ : Type}

/-- What a position is completed with. -/
inductive Outcome (σ : Type) where
  /-- A finished value; unless it is checked, even a null that is ruled out. -/
  | leaf (value : Value) (checked : Bool)
  /-- Nothing: it is left out. -/
  | omitted
  /-- A list of nothing but errors. -/
  | refusals (itemType : TypeRef) (size : Nat)
  /-- A list. -/
  | items (itemType : TypeRef) (cursor : DirectiveCursor σ) (values : List (ResolvedValue σ))
  /-- An object that is to be built. -/
  | object (step : ObjectStep σ)

/-- What coerces the leaves of a type. -/
def TypeDefinition.leafCoercion? : TypeDefinition σ → Option (Value → Action σ (Except String Value))
  | scalar t => some t.coerceResult
  | enum t => some fun value => pure (t.coerce value)
  | _ => none

/-- What a leaf is written as that was coerced. -/
def coercedLeaf : Except String Value → Value
  | .ok value => value
  | .error _ => .null

/-- The items of a list. -/
def ResolvedValue.items? : ResolvedValue σ → Option (List (ResolvedValue σ))
  | .list items => some items
  | .value (.list items) => some (items.map .value)
  | _ => none

def ResolvedValue.isLeafLike : ResolvedValue σ → Bool
  | .value _ => true
  | _ => false

/-- How the building of an object begins. -/
def ObjectState.ofType : TypeDefinition σ → ObjectState σ
  | .object t => .authorize t
  | abstractType => .resolveType abstractType

/-- Values that can stand at a position of any type. -/
def ResolvedValue.Anywhere : ResolvedValue σ → Prop
  | .value .null => True
  | .error _ => True
  | .skip => True
  | .raw _ => True
  | .lazy _ => True
  | .unauthorized _ => True
  | .list items => items ≠ [] ∧ items.all (·.isError) = true
  | _ => False

/-- A value of none of those forms can stand at positions of its own type only. -/
theorem ResolvedValue.not_anywhere {value : ResolvedValue σ} (no_lazy : ∀ later, value ≠ .lazy later)
    (no_refusal : ∀ refusal, value ≠ .unauthorized refusal) (not_null : value ≠ .value .null)
    (no_error : ∀ error, value ≠ .error error) (no_skip : value ≠ .skip)
    (no_raw : ∀ v, value ≠ .raw v) (no_items : ∀ first rest, value ≠ .list (first :: rest)) :
    ¬ value.Anywhere := by
  cases value with
  | value v =>
      cases v with
      | null => exact absurd rfl not_null
      | _ => exact id
  | list items =>
      cases items with
      | nil => exact fun both => both.1 rfl
      | cons first rest => exact absurd rfl (no_items first rest)
  | object o => exact id
  | lazy later => exact absurd rfl (no_lazy later)
  | unauthorized refusal => exact absurd rfl (no_refusal refusal)
  | error error => exact absurd rfl (no_error error)
  | skip => exact absurd rfl no_skip
  | raw v => exact absurd rfl (no_raw v)

namespace Position

/-- Which value completes a position with what. -/
inductive Completes (job : Job σ) (position : Position σ) (s : Stage σ) :
    ResolvedValue σ → Outcome σ → Prop
  | null : Completes job position s (.value .null) (.leaf .null true)
  | error (error : ExecutionError) : Completes job position s (.error error) (.leaf .null true)
  | skip : Completes job position s .skip .omitted
  | raw (value : Value) : Completes job position s (.raw value) (.leaf value false)
  | refusals {items : List (ResolvedValue σ)} {itemType : TypeRef} (some_item : items ≠ [])
      (errors : items.all (·.isError) = true) (type : position.type.nullable = .list itemType) :
    Completes job position s (.list items) (.refusals itemType items.length)
  | refused {items : List (ResolvedValue σ)} (some_item : items ≠ [])
      (errors : items.all (·.isError) = true)
      (type : ∀ itemType, position.type.nullable ≠ .list itemType) :
    Completes job position s (.list items) (.leaf .null true)
  | items {value : ResolvedValue σ} {items : List (ResolvedValue σ)} {itemType : TypeRef}
      (other : ¬ value.Anywhere) (type : position.type.nullable = .list itemType)
      (list : value.items? = some items) :
    Completes job position s value
      (.items itemType (.new job.schema (·.resolveEach?) position.site.directives) items)
  | leaf {value : Value} {name : String} {type : TypeDefinition σ}
      {coerce : Value → Action σ (Except String Value)} {coerced : Except String Value}
      (other : value ≠ .null) (named : position.type.nullable = .named name)
      (known : job.schema.type? name = some type) (leaf : type.leafCoercion? = some coerce)
      (answer : ((coerce value).run s.world).1 = coerced) :
    Completes job position s (.value value) (.leaf (coercedLeaf coerced) true)
  | misfit {value : ResolvedValue σ} {name : String} {type : TypeDefinition σ}
      (other : ¬ value.Anywhere) (not_plain : value.isLeafLike = false)
      (named : position.type.nullable = .named name)
      (known : job.schema.type? name = some type) (leaf : type.leafCoercion?.isSome = true) :
    Completes job position s value (.leaf .null true)
  | object {value : ResolvedValue σ} {name : String} {type : TypeDefinition σ} {v : AppValue}
      {subject : Subject} (other : ¬ value.Anywhere)
      (named : position.type.nullable = .named name)
      (known : job.schema.type? name = some type) (composite : type.leafCoercion? = none)
      (output : ∀ t, type ≠ .inputObject t) (made : objectValue? value = some v)
      (same : subject.value = v) :
    Completes job position s value
      (.object ⟨.child position, subject, position.site.selections, false, .ofType type⟩)

end Position

/-! ### What is written, and which steps follow -/

/-- Nulls at places of a list, from a place on. -/
def Draft.nullItems (list : NodeId) (nonNull : Bool) : Nat → Nat → Draft → Draft
  | _, 0, draft => draft
  | start, size + 1, draft =>
    nullItems list nonNull (start + 1) size (draft.setLeaf list (.index start) .null nonNull)

/-- The steps of the items of a list, from a place on. -/
def Position.itemSteps (position : Position σ) (list : NodeId) (itemType : TypeRef)
    (cursor : DirectiveCursor σ) (n : Nat) : List (ResolvedValue σ) → List (Step σ)
  | [] => []
  | item :: rest =>
    .item ⟨position.item list itemType n, .runDirectives cursor item⟩ ::
      position.itemSteps list itemType cursor (n + 1) rest

namespace Outcome

def draft (position : Position σ) (draft : Draft) : Outcome σ → Draft
  | leaf value checked =>
    draft.setLeaf position.parent position.key value (checked && position.nonNull)
  | omitted => draft.skip position.parent position.key
  | refusals itemType size =>
    Draft.nullItems draft.nodes.size itemType.isNonNull 0 size
      (draft.newList position.parent position.key size position.nonNull).2
  | items _ _ values =>
    (draft.newList position.parent position.key values.length position.nonNull).2
  | object _ => draft

def steps (position : Position σ) (draft : Draft) : Outcome σ → List (Step σ)
  | items itemType cursor values =>
    position.itemSteps draft.nodes.size itemType cursor 0 values
  | object step => [.object step]
  | _ => []

end Outcome

/-- A stage is left with another draft, and with steps behind those that are ready. -/
structure Enters (s t : Stage σ) (draft : Draft) (steps : List (Step σ)) : Prop where
  draft : t.run.draft = draft
  ready : t.run.ready = s.run.ready ++ steps
  held : t.run.held = s.run.held
  parked : t.run.parked = s.run.parked

namespace Enters

variable {s t u : Stage σ} {draft : Draft} {steps : List (Step σ)}

theorem of_same (same : SameTree s t) : Enters s t s.run.draft [] :=
  ⟨same.draft, by rw [same.ready, List.append_nil], same.held, same.parked⟩

theorem after_same (same : SameTree s t) (enters : Enters t u draft steps) :
    Enters s u draft steps :=
  ⟨enters.draft, by rw [enters.ready, same.ready], enters.held.trans same.held,
    enters.parked.trans same.parked⟩

theorem trans {draft' : Draft} {steps' : List (Step σ)} (first : Enters s t draft steps)
    (second : Enters t u draft' steps') : Enters s u draft' (steps ++ steps') :=
  ⟨second.draft, by rw [second.ready, first.ready, List.append_assoc],
    second.held.trans first.held, second.parked.trans first.parked⟩

end Enters

namespace Position

open Engine

variable {position : Position σ} {s t : Stage σ} {R : Stage σ → Stage σ → Prop} [Outside R]

theorem keeps_report (position : Position σ) (error : ExecutionError) :
    Keeps R (position.report error : Engine σ Unit) :=
  keeps_bind keeps_draft fun _ => Engine.keeps_report _

theorem enters_write {value : Value} {a : Unit} (h : (position.write value).Gives s a t) :
    Enters s t ((Outcome.leaf value true : Outcome σ).draft position s.run.draft) [] := by
  obtain rfl := gives_modifyDraft.mp h
  exact ⟨by simp [Outcome.draft], (List.append_nil _).symm, rfl, rfl⟩

theorem enters_writeNull {a : Unit} (h : position.writeNull.Gives s a t) :
    Enters s t ((Outcome.leaf .null true : Outcome σ).draft position s.run.draft) [] := by
  unfold writeNull at h
  split at h
  · obtain ⟨_, u, reported, written⟩ := gives_bind.mp h
    have same : SameTree _ _ := keeps_report position _ _ _ _ reported
    exact .after_same same (same.draft ▸ enters_write written)
  · exact enters_write h

theorem enters_writeError {error : ExecutionError} {a : Unit}
    (h : (position.writeError error).Gives s a t) :
    Enters s t ((Outcome.leaf .null true : Outcome σ).draft position s.run.draft) [] := by
  obtain ⟨_, u, reported, written⟩ := gives_bind.mp h
  have same : SameTree _ _ := keeps_report position _ _ _ _ reported
  exact .after_same same (same.draft ▸ enters_write written)

theorem enters_writeLeaf {coerced : Except String Value} {a : Unit}
    (h : (position.writeLeaf coerced).Gives s a t) :
    Enters s t ((Outcome.leaf (coercedLeaf coerced) true : Outcome σ).draft position s.run.draft)
      [] := by
  unfold writeLeaf at h
  cases coerced with
  | error message => exact enters_writeError h
  | ok value =>
      simp only at h
      split at h
      · rename_i null
        have is_null : value = .null := by cases value <;> first | rfl | cases null
        subst is_null
        exact enters_writeNull h
      · exact enters_write h

/-! ### Lists -/

theorem enters_openList {size : Nat} {list : NodeId} (h : (position.openList size).Gives s list t) :
    list = s.run.draft.nodes.size ∧
      Enters s t (s.run.draft.newList position.parent position.key size position.nonNull).2 [] := by
  obtain ⟨here, rfl⟩ := gives_allocate.mp h
  exact ⟨here.symm, rfl, (List.append_nil _).symm, rfl, rfl⟩

theorem enters_writeErrorItems {list : NodeId} {itemType : TypeRef} :
    ∀ {errors : List ExecutionError} {n : Nat} {s t : Stage σ} {a : Unit},
      (position.writeErrorItems list itemType n errors).Gives s a t →
      Enters s t (Draft.nullItems list itemType.isNonNull n errors.length s.run.draft) [] := by
  intro errors
  induction errors with
  | nil =>
      intro n s t a h
      obtain ⟨-, rfl⟩ := gives_pure.mp h
      exact .of_same (.refl s)
  | cons error rest ih =>
      intro n s t a h
      obtain ⟨_, u, written, others⟩ := gives_bind.mp h
      have first := enters_writeError written
      have behind := ih others
      rw [first.draft] at behind
      have both := first.trans behind
      rwa [List.append_nil] at both

theorem keeps_reportAll (position : Position σ) (errors : List ExecutionError) :
    Keeps R (position.reportAll errors : Engine σ Unit) := by
  induction errors with
  | nil => exact keeps_pure _
  | cons error rest ih => exact keeps_bind (keeps_report position error) fun _ => ih

theorem enters_enqueueItems {list : NodeId} {itemType : TypeRef} {cursor : DirectiveCursor σ} :
    ∀ {items : List (ResolvedValue σ)} {n : Nat} {s t : Stage σ} {a : Unit},
      (position.enqueueItems list itemType cursor n items).Gives s a t →
      Enters s t s.run.draft (position.itemSteps list itemType cursor n items) := by
  intro items
  induction items with
  | nil =>
      intro n s t a h
      obtain ⟨-, rfl⟩ := gives_pure.mp h
      exact .of_same (.refl s)
  | cons item rest ih =>
      intro n s t a h
      obtain ⟨_, u, queued, others⟩ := gives_bind.mp h
      obtain rfl := gives_enqueue.mp queued
      have behind := ih others
      exact ⟨behind.draft, by rw [behind.ready]; simp [itemSteps], behind.held,
        behind.parked⟩

/-! ### Completion -/

theorem length_errors {items : List (ResolvedValue σ)} (errors : items.all (·.isError) = true) :
    (ResolvedValue.errors items).length = items.length := by
  induction items with
  | nil => rfl
  | cons item rest ih =>
      simp only [List.all_cons, Bool.and_eq_true] at errors
      cases item with
      | error error => simpa [ResolvedValue.errors] using ih errors.2
      | _ => cases errors.1

/-- A position is completed, and left as the outcome says. -/
def Finishes (job : Job σ) (position : Position σ) (s : Stage σ) (value : ResolvedValue σ)
    (t : Stage σ) : Prop :=
  ∃ outcome, position.Completes job s value outcome ∧
    Enters s t (outcome.draft position s.run.draft) (outcome.steps position s.run.draft)

variable {job : Job σ} {value : ResolvedValue σ}

theorem finishes_errors {items : List (ResolvedValue σ)} {a : Unit} (some_item : items ≠ [])
    (errors : items.all (·.isError) = true)
    (h : (position.completeErrors (ResolvedValue.errors items)).Gives s a t) :
    position.Finishes job s (.list items) t := by
  unfold completeErrors at h
  split at h
  · rename_i itemType type
    refine ⟨.refusals itemType items.length, .refusals some_item errors type, ?_⟩
    obtain ⟨list, u, opened, written⟩ := gives_bind.mp h
    obtain ⟨rfl, first⟩ := enters_openList opened
    have behind := enters_writeErrorItems written
    rw [first.draft, length_errors errors] at behind
    exact first.trans behind
  · rename_i other
    refine ⟨.leaf .null true, .refused some_item errors other, ?_⟩
    obtain ⟨_, u, reported, written⟩ := gives_bind.mp h
    have same : SameTree _ _ := keeps_reportAll position _ _ _ _ reported
    exact .after_same same (same.draft ▸ enters_write written)

theorem finishes_list {itemType : TypeRef} {items : List (ResolvedValue σ)} {a : Unit}
    (other : ¬ value.Anywhere) (type : position.type.nullable = .list itemType)
    (list : value.items? = some items)
    (h : (position.completeList job itemType items).Gives s a t) :
    position.Finishes job s value t := by
  refine ⟨_, .items other type list, ?_⟩
  obtain ⟨node, u, opened, queued⟩ := gives_bind.mp h
  obtain ⟨rfl, first⟩ := enters_openList opened
  have behind := enters_enqueueItems queued
  rw [first.draft] at behind
  exact first.trans behind

theorem finishes_leaf {name : String} {type : TypeDefinition σ}
    {coerce : Value → Action σ (Except String Value)} {a : Unit} (other : ¬ value.Anywhere)
    (named : position.type.nullable = .named name) (known : job.schema.type? name = some type)
    (leaf : type.leafCoercion? = some coerce)
    (h : (position.completeLeaf name coerce value).Gives s a t) :
    position.Finishes job s value t := by
  unfold completeLeaf at h
  split at h
  · rename_i v
    have some_value : v ≠ .null := by
      rintro rfl
      exact other trivial
    obtain ⟨coerced, u, answered, written⟩ := gives_bind.mp h
    obtain ⟨answer, rfl⟩ := gives_call.mp answered
    have same : SameTree s ⟨s.run, ((coerce v).run s.world).2⟩ := ⟨rfl, rfl, rfl, rfl⟩
    have entered := enters_writeLeaf written
    exact ⟨_, .leaf some_value named known leaf answer, .after_same same entered⟩
  · rename_i no_value
    have not_plain : value.isLeafLike = false := by
      cases value with
      | value v => exact absurd rfl (no_value v)
      | _ => rfl
    exact ⟨_, .misfit other not_plain named known (by rw [leaf]; rfl), enters_writeLeaf h⟩

theorem identify_value {v : AppValue} {subject : Subject}
    (h : (Engine.identify v).Gives s subject t) : subject.value = v := by
  cases v with
  | object o =>
      obtain ⟨rfl, -⟩ := gives_pure.mp h
      rfl
  | data value =>
      obtain ⟨n, u, -, h⟩ := gives_bind.mp h
      obtain ⟨_, u', -, h⟩ := gives_bind.mp h
      obtain ⟨rfl, -⟩ := gives_pure.mp h
      rfl

theorem finishes_object {name : String} {type : TypeDefinition σ} {a : Unit}
    (other : ¬ value.Anywhere) (named : position.type.nullable = .named name)
    (known : job.schema.type? name = some type) (composite : type.leafCoercion? = none)
    (output : ∀ t, type ≠ .inputObject t)
    (h : (position.completeObject type value).Gives s a t) :
    position.Finishes job s value t := by
  unfold completeObject at h
  split at h
  · exact absurd h not_gives_throw
  · rename_i v made
    obtain ⟨subject, u, told, queued⟩ := gives_bind.mp h
    have same : SameTree _ _ := Engine.keeps_identify v _ _ _ told
    refine ⟨_, .object other named known composite output made (identify_value told), ?_⟩
    obtain rfl := gives_enqueue.mp queued
    have state : (match type with
        | .object t => ObjectState.authorize t
        | abstractType => .resolveType abstractType) = .ofType type := by
      cases type <;> rfl
    refine ⟨same.draft, ?_, same.held, same.parked⟩
    rw [← state]
    exact congrArg (· ++ _) same.ready

theorem finishes_byType {a : Unit} (other : ¬ value.Anywhere)
    (h : (position.completeByType job value).Gives s a t) : position.Finishes job s value t := by
  unfold completeByType at h
  split at h
  · rename_i itemType type
    split at h
    · exact finishes_list other type rfl h
    · exact finishes_list other type rfl h
    · obtain ⟨_, _, -, h⟩ := gives_bind.mp h
      exact absurd h not_gives_throw
  · rename_i name named
    split at h
    · exact finishes_leaf other named ‹_› rfl h
    · exact finishes_leaf other named ‹_› rfl h
    · exact absurd h not_gives_throw
    · rename_i type not_scalar not_enum not_input known
      refine finishes_object other named known ?_ not_input h
      cases type with
      | scalar t => exact absurd rfl (not_scalar t)
      | enum t => exact absurd rfl (not_enum t)
      | _ => rfl
    · exact absurd h not_gives_throw
  · exact absurd h not_gives_throw

/-- Completing a position waits for a lazy value, has a refused value replaced, or is done as the
value demands. -/
theorem complete_cases {completion : Completion σ}
    (h : (position.complete job value).Gives s completion t) :
    (∃ later, value = .lazy later ∧ completion = .waiting later ∧ t = s) ∨
      (∃ refusal answer, value = .unauthorized refusal ∧
        (Engine.call (job.schema.unauthorized refusal job.query)).Gives s answer t ∧
        completion = .replaced (match answer with
          | .ok replacement => replacement
          | .error error => .error error)) ∨
      completion = .done ∧ position.Finishes job s value t := by
  have wrote : ∀ {program : Engine σ Unit},
      (program >>= fun _ => pure Completion.done).Gives s completion t →
      (∀ a, program.Gives s a t → position.Finishes job s value t) →
      completion = .done ∧ position.Finishes job s value t := by
    intro program h finishes
    obtain ⟨a, u, ran, done⟩ := gives_bind.mp h
    obtain ⟨rfl, rfl⟩ := gives_pure.mp done
    exact ⟨rfl, finishes a ran⟩
  unfold complete at h
  split at h
  · rename_i later
    obtain ⟨rfl, rfl⟩ := gives_pure.mp h
    exact .inl ⟨later, rfl, rfl, rfl⟩
  · rename_i refusal
    obtain ⟨answer, u, answered, h⟩ := gives_bind.mp h
    refine .inr (.inl ⟨refusal, answer, rfl, ?_⟩)
    cases answer with
    | ok replacement =>
        obtain ⟨rfl, rfl⟩ := gives_pure.mp h
        exact ⟨answered, rfl⟩
    | error error =>
        obtain ⟨rfl, rfl⟩ := gives_pure.mp h
        exact ⟨answered, rfl⟩
  · exact .inr (.inr (wrote h fun _ ran => ⟨_, .null, enters_writeNull ran⟩))
  · exact .inr (.inr (wrote h fun _ ran => ⟨_, .error _, enters_writeError ran⟩))
  · refine .inr (.inr (wrote h fun _ ran => ⟨_, .skip, ?_⟩))
    obtain rfl := gives_modifyDraft.mp ran
    exact ⟨rfl, (List.append_nil _).symm, rfl, rfl⟩
  · refine .inr (.inr (wrote h fun _ ran => ⟨_, .raw _, ?_⟩))
    obtain rfl := gives_modifyDraft.mp ran
    exact ⟨rfl, (List.append_nil _).symm, rfl, rfl⟩
  · rename_i first rest
    split at h
    · rename_i errors
      exact .inr (.inr (wrote h fun _ ran => finishes_errors (List.cons_ne_nil _ _) errors ran))
    · rename_i no_errors
      exact .inr (.inr (wrote h fun _ ran => finishes_byType (fun both => no_errors both.2) ran))
  · rename_i no_lazy no_refusal not_null no_error no_skip no_raw no_items
    exact .inr (.inr (wrote h fun _ ran => finishes_byType (ResolvedValue.not_anywhere no_lazy
      no_refusal not_null no_error no_skip no_raw no_items) ran))

theorem finishes_of_done (completed : (position.complete job value).Gives s .done t) :
    position.Finishes job s value t := by
  rcases complete_cases completed with ⟨_, -, same, -⟩ | ⟨_, _, -, -, same⟩ | ⟨-, finishes⟩
  · cases same
  · cases same
  · exact finishes

theorem complete_waiting {later : Lazy σ (FieldResult σ)}
    (completed : (position.complete job value).Gives s (.waiting later) t) :
    value = .lazy later ∧ t = s := by
  rcases complete_cases completed with ⟨_, lazy, same, rfl⟩ | ⟨_, _, -, -, same⟩ | ⟨same, -⟩
  · cases same
    exact ⟨lazy, rfl⟩
  · cases same
  · cases same

theorem complete_replaced {replacement : ResolvedValue σ}
    (completed : (position.complete job value).Gives s (.replaced replacement) t) :
    ∃ refusal answer, value = .unauthorized refusal ∧
      (Engine.call (job.schema.unauthorized refusal job.query)).Gives s answer t ∧
      replacement = match answer with
        | .ok replacement => replacement
        | .error error => .error error := by
  rcases complete_cases completed with
    ⟨_, -, same, -⟩ | ⟨refusal, answer, refused, answered, same⟩ | ⟨same, -⟩
  · cases same
  · injection same with same
    exact ⟨refusal, answer, refused, answered, same⟩
  · cases same

end Position

end GraphExec
