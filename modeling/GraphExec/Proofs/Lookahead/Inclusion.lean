import GraphExec.Proofs.Pure.Arguments
import GraphExec.Proofs.Run.Inquiries

/-!
# Inclusion by pure code

Whether a directive leaves a node in depends on its arguments and its predicate. If the predicates
and the scalars that arguments are read by are pure, a look ahead answers the same whenever it is
asked. Arguments that are neither prepared nor loaded are there at once, so that a look ahead asks
the predicate what a gathering asks it.
-/

namespace GraphExec

variable {σ : Type} {loads : Loads}

/-- The predicates of directives are pure, and so are the scalars that read input. -/
structure Schema.PureInclusion (loads : Loads) (schema : Schema σ) : Prop where
  includes : ∀ name definition, schema.directive? name = some definition →
    ∀ keeps, definition.include? = some keeps → ∀ arguments query,
      (keeps arguments query).Settled loads fun _ => True
  scalars : ∀ name t, schema.type? name = some (.scalar t) → ∀ value,
    (t.coerceInput value).Settled loads fun _ => True

/-- An argument of the directive is prepared or loads an object. -/
def DirectiveDefinition.hasHooks (definition : DirectiveDefinition σ) : Bool :=
  definition.arguments.values.any (·.isHooked)

namespace Schema

variable {schema : Schema σ} {query : QueryContext}

open Attempt

theorem Pure.inclusion (pure : schema.Pure loads) : schema.PureInclusion loads where
  includes name definition known := (pure.directives name definition known).includes
  scalars name t known :=
    ScalarType.Pure.input (show t.Pure loads from pure.types name _ known)

namespace PureInclusion

variable (pure : schema.PureInclusion loads)

include pure

/-! ### Arguments that are there at once -/

theorem coerceEach (owner : ArgumentOwner) (raw : Fields Value) (query : QueryContext)
    (definitions : List (InputDefinition σ)) :
    (∀ definition ∈ definitions, definition.isHooked = false) → ∀ bag : Arguments,
      (schema.coerceEach owner raw query bag [] definitions).Settled loads fun result =>
        result.2 = [] := by
  induction definitions with
  | nil => exact fun _ bag => settled_pure rfl
  | cons definition rest ih =>
      intro plain bag
      have others := ih fun other mem => plain other (List.mem_cons_of_mem definition mem)
      obtain ⟨not_prepared, not_loaded⟩ := Bool.or_eq_false_iff.mp (plain _ List.mem_cons_self)
      have coerced : (schema.coerceArgument owner definition
          ((Fields.get? raw definition.name).or definition.default?)).Settled loads fun _ => True :=
        Settled.adapt (settled_coerceWithin pure.scalars _ _ _)
      have prepared (value : Value) :
          (prepareArgument definition query value).Settled loads fun _ => True := by
        unfold prepareArgument
        rw [Option.not_isSome_iff_eq_none.mp (Bool.eq_false_iff.mp not_prepared)]
        exact settled_pure trivial
      have nothing (value : Value) :
          (schema.loadArgument definition query false value).Settled loads (· = .nothing) := by
        unfold loadArgument
        rw [Option.not_isSome_iff_eq_none.mp (Bool.eq_false_iff.mp not_loaded)]
        exact settled_pure rfl
      unfold Schema.coerceEach
      refine coerced.bind fun coerced? _ => ?_
      cases coerced? with
      | none => exact others bag
      | some coerced =>
          refine (prepared coerced).bind fun value _ => (nothing value).bind fun loading same => ?_
          subst same
          exact others _

theorem coerceArguments {owner : ArgumentOwner} {definitions : Fields (InputDefinition σ)}
    (plain : definitions.values.any (·.isHooked) = false) (raw : Fields Value)
    (query : QueryContext) :
    (schema.coerceArguments owner definitions raw query).Settled loads fun coercion =>
      ∃ result, coercion = .ready result := by
  unfold Schema.coerceArguments
  refine Action.Settled.bind (pure.coerceEach owner raw query definitions.values
    (fun definition mem => by simpa using List.any_eq_false.mp plain definition mem)
    Arguments.empty) fun result known => ?_
  split
  · exact Action.settled_done ⟨_, rfl⟩
  · exact Action.settled_done ⟨_, rfl⟩
  · rename_i bag waiting some_left
    exact absurd (known (bag, waiting) rfl) some_left

/-! ### Looking ahead -/

theorem admits (query : QueryContext) (directive : Directive) :
    (schema.admits query directive).Settled loads fun _ => True := by
  unfold Schema.admits
  split
  · exact Action.settled_done trivial
  · rename_i definition known
    split
    · exact Action.settled_done trivial
    · rename_i keeps found
      split
      · exact Action.settled_done trivial
      · rename_i plain
        refine Action.Settled.bind (pure.coerceArguments (Bool.eq_false_iff.mpr plain) _ query)
          fun coercion _ => ?_
        split
        · exact pure.includes _ _ known keeps found _ query
        · exact Action.settled_done trivial
        · exact Action.settled_done trivial

theorem admitsAll (query : QueryContext) (directives : List Directive) :
    (schema.admitsAll query directives).Settled loads fun _ => True :=
  admitsAll_settled (pure.admits query) directives

end PureInclusion

/-! ### What is admitted -/

variable {directive : Directive} {definition : DirectiveDefinition σ}
  {keeps : Arguments → QueryContext → Action σ Bool}

/-- A directive that does not select admits its node. -/
theorem admits_unguarded
    (unguarded : ∀ definition, schema.directive? directive.name = some definition →
      definition.include? = none) :
    (schema.admits query directive).Answers loads true := by
  unfold Schema.admits
  split
  · rfl
  · rename_i definition known
    rw [unguarded definition known]
    rfl

/-- A directive with a hook for one of its arguments admits its node. -/
theorem admits_hooked (known : schema.directive? directive.name = some definition)
    (hooks : definition.hasHooks = true) : (schema.admits query directive).Answers loads true := by
  unfold Schema.admits
  rw [known]
  simp only
  split
  · rfl
  · exact if_pos (show definition.arguments.values.any (·.isHooked) = true from hooks) ▸ rfl

/-- A directive without hooks for its arguments says what its predicate says, and leaves its node
out if the arguments are wrong. -/
theorem admits_plain (known : schema.directive? directive.name = some definition)
    (found : definition.include? = some keeps) (plain : definition.hasHooks = false)
    {result : ArgumentsResult} {kept : Bool}
    (coerced : (schema.coerceArguments (.directive definition.name) definition.arguments
      (Literal.argumentValues query.bindings directive.arguments) query).Answers loads
        (.ready result))
    (told : ∀ arguments, result = .ok arguments → (keeps arguments query).Answers loads kept)
    (wrong : ∀ error, result = .error error → kept = false) :
    (schema.admits query directive).Answers loads kept := by
  have plain : ¬ definition.arguments.values.any (·.isHooked) = true := Bool.eq_false_iff.mp plain
  unfold Schema.admits
  simp only [known, found]
  rw [if_neg plain]
  refine Action.Answers.bind coerced ?_
  cases result with
  | ok arguments => exact told arguments rfl
  | error error => exact (wrong error rfl).symm

theorem admitsAll_kept {rest : List Directive} {kept : Bool}
    (first : (schema.admits query directive).Answers loads true)
    (behind : (schema.admitsAll query rest).Answers loads kept) :
    (schema.admitsAll query (directive :: rest)).Answers loads kept :=
  Action.Answers.bind first behind

theorem admitsAll_left (rest : List Directive)
    (first : (schema.admits query directive).Answers loads false) :
    (schema.admitsAll query (directive :: rest)).Answers loads false :=
  Action.Answers.bind first rfl

end Schema

end GraphExec
