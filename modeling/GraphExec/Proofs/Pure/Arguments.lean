import GraphExec.Proofs.Input.Cases
import GraphExec.Proofs.Pure.Schema
import GraphExec.Selection.Lookahead

/-!
# Arguments of pure schemas

In a pure schema the arguments that are written at a node come to one bag, at once or later. A look
ahead is settled too.
-/

namespace GraphExec

variable {σ ε α β : Type} {loads : Loads}

namespace Attempt

/-- The code fails, or answers one thing of a kind. -/
def Settled (loads : Loads) (holds : α → Prop) (attempt : Attempt σ ε α) : Prop :=
  attempt.run.Settled loads fun result => ∀ a, result = .ok a → holds a

variable {holds : α → Prop} {holds' : β → Prop}

theorem settled_pure {a : α} (fine : holds a) :
    (pure a : Attempt σ ε α).Settled loads holds := by
  refine Action.settled_done fun b same => ?_
  injection same with same
  exact same ▸ fine

theorem settled_throw {error : ε} : (throw error : Attempt σ ε α).Settled loads holds :=
  Action.settled_done fun _ wrong => by cases wrong

theorem Settled.bind {attempt : Attempt σ ε α} {f : α → Attempt σ ε β}
    (settled : attempt.Settled loads holds) (then_ : ∀ a, holds a → (f a).Settled loads holds') :
    (attempt >>= f).Settled loads holds' := by
  refine Action.Settled.bind (f := ExceptT.bindCont f) settled fun result fine => ?_
  cases result with
  | ok a => exact then_ a (fine a rfl)
  | error error => exact Action.settled_done fun _ wrong => by cases wrong

theorem Settled.map {attempt : Attempt σ ε α} {f : α → β}
    (settled : attempt.Settled loads holds) (fine : ∀ a, holds a → holds' (f a)) :
    (f <$> attempt).Settled loads holds' := by
  refine Action.Settled.bind settled fun result known => ?_
  cases result with
  | ok a => exact settled_pure (fine a (known a rfl))
  | error error => exact Action.settled_done fun _ wrong => by cases wrong

theorem Settled.adapt {δ : Type} {tell : δ → ε} {attempt : Attempt σ δ α}
    (settled : attempt.Settled loads holds) :
    Settled loads holds (ExceptT.adapt tell attempt : ExceptT ε (Action σ) α) := by
  refine Action.Settled.bind settled fun result known => ?_
  cases result with
  | ok a => exact settled_pure (known a rfl)
  | error error => exact Action.settled_done fun _ wrong => by cases wrong

theorem settled_callOr {δ : Type} {tell : δ → ε} {action : Action σ (Except δ α)}
    (settled : action.Settled loads fun result => ∀ a, result = .ok a → holds a) :
    (callOr tell action : Attempt σ ε α).Settled loads holds := by
  refine Action.Settled.bind settled fun result known => ?_
  cases result with
  | ok a => exact settled_pure (known a rfl)
  | error error => exact Action.settled_done fun _ wrong => by cases wrong

theorem settled_call {action : Action σ α} (settled : action.Settled loads holds) :
    (call action : Attempt σ ε α).Settled loads holds :=
  Action.Settled.bind settled fun _ fine => settled_pure fine

end Attempt

namespace Schema

variable {schema : Schema σ}

open Attempt

/-! ### Values that come in -/

/-- If its scalars are settled, a coercion is settled in every case. -/
theorem settled_cases
    (scalars : ∀ name t, schema.type? name = some (.scalar t) → ∀ value,
      (t.coerceInput value).Settled loads fun _ => True) : schema.CoercionCases
    (fun n type given? => (schema.coerceWithin n type given?).Settled loads fun _ => True)
    (fun n typeName name definition given? =>
      (schema.coerceField typeName name definition given? n).Settled loads fun _ => True)
    (fun n typeName definitions given =>
      (schema.coerceFields n typeName definitions given).Settled loads fun _ => True)
    (fun n type items => (schema.coerceItems n type items).Settled loads fun _ => True) where
  required n inner given? null := by
    rw [coerceWithin_required null]
    exact settled_throw
  nullable n type given? null nullable := by
    rw [coerceWithin_nullable null nullable]
    exact settled_pure trivial
  nonNull n inner value not_null ih := by
    rw [coerceWithin_nonNull not_null]
    exact ih
  list n item values ih := by
    rw [coerceWithin_list]
    exact Settled.bind ih fun _ _ => settled_pure trivial
  single n item value not_null not_list ih := by
    rw [coerceWithin_single not_null not_list]
    exact Settled.bind ih fun _ _ => settled_pure trivial
  scalar n name t value known not_null := by
    have fine := scalars name t known value
    rw [coerceWithin_scalar known not_null]
    exact Settled.map (settled_callOr (fine.mono fun _ _ _ _ => trivial)) fun _ _ => trivial
  enum n name t value known not_null := by
    rw [coerceWithin_enum known not_null]
    exact Settled.map (settled_callOr (Action.settled_done fun _ _ => trivial)) fun _ _ => trivial
  inputObject n name t given known ih := by
    rw [coerceWithin_inputObject known]
    refine Settled.bind ih ?_
    rintro ⟨coerced, rest⟩ -
    cases rest with
    | nil => exact settled_pure trivial
    | cons entry rest => exact settled_throw
  no_object n name t value known not_null not_object := by
    rw [coerceWithin_no_object known not_null not_object]
    exact settled_throw
  no_input n name value no_input not_null := by
    rw [coerceWithin_no_input no_input not_null]
    exact settled_throw
  given n typeName name definition value ih := by
    rw [coerceField_given]
    exact ih
  without n typeName name definition without ih := by
    rw [coerceField_without without]
    exact ih
  endless typeName name definition value stands := by
    rw [coerceField_zero stands]
    exact settled_throw
  default n typeName name definition value stands ih := by
    rw [coerceField_succ stands]
    exact ih
  no_fields n typeName given := by
    rw [coerceFields_nil]
    exact settled_pure trivial
  fields n typeName name definition others given here behind := by
    rw [coerceFields_cons]
    exact Settled.bind (Settled.adapt here) fun _ _ =>
      Settled.bind behind fun _ _ => settled_pure trivial
  no_items n type := by
    rw [coerceItems_nil]
    exact settled_pure trivial
  items n type item rest first behind := by
    rw [coerceItems_cons]
    exact Settled.bind first fun _ _ => Settled.bind behind fun _ _ => settled_pure trivial

/-- Every coercion of input is settled if that of scalars is. -/
theorem settled_coerceWithin
    (scalars : ∀ name t, schema.type? name = some (.scalar t) → ∀ value,
      (t.coerceInput value).Settled loads fun _ => True)
    (defaults : Nat) (type : TypeRef) (value? : Option Value) :
    (schema.coerceWithin defaults type value?).Settled loads fun _ => True :=
  (settled_cases scalars).within defaults type value?

/-- In a pure schema every coercion of input is settled. -/
theorem Pure.coerceWithin (pure : schema.Pure loads) (defaults : Nat) (type : TypeRef)
    (value? : Option Value) :
    (schema.coerceWithin defaults type value?).Settled loads fun _ => True :=
  settled_coerceWithin
    (fun name t known => ScalarType.Pure.input (show t.Pure loads from pure.types name _ known)) _ _ _

end Schema

/-! ### Loads that wait -/

/-- What a load waits for is settled. -/
structure DeferredLoad.Pure (loads : Loads) (load : DeferredLoad σ) : Prop where
  object : load.object.Settled loads fun _ => True
  authorization : ∀ answer, load.authorization? = some answer →
    answer.Settled loads fun _ => True

/-- What a load waits for, if it waits, is settled. -/
def Loading.Pure (loads : Loads) (loading : Loading σ) : Prop :=
  ∀ load, loading = .deferred load → load.Pure loads

/-- Code that takes time, and may fail, is settled. -/
def SettledLater (loads : Loads) (code : ExceptT ε (Lazy σ) α) : Prop :=
  code.run.Settled loads fun _ => True

theorem settledLater_pure (a : α) : SettledLater loads (pure a : ExceptT ε (Lazy σ) α) :=
  Lazy.settled_done trivial

theorem settledLater_throw (error : ε) :
    SettledLater loads (throw error : ExceptT ε (Lazy σ) α) :=
  Lazy.settled_done trivial

theorem SettledLater.bind {code : ExceptT ε (Lazy σ) α} {f : α → ExceptT ε (Lazy σ) β}
    (settled : SettledLater loads code) (then_ : ∀ a, SettledLater loads (f a)) :
    SettledLater loads (code >>= f) := by
  refine Lazy.Settled.bind (f := ExceptT.bindCont f) settled fun result _ => ?_
  cases result with
  | ok a => exact then_ a
  | error error => exact Lazy.settled_done trivial

theorem settledLater_lift {holds : α → Prop} {lazy : Lazy σ α} {f : α → ExceptT ε (Lazy σ) β}
    (settled : lazy.Settled loads holds) (then_ : ∀ a, holds a → SettledLater loads (f a)) :
    SettledLater loads (ExceptT.lift lazy >>= f) := by
  have lifted : (ExceptT.lift lazy : ExceptT ε (Lazy σ) α).run.Settled loads fun result =>
      ∃ a, result = .ok a ∧ holds a :=
    Lazy.Settled.bind settled fun a fine => Lazy.settled_done ⟨a, rfl, fine⟩
  refine Lazy.Settled.bind (f := ExceptT.bindCont f) lifted fun result known => ?_
  obtain ⟨a, rfl, fine⟩ := known
  exact then_ a fine

namespace Schema

variable {schema : Schema σ}

open Attempt

theorem Pure.authorizeLoaded (pure : schema.Pure loads) (typeName : String) (object : AppValue)
    (query : QueryContext) :
    (schema.authorizeLoaded typeName object query).Settled loads fun answer =>
      answer.Settled loads fun _ => True := by
  unfold Schema.authorizeLoaded
  split
  · rename_i authorize found
    obtain ⟨type, known, found⟩ := Option.bind_eq_some_iff.mp found
    unfold objectType? at known
    split at known
    · rename_i t known'
      injection known with known
      subst known
      have fine : t.Pure loads := pure.types typeName _ known'
      exact fine.authorizes authorize found object query
    · cases known
  · exact Action.settled_done trivial

theorem Pure.loadArgument (pure : schema.Pure loads) {definition : InputDefinition σ}
    (fine : definition.Pure loads) (query : QueryContext) (waiting : Bool) (value : Value) :
    (schema.loadArgument definition query waiting value).Settled loads (Loading.Pure loads) := by
  unfold Schema.loadArgument
  split
  · exact settled_pure nofun
  · rename_i typeName load found
    split
    · exact settled_pure nofun
    · have loading : (Attempt.callOr .ofResolverError (load value query) :
          Attempt σ ArgumentError _).Settled loads fun answer => answer.Settled loads fun _ => True :=
        settled_callOr (fine.loading typeName load found value query)
      refine loading.bind fun answer settled => ?_
      have later : ∀ authorization? : Option (Answer σ ResolverError Bool),
          (∀ answer, authorization? = some answer → answer.Settled loads fun _ => True) →
          (Loading.deferred ⟨definition.name, typeName, answer, authorization?⟩).Pure loads := by
        intro authorization? known load same
        injection same with same
        exact same ▸ ⟨settled, known⟩
      split
      · refine (settled_call (pure.authorizeLoaded typeName _ query)).bind fun allowed known => ?_
        split
        · exact settled_pure nofun
        · exact settled_throw
        · refine settled_pure (later _ fun other same => ?_)
          injection same with same
          exact same ▸ known
      · exact settled_pure (later none nofun)

theorem Pure.coerceEach (pure : schema.Pure loads) (owner : ArgumentOwner) (raw : Fields Value)
    (query : QueryContext) (definitions : List (InputDefinition σ)) :
    ∀ (bag : Arguments) (waiting : List (DeferredLoad σ)),
      (∀ definition ∈ definitions, definition.Pure loads) →
      (∀ load ∈ waiting, load.Pure loads) →
      (schema.coerceEach owner raw query bag waiting definitions).Settled loads fun result =>
        ∀ load ∈ result.2, load.Pure loads := by
  induction definitions with
  | nil => exact fun bag waiting _ fine => settled_pure fine
  | cons definition rest ih =>
      intro bag waiting fine loads_fine
      have own := fine definition List.mem_cons_self
      have others := fun other mem => fine other (List.mem_cons_of_mem definition mem)
      unfold Schema.coerceEach
      have coerced : (schema.coerceArgument owner definition
          ((Fields.get? raw definition.name).or definition.default?)).Settled loads fun _ => True :=
        Settled.adapt (pure.coerceWithin _ _ _)
      refine coerced.bind fun coerced? _ => ?_
      cases coerced? with
      | none => exact ih bag waiting others loads_fine
      | some coerced =>
          have prepared : (prepareArgument definition query coerced).Settled loads
              fun _ => True := by
            unfold prepareArgument
            split
            · rename_i prepare found
              exact settled_callOr ((own.prepares prepare found coerced query).mono
                fun _ _ _ _ => trivial)
            · exact settled_pure trivial
          refine prepared.bind fun value _ => ?_
          refine (pure.loadArgument own query _ value).bind fun loading known => ?_
          cases loading with
          | nothing => exact ih _ waiting others loads_fine
          | loaded object => exact ih _ waiting others loads_fine
          | deferred load =>
              refine ih _ _ others fun other mem => ?_
              rcases List.mem_append.mp mem with mem | mem
              · exact loads_fine other mem
              · rw [List.mem_singleton.mp mem]
                exact known load rfl

theorem settledLater_await {answer : Answer σ ResolverError α}
    (settled : answer.Settled loads fun _ => True) : SettledLater loads (await answer) := by
  cases answer with
  | ready a => exact settledLater_pure a
  | later lazy =>
      obtain ⟨result, answers, -⟩ := settled
      have weak : lazy.Settled loads fun _ => True := ⟨result, answers, trivial⟩
      exact weak.bind fun _ _ => Lazy.settled_done trivial

theorem Pure.finishLoads (pure : schema.Pure loads) (query : QueryContext)
    (waiting : List (DeferredLoad σ)) :
    ∀ bag : Arguments, (∀ load ∈ waiting, load.Pure loads) →
      SettledLater loads (schema.finishLoads query bag waiting) := by
  induction waiting with
  | nil => exact fun bag _ => settledLater_pure bag
  | cons load rest ih =>
      intro bag fine
      have own := fine load List.mem_cons_self
      have others := fun other mem => fine other (List.mem_cons_of_mem load mem)
      unfold Schema.finishLoads
      refine (settledLater_await own.object).bind fun object => ?_
      have finish : ∀ authorization : Answer σ ResolverError Bool,
          authorization.Settled loads (fun _ => True) → SettledLater loads (do
            if ← await authorization then
              let bag := { bag with loaded := Fields.insert bag.loaded load.name object }
              schema.finishLoads query bag rest
            else throw (.unauthorized (.object load.typeName))) := by
        intro authorization settled
        refine (settledLater_await settled).bind fun allowed => ?_
        split
        · exact ih _ others
        · exact settledLater_throw _
      split
      · rename_i authorization found
        exact finish authorization (own.authorization authorization found)
      · exact settledLater_lift
          (Lazy.settled_ofAction (pure.authorizeLoaded load.typeName object query)) finish

/-- The arguments of a pure schema come to one bag, at once or later. -/
theorem Pure.coerceArguments (pure : schema.Pure loads) {owner : ArgumentOwner}
    {definitions : Fields (InputDefinition σ)}
    (fine : ∀ definition ∈ definitions.values, definition.Pure loads) (raw : Fields Value)
    (query : QueryContext) :
    (schema.coerceArguments owner definitions raw query).Settled loads fun coercion =>
      ∀ lazy, coercion = .pending lazy → lazy.Settled loads fun _ => True := by
  unfold Schema.coerceArguments
  refine Action.Settled.bind
    (pure.coerceEach owner raw query definitions.values Arguments.empty [] fine nofun)
    fun result known => ?_
  split
  · exact Action.settled_done nofun
  · exact Action.settled_done nofun
  · rename_i bag waiting _
    refine Action.settled_done fun lazy same => ?_
    injection same with same
    exact same ▸ pure.finishLoads query waiting bag (known _ rfl)

/-! ### Looking ahead -/

theorem Pure.admits (pure : schema.Pure loads) (query : QueryContext) (directive : Directive) :
    (schema.admits query directive).Settled loads fun _ => True := by
  unfold Schema.admits
  split
  · exact Action.settled_done trivial
  · rename_i definition known
    have own := pure.directives _ definition known
    split
    · exact Action.settled_done trivial
    · rename_i keeps found
      split
      · exact Action.settled_done trivial
      · refine Action.Settled.bind (pure.coerceArguments own.arguments _ query)
          fun coercion _ => ?_
        split
        · exact own.includes keeps found _ query
        · exact Action.settled_done trivial
        · exact Action.settled_done trivial

/-- Directives that are asked in turn come to an answer, if each of them does. -/
theorem admitsAll_settled {query : QueryContext}
    (admits : ∀ directive, (schema.admits query directive).Settled loads fun _ => True)
    (directives : List Directive) :
    (schema.admitsAll query directives).Settled loads fun _ => True := by
  induction directives with
  | nil => exact Action.settled_done trivial
  | cons directive rest ih =>
      unfold Schema.admitsAll
      refine Action.Settled.bind (admits directive) fun kept _ => ?_
      split
      · exact ih
      · exact Action.settled_done trivial

theorem Pure.admitsAll (pure : schema.Pure loads) (query : QueryContext)
    (directives : List Directive) :
    (schema.admitsAll query directives).Settled loads fun _ => True :=
  admitsAll_settled (pure.admits query) directives

end Schema

end GraphExec
