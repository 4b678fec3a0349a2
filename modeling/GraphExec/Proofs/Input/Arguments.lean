import GraphExec.Proofs.Pure.Recursion

/-!
# Arguments one by one

What each argument comes to by itself: it is coerced, prepared, loaded and authorized, and whatever
of it takes time is told by what it answers in the end. A bag of arguments is filled with what they
come to, in the order of the definitions, and there is none if one of them fails. This is what the
coercion of all of them comes to, whichever loads it has put off.
-/

namespace GraphExec

variable {σ ε α β : Type}

/-! ### What code answers unless it fails -/

/-- What the code answers at a state unless it fails. -/
def Attempt.answer? (state : σ) (attempt : Attempt σ ε α) : Option α :=
  (attempt.run.answer state).toOption

/-- What an answer comes to in the end unless it fails. -/
def Answer.result? (loads : Loads) (state : σ) (answer : Answer σ ε α) : Option α :=
  (answer.result loads state).toOption

/-- What code that takes time answers in the end unless it fails. -/
def lateAnswer? (loads : Loads) (state : σ) (code : ExceptT ε (Lazy σ) α) : Option α :=
  (code.run.answer loads state).toOption

theorem toOption_mapError {δ : Type} (tell : δ → ε) (result : Except δ α) :
    (result.mapError tell).toOption = result.toOption := by
  cases result <;> rfl

namespace Attempt

variable {state : σ}

@[simp] theorem answer?_pure (a : α) : (pure a : Attempt σ ε α).answer? state = some a := rfl

@[simp] theorem answer?_throw (error : ε) :
    (throw error : Attempt σ ε α).answer? state = none := rfl

@[simp] theorem answer?_bind (attempt : Attempt σ ε α) (f : α → Attempt σ ε β) :
    (attempt >>= f).answer? state = (attempt.answer? state).bind fun a => (f a).answer? state := by
  have split : (attempt >>= f).run.answer state =
      (ExceptT.bindCont f (attempt.run.answer state)).answer state :=
    Action.answer_bind state attempt.run (ExceptT.bindCont f)
  unfold answer?
  rw [split]
  cases attempt.run.answer state with
  | ok a => rfl
  | error error => rfl

@[simp] theorem answer?_adapt {δ : Type} (tell : δ → ε) (attempt : Attempt σ δ α) :
    answer? state (ExceptT.adapt tell attempt : ExceptT ε (Action σ) α) =
      attempt.answer? state := by
  refine Eq.trans (congrArg Except.toOption ?_) (toOption_mapError tell _)
  exact Action.answer_bind state attempt.run _

@[simp] theorem answer?_callOr {δ : Type} (tell : δ → ε) (action : Action σ (Except δ α)) :
    (callOr tell action : Attempt σ ε α).answer? state = (action.answer state).toOption := by
  refine Eq.trans (congrArg Except.toOption ?_) (toOption_mapError tell _)
  exact Action.answer_bind state action _

@[simp] theorem answer?_call (action : Action σ α) :
    (call action : Attempt σ ε α).answer? state = some (action.answer state) := by
  have split : (call action : Attempt σ ε α).run.answer state = .ok (action.answer state) :=
    Action.answer_bind state action _
  unfold answer?
  rw [split]
  rfl

@[simp] theorem answer?_map (attempt : Attempt σ ε α) (f : α → β) :
    (f <$> attempt).answer? state = (attempt.answer? state).map f := by
  have split : (f <$> attempt).run.answer state =
      (Action.answer state (match attempt.run.answer state with
        | .ok a => pure (.ok (f a))
        | .error error => pure (.error error))) :=
    Action.answer_bind state attempt.run _
  unfold answer?
  rw [split]
  cases attempt.run.answer state with
  | ok a => rfl
  | error error => rfl

end Attempt

namespace Lazy

theorem answer_bind (loads : Loads) (state : σ) (lazy : Lazy σ α) (f : α → Lazy σ β) :
    (lazy.bind f).answer loads state = (f (lazy.answer loads state)).answer loads state := by
  induction lazy with
  | done a => rfl
  | read next ih => exact ih state
  | write other next ih => exact ih
  | useSource id source next ih => exact ih
  | request key next ih => exact ih
  | pause next ih => exact ih
  | await key next ih => exact ih _

theorem answer_ofAction (loads : Loads) (state : σ) (action : Action σ α) :
    (ofAction action).answer loads state = action.answer state := by
  induction action with
  | done a => rfl
  | read next ih => exact ih state
  | write other next ih => exact ih
  | useSource id source next ih => exact ih
  | request key next ih => exact ih

end Lazy

section Later

variable {loads : Loads} {state : σ}

@[simp] theorem lateAnswer?_pure (a : α) :
    lateAnswer? loads state (pure a : ExceptT ε (Lazy σ) α) = some a := rfl

@[simp] theorem lateAnswer?_throw (error : ε) :
    lateAnswer? loads state (throw error : ExceptT ε (Lazy σ) α) = none := rfl

@[simp] theorem lateAnswer?_bind (code : ExceptT ε (Lazy σ) α) (f : α → ExceptT ε (Lazy σ) β) :
    lateAnswer? loads state (code >>= f) =
      (lateAnswer? loads state code).bind fun a => lateAnswer? loads state (f a) := by
  have split : (code >>= f).run.answer loads state =
      (ExceptT.bindCont f (code.run.answer loads state)).answer loads state :=
    Lazy.answer_bind loads state code.run (ExceptT.bindCont f)
  unfold lateAnswer?
  rw [split]
  cases code.run.answer loads state with
  | ok a => rfl
  | error error => rfl

@[simp] theorem lateAnswer?_ofAction (action : Action σ α) :
    lateAnswer? loads state (ExceptT.lift (Lazy.ofAction action) : ExceptT ε (Lazy σ) α) =
      some (action.answer state) := by
  have split : (ExceptT.lift (Lazy.ofAction action) : ExceptT ε (Lazy σ) α).run.answer loads state =
      .ok ((Lazy.ofAction action).answer loads state) :=
    Lazy.answer_bind loads state (Lazy.ofAction action) _
  unfold lateAnswer?
  rw [split, Lazy.answer_ofAction]
  rfl

@[simp] theorem lateAnswer?_await (answer : Answer σ ResolverError α) :
    lateAnswer? loads state (Schema.await answer) = answer.result? loads state := by
  cases answer with
  | ready a => rfl
  | later lazy =>
      have split : (Schema.await (.later lazy)).run.answer loads state =
          (lazy.answer loads state).mapError .ofResolverError :=
        Lazy.answer_bind loads state lazy _
      unfold lateAnswer?
      rw [split, toOption_mapError]
      rfl

end Later

/-! ### What arguments come to -/

/-- What an argument has come to. -/
structure Argument where
  /-- How the value came to be. -/
  detail : ArgumentDetail
  /-- The object that is loaded. -/
  loaded? : Option AppValue

namespace Arguments

/-- A bag with objects that were waited for. -/
def load (bag : Arguments) (objects : List (String × AppValue)) : Arguments :=
  { bag with
    loaded := objects.foldl (fun fields pair => Fields.insert fields pair.1 pair.2) bag.loaded }

theorem load_append (bag : Arguments) (objects : List (String × AppValue)) (name : String)
    (object : AppValue) :
    bag.load (objects ++ [(name, object)]) =
      { bag.load objects with
        loaded := Fields.insert (bag.load objects).loaded name object } := by
  unfold load
  rw [List.foldl_append]
  rfl

/-- A bag with one more argument, if it has a value. -/
def add (bag : Arguments) : Option Argument → Arguments
  | none => bag
  | some argument =>
    { values := Fields.insert bag.values argument.detail.name argument.detail.value
      details := Fields.insert bag.details argument.detail.name argument.detail
      loaded := match argument.loaded? with
        | some object => Fields.insert bag.loaded argument.detail.name object
        | none => bag.loaded }

/-- A bag with more arguments, as far as they have values. -/
def fill (bag : Arguments) (arguments : List (Option Argument)) : Arguments :=
  arguments.foldl add bag

end Arguments

namespace Schema

variable (schema : Schema σ) (loads : Loads) (state : σ) (query : QueryContext)

/-- An object, if its authorization grants it in the end. -/
def granted? (object : AppValue) (authorization : Answer σ ResolverError Bool) : Option AppValue :=
  (authorization.result? loads state).bind fun may => if may then some object else none

/-- An object, if it may be loaded as a type. -/
def admitted? (typeName : String) (object : AppValue) : Option AppValue :=
  granted? loads state object ((schema.authorizeLoaded typeName object query).answer state)

/-- The object that a load brings that has been put off. -/
def brought? (load : DeferredLoad σ) : Option AppValue :=
  (load.object.result? loads state).bind fun object =>
    match load.authorization? with
    | some authorization => granted? loads state object authorization
    | none => schema.admitted? loads state query load.typeName object

/-- The object that the value of an argument loads, if the argument loads one. -/
def loadedFor? (definition : InputDefinition σ) (value : Value) : Option (Option AppValue) :=
  match definition.loads? with
  | none => some none
  | some (typeName, load) =>
    if value.isNull then some none
    else
      (((load value query).answer state).toOption.bind fun answer =>
        (answer.result? loads state).bind (schema.admitted? loads state query typeName)).map some

/-- What the value of an argument is coerced to, if it has one. -/
def coercedFor? (owner : ArgumentOwner) (raw : Fields Value) (definition : InputDefinition σ) :
    Option (Option Value) :=
  (schema.coerceArgument owner definition
    ((Fields.get? raw definition.name).or definition.default?)).answer? state

/-- What an argument comes to whose value has been coerced. -/
def made? (raw : Fields Value) (definition : InputDefinition σ) (coerced : Value) :
    Option Argument :=
  ((prepareArgument definition query coerced).answer? state).bind fun value =>
    (schema.loadedFor? loads state query definition value).map fun loaded? =>
      ⟨argumentDetail definition (Fields.get? raw definition.name) value, loaded?⟩

/-- What an argument comes to, if it has a value. -/
def argument? (owner : ArgumentOwner) (raw : Fields Value) (definition : InputDefinition σ) :
    Option (Option Argument) :=
  (schema.coercedFor? state owner raw definition).bind fun
    | none => some none
    | some coerced => (schema.made? loads state query raw definition coerced).map some

/-- What loads bring that have been put off, under their names. -/
def broughtAll? (waiting : List (DeferredLoad σ)) : Option (List (String × AppValue)) :=
  waiting.mapM fun load => (schema.brought? loads state query load).map (load.name, ·)

variable {schema loads state query}

/-- Waiting for loads fills a bag with what they bring, if they all bring something. -/
theorem finishLoads_answer (waiting : List (DeferredLoad σ)) :
    ∀ bag : Arguments, lateAnswer? loads state (schema.finishLoads query bag waiting) =
      (schema.broughtAll? loads state query waiting).map bag.load := by
  induction waiting with
  | nil => exact fun bag => rfl
  | cons load rest ih =>
      intro bag
      let others := schema.broughtAll? loads state query rest
      have finish : ∀ (object : AppValue) (authorization : Answer σ ResolverError Bool),
          lateAnswer? loads state (do
            if ← await authorization then
              let bag := { bag with loaded := Fields.insert bag.loaded load.name object }
              schema.finishLoads query bag rest
            else throw (.unauthorized (.object load.typeName))) =
          (((granted? loads state object authorization).map (load.name, ·)).bind fun first =>
            others.bind fun behind => some (first :: behind)).map bag.load := by
        intro object authorization
        unfold granted?
        rw [lateAnswer?_bind, lateAnswer?_await]
        cases authorization.result? loads state with
        | none => rfl
        | some may =>
            cases may with
            | true =>
                refine (ih _).trans ?_
                show others.map _ = (others.bind _).map _
                cases others <;> rfl
            | false => rfl
      unfold Schema.finishLoads broughtAll?
      rw [lateAnswer?_bind, lateAnswer?_await, List.mapM_cons]
      show _ = Option.map bag.load (Option.bind (Option.map _ (schema.brought? _ _ _ load)) _)
      unfold brought?
      cases load.object.result? loads state with
      | none => rfl
      | some object =>
          cases load.authorization? with
          | some authorization => exact finish object authorization
          | none =>
              refine (lateAnswer?_bind _ _).trans ?_
              rw [lateAnswer?_ofAction]
              exact finish object _

/-- A load of an argument and what it comes to. Only a load that nothing is waited for before is
done at once; one that is put off brings in the end what it comes to. -/
inductive ComesTo (schema : Schema σ) (loads : Loads) (state : σ) (query : QueryContext)
    (name : String) (waiting : Bool) : Option (Loading σ) → Option (Option AppValue) → Prop
  | failed : ComesTo schema loads state query name waiting none none
  | nothing : ComesTo schema loads state query name waiting (some .nothing) (some none)
  | loaded (now : waiting = false) (object : AppValue) :
      ComesTo schema loads state query name waiting (some (.loaded object)) (some (some object))
  | deferred {load : DeferredLoad σ} (named : load.name = name) :
      ComesTo schema loads state query name waiting (some (.deferred load))
        ((schema.brought? loads state query load).map some)

/-- A load of an argument comes to the same, put off or not. -/
theorem loadArgument_answer (definition : InputDefinition σ) (waiting : Bool) (value : Value) :
    schema.ComesTo loads state query definition.name waiting
      ((schema.loadArgument definition query waiting value).answer? state)
      (schema.loadedFor? loads state query definition value) := by
  unfold Schema.loadArgument loadedFor?
  cases definition.loads? with
  | none => exact .nothing
  | some loading =>
      obtain ⟨typeName, load⟩ := loading
      simp only
      split
      · exact .nothing
      · rw [Attempt.answer?_bind, Attempt.answer?_callOr]
        cases ((load value query).answer state).toOption with
        | none => exact .failed
        | some answer =>
            simp only [Option.bind_some]
            have put_off : schema.ComesTo loads state query definition.name waiting
                (some (.deferred ⟨definition.name, typeName, answer, none⟩))
                (((answer.result? loads state).bind
                  (schema.admitted? loads state query typeName)).map some) := .deferred rfl
            cases waiting with
            | true => exact put_off
            | false =>
                cases answer with
                | later lazy => exact put_off
                | ready object =>
                    rw [Attempt.answer?_bind, Attempt.answer?_call]
                    have ready : (Answer.ready object : Answer σ ResolverError _).result? loads
                        state = some object := rfl
                    rw [ready, Option.bind_some, Option.bind_some]
                    unfold admitted?
                    cases known : (schema.authorizeLoaded typeName object query).answer state with
                    | ready may =>
                        cases may with
                        | true => exact .loaded rfl object
                        | false => exact .failed
                    | later lazy =>
                        exact .deferred rfl

theorem broughtAll?_append (waiting : List (DeferredLoad σ)) (load : DeferredLoad σ) :
    schema.broughtAll? loads state query (waiting ++ [load]) =
      (schema.broughtAll? loads state query waiting).bind fun objects =>
        (schema.brought? loads state query load).map fun object =>
          objects ++ [(load.name, object)] := by
  unfold broughtAll?
  rw [List.mapM_append]
  refine Option.bind_congr fun objects _ => ?_
  rw [List.mapM_cons]
  cases schema.brought? loads state query load <;> rfl

section Each

variable {owner : ArgumentOwner} {raw : Fields Value} {definition : InputDefinition σ}

theorem argument?_failed (coerced : schema.coercedFor? state owner raw definition = none) :
    schema.argument? loads state query owner raw definition = none := by
  unfold argument?
  rw [coerced]
  rfl

theorem argument?_absent (coerced : schema.coercedFor? state owner raw definition = some none) :
    schema.argument? loads state query owner raw definition = some none := by
  unfold argument?
  rw [coerced]
  rfl

theorem argument?_coerced {value : Value}
    (coerced : schema.coercedFor? state owner raw definition = some (some value)) :
    schema.argument? loads state query owner raw definition =
      (schema.made? loads state query raw definition value).map some := by
  unfold argument?
  rw [coerced]
  rfl

/-- The arguments of definitions, added to a bag whose loads are waited for, come one by one to
what is added to it once these are there. -/
theorem coerceEach_answer (owner : ArgumentOwner) (raw : Fields Value)
    (definitions : List (InputDefinition σ)) :
    ∀ (bag : Arguments) (waiting : List (DeferredLoad σ)),
      (((schema.coerceEach owner raw query bag waiting definitions).answer? state).bind
        fun result => (schema.broughtAll? loads state query result.2).map result.1.load) =
      (schema.broughtAll? loads state query waiting).bind fun objects =>
        (definitions.mapM (schema.argument? loads state query owner raw)).map
          (bag.load objects).fill := by
  induction definitions with
  | nil =>
      intro bag waiting
      show Option.map _ (schema.broughtAll? loads state query waiting) = _
      cases schema.broughtAll? loads state query waiting <;> rfl
  | cons definition rest ih =>
      intro bag waiting
      let others := rest.mapM (schema.argument? loads state query owner raw)
      have failed : (none : Option Arguments) =
          (schema.broughtAll? loads state query waiting).bind fun _ => none := by
        cases schema.broughtAll? loads state query waiting <;> rfl
      have filled : ∀ (bag : Arguments) (argument? : Option Argument),
          others.map (bag.add argument?).fill =
            (others.bind fun behind => some (argument? :: behind)).map bag.fill := by
        intro bag argument?
        cases others <;> rfl
      unfold Schema.coerceEach
      rw [List.mapM_cons, Attempt.answer?_bind, Option.bind_assoc]
      show (schema.coercedFor? state owner raw definition).bind _ = Option.bind _ fun objects =>
        (Option.bind (schema.argument? loads state query owner raw definition) _).map _
      cases coerced : schema.coercedFor? state owner raw definition with
      | none =>
          rw [argument?_failed coerced]
          exact failed
      | some coerced? =>
          cases coerced? with
          | none =>
              rw [argument?_absent coerced]
              refine (ih bag waiting).trans ?_
              exact Option.bind_congr fun objects _ => filled _ none
          | some value =>
              rw [argument?_coerced coerced]
              unfold made?
              simp only [Option.bind_some, Attempt.answer?_bind]
              cases (prepareArgument definition query value).answer? state with
              | none => exact failed
              | some value =>
                  simp only [Option.bind_some]
                  -- Only a load that nothing is waited for before is done at once.
                  have comes : schema.ComesTo loads state query _ _ _ _ :=
                    loadArgument_answer definition (!waiting.isEmpty) value
                  generalize (schema.loadArgument definition query (!waiting.isEmpty)
                    value).answer? state = loading at comes ⊢
                  generalize schema.loadedFor? loads state query definition value = loaded
                    at comes ⊢
                  let made (loaded? : Option AppValue) : Option Argument :=
                    some ⟨argumentDetail definition (Fields.get? raw definition.name) value,
                      loaded?⟩
                  cases comes with
                  | failed => exact failed
                  | nothing =>
                      refine (ih _ waiting).trans ?_
                      exact Option.bind_congr fun objects _ => filled (bag.load objects) (made none)
                  | loaded now object =>
                      obtain rfl : waiting = [] := by simpa using now
                      exact (ih _ []).trans (filled bag (made (some object)))
                  | @deferred load named =>
                      refine (ih _ _).trans ?_
                      rw [broughtAll?_append, Option.bind_assoc]
                      refine Option.bind_congr fun objects _ => ?_
                      cases schema.brought? loads state query load with
                      | none => rfl
                      | some object =>
                          refine Eq.trans ?_ (filled (bag.load objects) (made (some object)))
                          rw [Option.map_some, Option.bind_some, Arguments.load_append, named]
                          rfl

end Each

/-- The arguments of definitions come in the end to a bag that is filled with what they come to one
by one, if none of them fails. -/
theorem coerceArguments_answer (owner : ArgumentOwner) (definitions : Fields (InputDefinition σ))
    (raw : Fields Value) :
    (((schema.coerceArguments owner definitions raw query).answer state).result loads
      state).toOption =
    (definitions.values.mapM (schema.argument? loads state query owner raw)).map
      Arguments.empty.fill := by
  refine Eq.trans ?_ (coerceEach_answer owner raw definitions.values Arguments.empty [])
  unfold coerceArguments Attempt.answer?
  refine Eq.trans (congrArg (fun coercion => (Coercion.result loads state coercion).toOption)
    (Action.answer_bind state _ _)) ?_
  cases (schema.coerceEach owner raw query Arguments.empty [] definitions.values).run.answer
      state with
  | error error => rfl
  | ok result =>
      obtain ⟨bag, waiting⟩ := result
      cases waiting with
      | nil => rfl
      | cons load rest => exact finishLoads_answer (load :: rest) bag

end Schema

end GraphExec
