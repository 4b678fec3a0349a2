import Mathlib
import GraphExec.Proofs.Input.Alike
import GraphExec.Proofs.Input.Filled
import GraphExec.Proofs.Pure.Arguments

/-!
# Arguments at once or later

Loads and authorizations may answer at once or take time, in any mixture. Whether there is a bag of
arguments, and which one, does not depend on it.
-/

namespace GraphExec

variable {σ α : Type} {loads : Loads}

variable {schema schema' : Schema σ} {owner : ArgumentOwner} {raw : Fields Value}
  {query : QueryContext} {definitions definitions' : Fields (InputDefinition σ)}

/-- Polled again and again, in keywise worlds, what is left of the code answers. -/
inductive Pending.Awaited (loads : Loads) : Pending σ α → α → Prop
  | answers {pending : Pending σ α} {world : World σ} {answer : α} (keywise : world.Keywise loads)
      (polled : (pending.poll world).1 = .ready answer) : Awaited loads pending answer
  | waits {pending rest : Pending σ α} {world : World σ} {answer : α}
      (keywise : world.Keywise loads) (polled : (pending.poll world).1 = .pending rest)
      (later : Awaited loads rest answer) : Awaited loads pending answer

theorem Pending.Awaited.eq {pending : Pending σ α} {a b : α} (awaited : pending.Awaited loads b)
    (answers : pending.Answers loads a) : b = a := by
  induction awaited with
  | answers keywise polled =>
      have advances := (answers.poll keywise).2
      rw [polled] at advances
      exact advances
  | waits keywise polled _ ih =>
      have advances := (answers.poll keywise).2
      rw [polled] at advances
      exact ih advances

/-- What a coercion comes to that is waited for if need be. -/
inductive Coercion.Awaited (loads : Loads) : Coercion σ → ArgumentsResult → Prop
  | ready (result : ArgumentsResult) : Awaited loads (.ready result) result
  | pending {lazy : Lazy σ ArgumentsResult} {result : ArgumentsResult}
      (awaited : (Pending.start lazy).Awaited loads result) : Awaited loads (.pending lazy) result

namespace Schema


/-- What pure arguments come to that are waited for is what they answer in the end. -/
theorem Pure.awaited_eq (pure : schema.Pure loads)
    (fine : ∀ definition ∈ definitions.values, definition.Pure loads) {world : World σ}
    (keywise : world.Keywise loads) {result : ArgumentsResult}
    (awaited : ((schema.coerceArguments owner definitions raw query).run world).1.Awaited loads
      result) (state : σ) :
    result =
      ((schema.coerceArguments owner definitions raw query).answer state).result loads state := by
  have settled : (schema.coerceArguments owner definitions raw query).Settled loads _ :=
    pure.coerceArguments fine raw query
  obtain ⟨same, -, settled⟩ := settled.run state keywise
  rw [same] at awaited
  generalize (schema.coerceArguments owner definitions raw query).answer state = coercion
    at awaited settled ⊢
  cases awaited with
  | ready => rfl
  | pending awaited =>
      obtain ⟨answer, answers, -⟩ := settled _ rfl
      have same : result = answer := awaited.eq answers
      exact same.trans (answers.answer state).symm

/-- Arguments of pure application code come to the same bag or fail alike, whatever of their loads
and authorizations is answered at once. A bag has an argument for exactly what is given or has a
default, in the order of the definitions, and an object for exactly the loading arguments whose
value is not null; each object is granted by the type that it is loaded as. -/
theorem coerceArguments_untimed (pure : schema.Pure loads) (pure' : schema'.Pure loads)
    (fine : ∀ definition ∈ definitions.values, definition.Pure loads)
    (fine' : ∀ definition ∈ definitions'.values, definition.Pure loads)
    (alike : schema.Alike loads schema')
    (same : List.Forall₂ (InputDefinition.Alike loads) definitions.values definitions'.values)
    (distinct : (definitions.values.map (·.name)).Nodup)
    {world world' : World σ} (keywise : world.Keywise loads) (keywise' : world'.Keywise loads)
    {result result' : ArgumentsResult}
    (awaited : ((schema.coerceArguments owner definitions raw query).run world).1.Awaited loads
      result)
    (awaited' : ((schema'.coerceArguments owner definitions' raw query).run world').1.Awaited loads
      result') :
    ∀ bag, (result = .ok bag ↔ result' = .ok bag) ∧
      (result = .ok bag →
        ∀ state, schema.Provides loads state query owner raw definitions.values bag) := by
  -- However long they take, both come to what they answer when every key is loaded at once,
  -- argument by argument.
  have comes := fun state => pure.awaited_eq fine keywise awaited state
  have comes' := fun state => pure'.awaited_eq fine' keywise' awaited' state
  have one_by_one : ∀ state, result.toOption =
      (definitions.values.mapM (schema.argument? loads state query owner raw)).map
        Arguments.empty.fill := by
    intro state
    rw [comes state]
    exact coerceArguments_answer owner definitions raw
  -- That the schemas and definitions are alike tells that every argument comes to the same; of the
  -- failures only that there is one.
  have toOption : result.toOption = result'.toOption := by
    rw [one_by_one world.app, alike.arguments same, comes' world.app]
    exact (coerceArguments_answer owner definitions' raw).symm
  have ok_iff : ∀ (result : ArgumentsResult) (bag : Arguments),
      result = .ok bag ↔ result.toOption = some bag := by
    intro result bag
    cases result <;> simp [Except.toOption]
  intro bag
  constructor
  · rw [ok_iff, ok_iff, toOption]
  · intro ok state
    have filled := one_by_one state
    rw [ok] at filled
    obtain ⟨arguments, all, same⟩ := Option.map_eq_some_iff.mp filled.symm
    exact same ▸ provides_of_arguments distinct all

end Schema

/-! ### A shelf whose keeper may take time -/

section Resolve

variable {pending rest : Pending σ α} {world : World σ} {a b : α}

theorem Pending.resolve?_of_ready (fuel : Nat) (polled : (pending.poll world).1 = .ready a) :
    (pending.resolve? (fuel + 1) world).1 = some a := by
  have split : pending.poll world = (.ready a, (pending.poll world).2) := Prod.ext polled rfl
  unfold Pending.resolve?
  show (StateT.bind pending.poll _ world).1 = _
  unfold StateT.bind
  rw [split]
  rfl

theorem Pending.resolve?_of_pending (fuel : Nat) (polled : (pending.poll world).1 = .pending rest) :
    (pending.resolve? (fuel + 1) world).1 = (rest.resolve? fuel (pending.poll world).2).1 := by
  have split : pending.poll world = (.pending rest, (pending.poll world).2) := Prod.ext polled rfl
  conv => lhs; unfold Pending.resolve?
  show (StateT.bind pending.poll _ world).1 = _
  unfold StateT.bind
  rw [split]
  rfl

end Resolve

theorem Pending.awaited_of_resolve? {a b : α} :
    ∀ (fuel : Nat) {pending : Pending σ α} {world : World σ}, pending.Answers loads a →
      world.Keywise loads → (pending.resolve? fuel world).1 = some b →
        pending.Awaited loads b := by
  intro fuel
  induction fuel with
  | zero =>
      intro pending world _ _ resolved
      cases resolved
  | succ fuel ih =>
      intro pending world answers keywise resolved
      obtain ⟨after, advances⟩ := answers.poll keywise
      cases polled : (pending.poll world).1 with
      | ready answer =>
          rw [resolve?_of_ready fuel polled] at resolved
          exact .answers keywise (Option.some.inj resolved ▸ polled)
      | pending rest =>
          rw [resolve?_of_pending fuel polled] at resolved
          rw [polled] at advances
          exact .waits keywise polled (ih advances after resolved)

/-- What a coercion comes to that is polled up to `fuel` times. -/
def Coercion.resolve? (fuel : Nat) (coercion : Coercion σ) (world : World σ) :
    Option ArgumentsResult :=
  match coercion with
  | .ready result => some result
  | .pending lazy => ((Pending.start lazy).resolve? fuel world).1

namespace Schema

theorem Pure.awaited_of_resolve? (pure : schema.Pure loads)
    (fine : ∀ definition ∈ definitions.values, definition.Pure loads) {world after : World σ}
    (keywise : world.Keywise loads) (keywise' : after.Keywise loads) {fuel : Nat}
    {result : ArgumentsResult}
    (resolved : ((schema.coerceArguments owner definitions raw query).run world).1.resolve? fuel
      after = some result) :
    ((schema.coerceArguments owner definitions raw query).run world).1.Awaited loads result := by
  have settled : (schema.coerceArguments owner definitions raw query).Settled loads _ :=
    pure.coerceArguments fine raw query
  obtain ⟨same, -, settled⟩ := settled.run world.app keywise
  rw [same] at resolved ⊢
  generalize (schema.coerceArguments owner definitions raw query).answer world.app = coercion
    at resolved settled ⊢
  cases coercion with
  | ready other =>
      obtain rfl := Option.some.inj resolved
      exact .ready other
  | pending lazy =>
      obtain ⟨answer, answers, -⟩ := settled lazy rfl
      exact .pending (Pending.awaited_of_resolve? fuel answers keywise' resolved)

/-- An answer at once, or at the next poll. -/
def soonOrLater (later : Bool) (answer : α) : Answer Unit ResolverError α :=
  if later then .later (.pause (.done (.ok answer))) else .ready answer

/-- A schema with a type of books, which anybody may look at. -/
def shelf (later : Bool) : Schema Unit :=
  { types :=
      [("ID", .scalar (Scalar.ofFunctions "ID" Scalar.id Scalar.id)),
        ("Book", .object
          { name := "Book"
            authorize? := some fun _ _ => pure (soonOrLater later true) })]
    queryType := "Query"
    mutationType? := none
    subscriptionType? := none
    directives := []
    possible := []
    hooks := {} }

/-- The load of a book by its number. -/
def loadBook (later : Bool) (value : Value) (_ : QueryContext) :
    Action Unit (Except ResolverError (Answer Unit ResolverError AppValue)) :=
  pure (.ok (soonOrLater later (.data value)))

/-- Arguments that load books by their numbers; the second has a default. -/
def lent (later : Bool) : Fields (InputDefinition Unit) :=
  [("first",
    { name := "first"
      type := .named "ID"
      loads? := some ("Book", loadBook later) }),
    ("second",
    { name := "second"
      type := .named "ID"
      default? := some (.int 7)
      loads? := some ("Book", loadBook (!later)) })]

/-- The bag of the books 3 and 7. -/
def lentBag : Arguments :=
  { values := [("first", .string "3"), ("second", .string "7")]
    loaded := [("first", .data (.string "3")), ("second", .data (.string "7"))]
    details :=
      [("first", ⟨"first", .named "ID", .string "3", some (.int 3), false, .finished⟩),
        ("second", ⟨"second", .named "ID", .string "7", none, true, .finished⟩)] }

theorem settled_soonOrLater (later : Bool) (answer : α) :
    (soonOrLater later answer).Settled loads fun _ => True := by
  cases later with
  | false => trivial
  | true => exact ⟨.ok answer, rfl, fun _ _ => trivial⟩

theorem shelf_pure (later : Bool) : (shelf later).Pure loads := by
  refine ⟨fun name type known => ?_, fun name definition known => (by cases known),
    ⟨nofun, nofun, nofun, nofun⟩⟩
  rcases Fields.mem_of_get? known with _ | ⟨_, _ | ⟨_, none⟩⟩
  · exact ⟨fun value => ⟨_, rfl, trivial⟩, fun value => ⟨_, rfl, trivial⟩⟩
  · refine ⟨nofun, fun authorize hook object query => ?_⟩
    obtain rfl := Option.some.inj hook
    exact ⟨_, rfl, settled_soonOrLater later true⟩
  · cases none

theorem lent_pure (later : Bool) :
    ∀ definition ∈ (lent later).values, definition.Pure loads := by
  have pure : ∀ (name : String) (default? : Option Value) (later : Bool),
      InputDefinition.Pure loads
        { name
          type := .named "ID"
          default?
          loads? := some ("Book", loadBook later) } := by
    intro name default? later
    refine ⟨nofun, fun type load found value query => ?_⟩
    injection found with found
    injection found with _ found
    subst found
    refine ⟨_, rfl, fun answer same => ?_⟩
    injection same with same
    exact same ▸ settled_soonOrLater later _
  intro definition mem
  rcases mem with _ | ⟨_, _ | ⟨_, none⟩⟩
  · exact pure "first" none later
  · exact pure "second" (some (.int 7)) (!later)
  · cases none

theorem result?_soonOrLater (state : Unit) (later : Bool) (answer : α) :
    (soonOrLater later answer).result? loads state = some answer := by
  cases later <;> rfl

theorem shelf_alike (later later' : Bool) : (shelf later).Alike loads (shelf later') := by
  refine .cons ⟨rfl, .same _⟩ (.cons ⟨rfl, .object _ (.some fun object query state => ?_)⟩ .nil)
  exact (result?_soonOrLater state later true).trans (result?_soonOrLater state later' true).symm

theorem lent_alike (later later' : Bool) :
    List.Forall₂ (InputDefinition.Alike loads) (lent later).values (lent later').values := by
  have brings : ∀ first second : Bool, Option.Rel (fun load other => load.1 = other.1 ∧
      ∀ value query, SameLoads loads (load.2 value query) (other.2 value query))
      (some ("Book", loadBook first)) (some ("Book", loadBook second)) := by
    intro first second
    refine .some ⟨rfl, fun value query state => ?_⟩
    exact (result?_soonOrLater state first (AppValue.data value)).trans
      (result?_soonOrLater state second (AppValue.data value)).symm
  exact .cons ⟨rfl, rfl, rfl, rfl, brings _ _⟩ (.cons ⟨rfl, rfl, rfl, rfl, brings _ _⟩ .nil)

/-- The coercion of arguments that ask for book 3. -/
def lending (later : Bool) : Action Unit (Coercion Unit) :=
  (shelf later).coerceArguments (.field "Query" "lend") (lent later) [("first", .int 3)]
    { bindings := [], operationName? := none, data? := none }

theorem keywise_quiet : World.Keywise loads (⟨(), fun _ state => state, []⟩ : World Unit) := by
  intro id state found
  cases found

theorem lending_awaited (later : Bool) :
    ((lending later).run ⟨(), fun _ state => state, []⟩).1.Awaited (fun _ _ => .null)
      (.ok lentBag) := by
  have resolved : ((lending later).run ⟨(), fun _ state => state, []⟩).1.resolve? 9
      ⟨(), fun _ state => state, []⟩ = some (.ok lentBag) := by
    cases later with
    | false => cbv
    | true => cbv
  exact (shelf_pure later).awaited_of_resolve? (lent_pure later) keywise_quiet keywise_quiet
    resolved

/-- One load is put off or the other, and authorizations are put off or not. -/
theorem coerceArguments_untimed_shelf :
    ((lending false).run ⟨(), fun _ state => state, []⟩).1.Awaited (fun _ _ => .null)
        (.ok lentBag) ∧
      (∀ result, ((lending true).run ⟨(), fun _ state => state, []⟩).1.Awaited
        (fun _ _ => .null) result → result = .ok lentBag) ∧
      (shelf false).Provides (fun _ _ => .null) ()
        { bindings := [], operationName? := none, data? := none } (.field "Query" "lend")
        [("first", .int 3)] (lent false).values lentBag := by
  have both : ∀ result, ((lending true).run ⟨(), fun _ state => state, []⟩).1.Awaited
      (fun _ _ => .null) result → _ := fun result awaited' =>
    coerceArguments_untimed (shelf_pure false) (shelf_pure true) (lent_pure false) (lent_pure true)
      (shelf_alike false true) (lent_alike false true) (by decide) keywise_quiet keywise_quiet
      (lending_awaited false) awaited' lentBag
  exact ⟨lending_awaited false, fun result awaited' => (both result awaited').1.mp rfl,
    (both _ (lending_awaited true)).2 rfl ()⟩

end Schema

end GraphExec
