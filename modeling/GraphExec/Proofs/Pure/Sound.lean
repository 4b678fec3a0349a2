import GraphExec.Proofs.Pure.Courses
import GraphExec.Proofs.Pure.Recursion
import GraphExec.Proofs.Run.Passes
import GraphExec.Proofs.Run.Ways

/-!
# What pure programs answer

What the programs of a pure run answer is what the recursion has of them: a bag of arguments is the
one that its node stands for, directives say what they say asked one after another, a resolver
answers as it does for its context, and a value is read by its declared type.
-/

namespace GraphExec

variable {σ α : Type} {setting : Setting σ} {good : ArgumentKey → ArgumentsResult → Prop}
  {s t : Stage σ}

open Engine

namespace Setting

/-- The code of the job is pure, and what is known under a key is what is asked for there. -/
structure Sound (setting : Setting σ) (good : ArgumentKey → ArgumentsResult → Prop) : Prop where
  fine : setting.job.Fine setting.loads good
  right : ∀ key coerce result, setting.job.Asks key coerce → good key result →
    (coerce.answer setting.state).result setting.loads setting.state = result

/-- A stage of a pure run of the job. -/
def Even (setting : Setting σ) (good : ArgumentKey → ArgumentsResult → Prop) (s : Stage σ) : Prop :=
  Alike setting.loads good setting.job s s

/-- What the resolver of a field that may be called answers. -/
def called (setting : Setting σ) (place : Place σ) (above? : Option AppValue)
    (arguments : Arguments) : FieldResult σ :=
  match place.field.resolve? with
  | some resolve => ((resolve (setting.context place above? arguments)).answer setting.state).result
  | none => place.defaultResult

/-- A program whose answers are of a kind, at stages of a pure run. -/
theorem Even.gives {holds : α → Prop} {program : Engine σ α} {a : α} (even : setting.Even good s)
    (agrees : Agrees setting.loads good setting.job holds program) (gives : program.Gives s a t) :
    holds a ∧ setting.Even good t :=
  agrees.gives even gives

theorem Even.tell (even : setting.Even good s) (event : Event) :
    setting.Even good ⟨s.run, s.world.tell event⟩ :=
  Alike.tell even event event

/-- Code answers in a pure run what it answers at the state of the setting. -/
theorem Even.call {holds : α → Prop} {action : Action σ α} {a : α} (even : setting.Even good s)
    (settled : action.Settled setting.loads holds) (gives : (call action).Gives s a t) :
    a = action.answer setting.state ∧ holds a ∧ setting.Even good t := by
  obtain ⟨fine, even'⟩ := even.gives (agrees_call settled) gives
  obtain ⟨answer, -, -⟩ := settled.run setting.state even.here
  exact ⟨(gives_call.mp gives).1.symm.trans answer, fine, even'⟩

namespace Sound

/-! ### Arguments -/

/-- A bag that is there is what is asked for. -/
theorem lookUp (sound : setting.Sound good) {key : ArgumentKey} {coerce : Action σ (Coercion σ)}
    {result? : Option ArgumentsResult} (asks : setting.job.Asks key coerce)
    (even : setting.Even good s) (gives : (lookUp key coerce).Gives s result? t) :
    ∀ result, result? = some result →
      (coerce.answer setting.state).result setting.loads setting.state = result := by
  obtain ⟨known, -⟩ := even.gives (agrees_lookUp (asks.waits sound.fine)) gives
  exact fun result same => sound.right _ _ _ asks (known result same)

/-- A bag that is waited for is what is asked for. -/
theorem waited (sound : setting.Sound good) {key : ArgumentKey} {coerce : Action σ (Coercion σ)}
    {resumption : Resumption σ} (asks : setting.job.Asks key coerce)
    (answers : (Wait.arguments key : Wait σ).Answers setting.loads good resumption) :
    resumption = .arguments
      ((coerce.answer setting.state).result setting.loads setting.state) := by
  cases answers with
  | arguments known => rw [sound.right _ _ _ asks known]

/-- The arguments of a directive that are there are those that it is written with. -/
theorem lookUp_directive (sound : setting.Sound good) {directive : Directive}
    {definition : DirectiveDefinition σ} {parent : Identity}
    (asks : setting.job.Asks
      (.new directive.offset (.directive definition.name) definition.arguments parent)
      (setting.job.coercion (.directive definition.name) definition.arguments directive.arguments))
    (even : setting.Even good s) {found : ArgumentKey × Option ArgumentsResult}
    (gives : (directive.lookUp setting.job definition parent).Gives s found t) :
    (∀ result, found.2 = some result →
      setting.bag (.directive definition.name) definition.arguments directive.arguments = result) ∧
      ∀ resumption, (Wait.arguments found.1 : Wait σ).Answers setting.loads good resumption →
        resumption = .arguments (setting.bag (.directive definition.name) definition.arguments
          directive.arguments) := by
  unfold Directive.lookUp at gives
  obtain ⟨result?, u, looked, gives⟩ := gives_bind.mp gives
  obtain ⟨rfl, -⟩ := gives_pure.mp gives
  exact ⟨sound.lookUp asks even looked, fun _ answers => sound.waited asks answers⟩

/-! ### Failures -/

/-- The error that an unexpected failure is turned into. -/
theorem rescue (sound : setting.Sound good) (even : setting.Even good s) {message : String}
    {path : Path} {error : ExecutionError}
    (gives : (Engine.rescue setting.job message path).Gives s error t) :
    setting.rescued? message path = some error := by
  obtain ⟨answer, u, called, gives⟩ := gives_bind.mp gives
  obtain ⟨same, -, -⟩ := even.call (sound.fine.pure.rescue message path _) called
  unfold rescued?
  rw [← same]
  split at gives
  · obtain ⟨rfl, -⟩ := gives_pure.mp gives
    rfl
  · exact absurd gives not_gives_throw

/-- The value that a result stands for. -/
theorem settle (sound : setting.Sound good) (even : setting.Even good s) {path : Path}
    {result : FieldResult σ} {value : ResolvedValue σ}
    (gives : (Engine.settle setting.job path result).Gives s value t) :
    setting.settled? path result = some value := by
  unfold Engine.settle at gives
  split at gives
  · obtain ⟨rfl, -⟩ := gives_pure.mp gives
    rfl
  · obtain ⟨rfl, -⟩ := gives_pure.mp gives
    rfl
  · obtain ⟨error, u, rescued, gives⟩ := gives_bind.mp gives
    obtain ⟨rfl, -⟩ := gives_pure.mp gives
    show (setting.rescued? _ path).map ResolvedValue.error = _
    rw [sound.rescue even rescued]
    rfl

end Sound

end Setting

/-! ### Directives -/

/-- What is left to be said by the directives of a cursor. -/
def DirectiveCursor.passage (setting : Setting σ) (object : AppValue) (path : Path)
    (cursor : DirectiveCursor σ) : Passage σ :=
  match cursor.uses, cursor.stage with
  | use :: rest, .called result =>
    setting.hears object path use (setting.passage object path rest) result
  | _ :: rest, .answered flow => (setting.passage object path rest).after flow
  | uses, _ => setting.passage object path uses

/-- A transition of a cursor leaves what there is to be said. -/
def CursorProgress.Says (setting : Setting σ) (good : ArgumentKey → ArgumentsResult → Prop)
    (object : AppValue) (path : Path) (passage : Passage σ) : CursorProgress σ → Prop
  | again cursor => cursor.passage setting object path = passage
  | passed => passage = .passed
  | skipped => passage = .skipped
  | stopped result => passage = .stopped result
  | waiting cursor wait => ∀ resumption next, wait.Answers setting.loads good resumption →
      cursor.resume resumption = .ok next → next.passage setting object path = passage

theorem Setting.Sound.cursor (sound : setting.Sound good) {cursor : DirectiveCursor σ}
    (pure : cursor.Pure setting.loads setting.job) (even : setting.Even good s) {owner : Subject}
    {path : Path} {progress : CursorProgress σ}
    (gives : (cursor.advance setting.job owner path).Gives s progress t) :
    progress.Says setting good owner.value path (cursor.passage setting owner.value path) := by
  have answers {use : DirectiveUse σ} {arguments : Arguments} {u : Stage σ}
      {answer : Except ExecutionError (Answer σ ResolverError DirectiveFlow)}
      (own : use.Pure setting.loads setting.job)
      (answered : (call (use.hook ⟨arguments, owner.value, path, setting.job.query⟩)).Gives s
        answer u) :
      (use.hook ⟨arguments, owner.value, path, setting.job.query⟩).answer setting.state = answer :=
    (even.call (own.hook _) answered).1.symm
  cases DirectiveCursor.way gives with
  | @passes stage => cases stage <;> rfl
  | finds looked =>
      have own := pure _ List.mem_cons_self
      obtain ⟨there, -⟩ := sound.lookUp_directive (own.asks owner.identity) even looked
      show setting.hears owner.value path _ _ _ = setting.hears owner.value path _ _ _
      rw [there _ rfl]
  | asks looked =>
      have own := pure _ List.mem_cons_self
      obtain ⟨-, waited⟩ := sound.lookUp_directive (own.asks owner.identity) even looked
      intro resumption next answers resumes
      rw [waited resumption answers] at resumes
      injection resumes with resumes
      subst resumes
      rfl
  | fails | skips | stops => rfl
  | @answers use rest arguments flow _ _ answered =>
      have answer := answers (pure _ List.mem_cons_self) answered
      show _ = setting.hears owner.value path use (setting.passage owner.value path rest)
        (.ok arguments)
      simp only [Setting.hears, answer]
      rfl
  | @waits use rest arguments lazy _ _ answered =>
      have answer := answers (pure _ List.mem_cons_self) answered
      show CursorProgress.Says setting good owner.value path
        (setting.hears owner.value path use (setting.passage owner.value path rest) (.ok arguments)) _
      simp only [Setting.hears, answer]
      intro resumption next answers resumes
      cases answers with
      | directive answers =>
          injection resumes with resumes
          subst resumes
          show Passage.after _ _ = Passage.after _ (lazy.answer setting.loads setting.state)
          rw [Lazy.Answers.answer answers setting.state]
  | @raises use rest arguments error _ _ answered =>
      have answer := answers (pure _ List.mem_cons_self) answered
      show _ = setting.hears owner.value path use (setting.passage owner.value path rest)
        (.ok arguments)
      simp only [Setting.hears, answer]
      rfl
  | @proceeds use rest => cases rest <;> rfl

/-! ### Selections -/

section

variable {directive : Directive} {definition : DirectiveDefinition σ}
  {keeps : Arguments → QueryContext → Action σ Bool} {path : Path} {rest : List Directive}

/-- A directive without a guard leaves it to those behind it whether a node counts. -/
theorem Setting.counts?_unguarded (no_guard : directive.guard? setting.job = none) :
    setting.counts? path (directive :: rest) = setting.counts? path rest := by
  rw [counts?]
  cases found : setting.job.schema.directive? directive.name with
  | none => rfl
  | some definition => simp only [Directive.guard?_eq_none.mp no_guard definition found]

/-- A guard with arguments lets a node count or not. -/
theorem Setting.counts?_guarded (guard : directive.guard? setting.job = some (definition, keeps))
    {arguments : Arguments} (bag : setting.bag (.directive definition.name) definition.arguments
      directive.arguments = .ok arguments) :
    setting.counts? path (directive :: rest) =
      if (keeps arguments setting.job.query).answer setting.state then setting.counts? path rest
      else some false := by
  obtain ⟨known, includes⟩ := Directive.guard?_eq_some.mp guard
  rw [counts?]
  simp only [known, includes, bag]

/-- Without arguments a node does not count, if this does not end the request. -/
theorem Setting.counts?_failed (guard : directive.guard? setting.job = some (definition, keeps))
    {wrong : ArgumentError} (bag : setting.bag (.directive definition.name) definition.arguments
      directive.arguments = .error wrong)
    (rescued : ∀ message, wrong = .unexpected message →
      (setting.rescued? message path).isSome = true) :
    setting.counts? path (directive :: rest) = some false := by
  obtain ⟨known, includes⟩ := Directive.guard?_eq_some.mp guard
  rw [counts?]
  simp only [known, includes, bag]
  cases wrong with
  | unexpected message =>
      obtain ⟨error, rescues⟩ := Option.isSome_iff_exists.mp (rescued message rfl)
      simp only [rescues, Option.map_some]
  | _ => rfl

end

/-- The directives of a selection tell whether it counts. -/
theorem Setting.Sound.says (sound : setting.Sound good) {typeName : String} {identity : Identity}
    {path : Path} {selection : Selection} (has : setting.job.Has selection)
    {directives : List Directive} {asked : List Asked} {inclusion : Inclusion}
    (heard : (⟨setting.job, typeName, identity, path⟩ : Grouper σ).Says directives s asked
      inclusion t) :
    (∀ directive ∈ directives, directive ∈ selection.directives) → setting.Even good s →
      setting.Even good t ∧ ((∀ key, inclusion ≠ .waiting key) →
        setting.counts? path directives = some inclusion.counts) := by
  have looks {directive : Directive} {definition : DirectiveDefinition σ}
      {keeps : Arguments → QueryContext → Action σ Bool} {key : ArgumentKey}
      {found : Option ArgumentsResult} {s u : Stage σ} (written : directive ∈ selection.directives)
      (guard : directive.guard? setting.job = some (definition, keeps))
      (looked : (directive.lookUp setting.job definition identity).Gives s (key, found) u)
      (even : setting.Even good s) : setting.Even good u ∧ ∀ result, found = some result →
        setting.bag (.directive definition.name) definition.arguments directive.arguments =
          result := by
    have asks := Job.Asks.directive has written (Directive.guard?_eq_some.mp guard).1 identity
    exact ⟨(even.gives (Directive.agrees_lookUp sound.fine asks) looked).2,
      (sound.lookUp_directive asks even looked).1⟩
  have answers {directive : Directive} {definition : DirectiveDefinition σ}
      {keeps : Arguments → QueryContext → Action σ Bool} {arguments : Arguments} {kept : Bool}
      {s u : Stage σ} (guard : directive.guard? setting.job = some (definition, keeps))
      (answered : (call (keeps arguments setting.job.query)).Gives s kept u)
      (even : setting.Even good s) : setting.Even good u ∧
        (keeps arguments setting.job.query).answer setting.state = kept := by
    obtain ⟨known, includes⟩ := Directive.guard?_eq_some.mp guard
    obtain ⟨same, -, even⟩ := even.call
      ((sound.fine.pure.directives _ _ known).includes keeps includes arguments _) answered
    exact ⟨even, same.symm⟩
  induction heard with
  | included s => exact fun _ even => ⟨even, fun _ => rfl⟩
  | other no_guard _ ih =>
      intro written even
      rw [counts?_unguarded no_guard]
      exact ih (fun other mem => written other (List.mem_cons_of_mem _ mem)) even
  | kept guard looked answered _ ih =>
      intro written even
      obtain ⟨even, there⟩ := looks (written _ List.mem_cons_self) guard looked even
      obtain ⟨even, yes⟩ := answers guard answered even
      rw [counts?_guarded guard (there _ rfl), if_pos yes]
      exact ih (fun other mem => written other (List.mem_cons_of_mem _ mem)) even
  | excluded guard looked answered =>
      intro written even
      obtain ⟨even, there⟩ := looks (written _ List.mem_cons_self) guard looked even
      obtain ⟨even, no⟩ := answers guard answered even
      rw [counts?_guarded guard (there _ rfl), if_neg (by rw [no]; exact Bool.false_ne_true)]
      exact ⟨even, fun _ => rfl⟩
  | @failed directive rest definition keeps wrong error key s t u guard looked told =>
      intro written even
      obtain ⟨even, there⟩ := looks (written _ List.mem_cons_self) guard looked even
      have agrees := @Grouper.agrees_argumentError _ _ _
        ⟨setting.job, typeName, identity, path⟩ sound.fine wrong
      refine ⟨(even.gives agrees told).2, fun _ => counts?_failed guard (there _ rfl) ?_⟩
      rintro message rfl
      rw [sound.rescue even told]
      rfl
  | waiting guard looked =>
      intro written even
      obtain ⟨even, -⟩ := looks (written _ List.mem_cons_self) guard looked even
      exact ⟨even, fun other => absurd rfl (other _)⟩

/-! ### Fields -/

/-- A position of a field. -/
def FieldSite.placeAt (site : FieldSite σ) (path : Path) (type : TypeRef) : Place σ :=
  ⟨site.typeName, site.field, site.group, site.owner.value, path, type⟩

namespace Setting.Sound

variable {site : FieldSite σ} (path : Path) (type : TypeRef)

theorem lookUpArguments (sound : setting.Sound good) (known : site.Known setting.job)
    (even : setting.Even good s) {result? : Option ArgumentsResult}
    (gives : (site.lookUpArguments setting.job).Gives s result? t) :
    (∀ result, result? = some result → setting.arguments (site.placeAt path type) = result) ∧
      (result? = none → ∀ resumption,
        (Wait.arguments site.argumentKey : Wait σ).Answers setting.loads good resumption →
          resumption = .arguments (setting.arguments (site.placeAt path type))) := by
  unfold FieldSite.lookUpArguments at gives
  unfold Setting.arguments
  split at gives
  · rename_i empty
    obtain ⟨rfl, -⟩ := gives_pure.mp gives
    refine ⟨fun result same => ?_, nofun⟩
    injection same with same
    rw [if_pos (show (site.placeAt path type).field.arguments.isEmpty = true from empty), same]
  · rename_i some_argument
    rw [if_neg (show ¬ (site.placeAt path type).field.arguments.isEmpty = true from some_argument)]
    exact ⟨sound.lookUp known.asks even gives, fun _ _ answers => sound.waited known.asks answers⟩

theorem provide (sound : setting.Sound good) (known : site.Known setting.job)
    (extras : List Extra) : ∀ {s t : Stage σ} {values result : Fields Value},
      setting.Even good s → (site.provide setting.job values extras).Gives s result t →
      result = setting.provided (site.placeAt path type) values extras := by
  induction extras with
  | nil =>
      intro s t values result even gives
      exact (gives_pure.mp gives).1.symm
  | cons extra rest ih =>
      intro s t values result even gives
      cases extra with
      | custom name =>
          unfold FieldSite.provide at gives
          unfold Setting.provided
          simp only [FieldSite.placeAt]
          cases here : site.field.provide? with
          | some provide =>
            simp only [here] at gives ⊢
            obtain ⟨value, u, provided, gives⟩ := gives_bind.mp gives
            obtain ⟨rfl, -, even'⟩ :=
              even.call ((sound.fine.field known).provides provide here name _) provided
            exact ih even' gives
          | none =>
            simp only [here] at gives ⊢
            obtain ⟨value, u, provided, gives⟩ := gives_bind.mp gives
            obtain ⟨rfl, rfl⟩ := gives_pure.mp provided
            exact ih even gives
      | _ => exact ih even gives

theorem extras (sound : setting.Sound good) (known : site.Known setting.job)
    (even : setting.Even good s) {parent : NodeId} {extras : Extras σ} (arguments : Arguments)
    (gives : (site.extras setting.job parent path).Gives s extras t) :
    extras = (setting.context (site.placeAt path type) (s.run.draft.parentValue? parent)
      arguments).extras := by
  obtain ⟨draft, u, got, gives⟩ := gives_bind.mp gives
  obtain ⟨rfl, rfl⟩ := gives_draft.mp got
  obtain ⟨custom, v, provided, gives⟩ := gives_bind.mp gives
  obtain ⟨rfl, -⟩ := gives_pure.mp gives
  rw [sound.provide path type known _ even provided]
  rfl

/-- A resolver answers what it answers for its context. -/
theorem resolve (sound : setting.Sound good) (known : site.Known setting.job)
    (even : setting.Even good s) {parent : NodeId} {arguments : Arguments}
    {result : FieldResult σ}
    (gives : (site.resolve setting.job parent path arguments).Gives s result t) :
    result = setting.resolved (site.placeAt path type) (s.run.draft.parentValue? parent)
      arguments := by
  unfold FieldSite.resolve at gives
  obtain ⟨extras, u, got, gives⟩ := gives_bind.mp gives
  obtain ⟨pure_context, even⟩ := even.gives
    (FieldSite.agrees_extras sound.fine known parent path) got
  have same := sound.extras path type known ‹_› arguments got
  subst same
  have context_pure := pure_context (setting.context (site.placeAt path type)
    (s.run.draft.parentValue? parent) arguments) rfl
  have field := sound.fine.field known
  -- What is answered once it is known whether the resolver may be called.
  have answered : ∀ (allowed : Bool) {u : Stage σ}, setting.Even good u →
      (if allowed = true then do
        let resolution ← site.callResolver path (setting.context (site.placeAt path type)
          (s.run.draft.parentValue? parent) arguments)
        if (setting.context (site.placeAt path type) (s.run.draft.parentValue? parent)
            arguments).extras.reporting then site.reportAll path resolution.reported
        return resolution.result
      else return .ok (.unauthorized (.field site.typeName site.field.name)) :
        Engine σ (FieldResult σ)).Gives u result t →
      result = if allowed = true then
          setting.called (site.placeAt path type) (s.run.draft.parentValue? parent) arguments
        else .ok (.unauthorized (.field site.typeName site.field.name)) := by
    intro allowed u even gives
    cases allowed with
    | false => exact (gives_pure.mp gives).1.symm
    | true =>
        obtain ⟨resolution, w, resolved, gives⟩ := gives_bind.mp gives
        have same : resolution.result = result := by
          split at gives
          · obtain ⟨_, x, -, gives⟩ := gives_bind.mp gives
            exact (gives_pure.mp gives).1
          · exact (gives_pure.mp gives).1
        subst same
        unfold FieldSite.callResolver at resolved
        obtain ⟨_, y, told, resolved⟩ := gives_bind.mp resolved
        obtain rfl := gives_tell.mp told
        rw [if_pos rfl]
        unfold Setting.called
        cases here : site.field.resolve? with
        | some resolve =>
          simp only [here, show (site.placeAt path type).field = site.field from rfl] at resolved ⊢
          obtain ⟨answer, z, called, resolved⟩ := gives_bind.mp resolved
          obtain ⟨_, z', -, resolved⟩ := gives_bind.mp resolved
          obtain ⟨rfl, -⟩ := gives_pure.mp resolved
          obtain ⟨rfl, -, -⟩ := (even.tell _).call (field.resolves resolve here _ context_pure) called
          rfl
        | none =>
          simp only [here, show (site.placeAt path type).field = site.field from rfl] at resolved ⊢
          obtain ⟨answer, z, called, resolved⟩ := gives_bind.mp resolved
          obtain ⟨_, z', -, resolved⟩ := gives_bind.mp resolved
          obtain ⟨rfl, -⟩ := gives_pure.mp resolved
          obtain ⟨rfl, -⟩ := gives_pure.mp called
          rfl
  split at gives
  · rename_i authorize here
    obtain ⟨allowed, v, asked, gives⟩ := gives_bind.mp gives
    obtain ⟨rfl, -, even⟩ := even.call (field.authorizes authorize here _ context_pure) asked
    rw [answered _ even gives]
    unfold Setting.resolved
    simp only [show (site.placeAt path type).field.authorize? = some authorize from here]
    rfl
  · rename_i none_there
    obtain ⟨allowed, v, asked, gives⟩ := gives_bind.mp gives
    obtain ⟨rfl, rfl⟩ := gives_pure.mp asked
    rw [answered _ even gives]
    unfold Setting.resolved
    simp only [show (site.placeAt path type).field.authorize? = none from none_there]
    rfl

end Setting.Sound

/-! ### Completion -/

/-- The place of a position in a draft. -/
def Position.place (position : Position σ) (draft : Draft) : Place σ :=
  position.site.placeAt (draft.pathTo position.parent position.key) position.type

/-- A reading of a value amounts to an outcome. -/
def Outcome.Reads (setting : Setting σ) (position : Position σ) (place : Place σ) (reading : Reading σ) :
    Outcome σ → Prop
  | leaf value checked => reading = .done (.ofLeaf value (checked && place.nonNull))
  | omitted => reading = .done .omitted
  | refusals itemType size =>
    reading = .done (place.refusals size) ∧ place.type.nullable = .list itemType ∧ size ≠ 0
  | items itemType cursor values =>
    reading = .items itemType values ∧
      cursor = .new setting.job.schema (·.resolveEach?) position.site.directives
  | object step => ∃ declared subject, reading = .object declared subject.value ∧
      step = ⟨.child position, subject, position.site.selections, false, .ofType declared⟩ ∧
      setting.job.schema.Knows declared

namespace Setting

variable {position : Position σ} {place : Place σ} {value : ResolvedValue σ} {outcome : Outcome σ}

theorem read?_of_not_anywhere (other : ¬ value.Anywhere) :
    setting.read? place value = setting.readByType? place value := by
  cases value with
  | value v =>
      cases v with
      | null => exact absurd trivial other
      | _ => rfl
  | list items =>
      cases items with
      | nil => rfl
      | cons first rest =>
          have mixed : ¬ (first :: rest).all (·.isError) = true :=
            fun errors => other ⟨List.cons_ne_nil _ _, errors⟩
          unfold read?
          simp only [if_neg mixed]
  | object o => rfl
  | lazy later => exact absurd trivial other
  | error error => exact absurd trivial other
  | unauthorized refusal => exact absurd trivial other
  | skip => exact absurd trivial other
  | raw v => exact absurd trivial other

/-- A value of a named type is read as a leaf, or as an object. -/
theorem readByType?_named {name : String} {type : TypeDefinition σ}
    (named : place.type.nullable = .named name)
    (known : setting.job.schema.type? name = some type) (output : ∀ t, type ≠ .inputObject t) :
    setting.readByType? place value =
      match type.leafCoercion?, value with
      | some coerce, .value v =>
        some (.done (.ofLeaf (coercedLeaf ((coerce v).answer setting.state)) place.nonNull))
      | some _, _ => some (.done (.ofLeaf .null place.nonNull))
      | none, value => (Position.objectValue? value).map (.object type) := by
  unfold readByType?
  rw [named]
  dsimp only
  generalize setting.job.schema.type? name = found at known ⊢
  subst known
  cases type with
  | inputObject t => exact absurd rfl (output t)
  | _ => rfl

/-- The coercion of leaves is settled. -/
theorem Sound.leaf_settled (sound : setting.Sound good) {name : String} {type : TypeDefinition σ}
    {coerce : Value → Action σ (Except String Value)}
    (known : setting.job.schema.type? name = some type) (leaf : type.leafCoercion? = some coerce)
    (value : Value) : (coerce value).Settled setting.loads fun _ => True := by
  have pure := sound.fine.pure.types name type known
  cases type with
  | scalar t =>
      injection leaf with leaf
      exact leaf ▸ pure.result value
  | enum t =>
      injection leaf with leaf
      exact leaf ▸ Action.settled_done trivial
  | _ => cases leaf

theorem output_of_leaf {type : TypeDefinition σ} (leaf : type.leafCoercion?.isSome = true) :
    ∀ t, type ≠ .inputObject t := by
  rintro t rfl
  cases leaf

/-- What completes a position is what the value is read as there. -/
theorem Sound.reads (place : Place σ) (sound : setting.Sound good) (even : setting.Even good s)
    (type : place.type = position.type)
    (completes : position.Completes setting.job s value outcome) :
    ∃ reading, setting.read? place value = some reading ∧
      outcome.Reads setting position place reading := by
  cases completes with
  | null => exact ⟨_, rfl, rfl⟩
  | error error => exact ⟨_, rfl, rfl⟩
  | skip => exact ⟨_, rfl, rfl⟩
  | raw v =>
      refine ⟨_, rfl, ?_⟩
      cases v <;> rfl
  | @refusals items itemType some_item errors list =>
      obtain ⟨first, rest, rfl⟩ := List.exists_cons_of_ne_nil some_item
      refine ⟨.done (place.refusals (first :: rest).length), ?_, rfl, type ▸ list, by simp⟩
      unfold read?
      simp only [if_pos errors]
  | @refused items some_item errors no_list =>
      obtain ⟨first, rest, rfl⟩ := List.exists_cons_of_ne_nil some_item
      refine ⟨.done (place.refusals (first :: rest).length), ?_, ?_⟩
      · unfold read?
        simp only [if_pos errors]
      · show Reading.done _ = Reading.done _
        unfold Place.refusals
        rw [type]
        split
        · rename_i itemType list
          exact absurd list (no_list itemType)
        · rfl
  | @items value items itemType other list values =>
      refine ⟨.items itemType items, ?_, rfl, rfl⟩
      rw [read?_of_not_anywhere other]
      unfold readByType?
      rw [type, list]
      simp only [values]
      rfl
  | @leaf value name type' coerce coerced other named known leaf answer =>
      have plain : ¬ (ResolvedValue.value value : ResolvedValue σ).Anywhere := by
        cases value with
        | null => exact absurd rfl other
        | _ => exact id
      refine ⟨.done (.ofLeaf (coercedLeaf coerced) place.nonNull), ?_, rfl⟩
      rw [read?_of_not_anywhere plain, readByType?_named (type ▸ named) known
        (output_of_leaf (leaf ▸ rfl)), leaf]
      obtain ⟨same, -, -⟩ := (sound.leaf_settled known leaf value).run setting.state even.here
      simp only [← same, answer]
  | @misfit value name type' other not_plain named known leaf =>
      refine ⟨.done (.ofLeaf .null place.nonNull), ?_, rfl⟩
      rw [read?_of_not_anywhere other, readByType?_named (type ▸ named) known (output_of_leaf leaf)]
      obtain ⟨coerce, coerces⟩ := Option.isSome_iff_exists.mp leaf
      rw [coerces]
      cases value with
      | value v => cases not_plain
      | _ => rfl
  | @object value name type' v subject other named known composite output made same =>
      refine ⟨.object type' v, ?_, type', subject, by rw [same], rfl, name, known⟩
      rw [read?_of_not_anywhere other, readByType?_named (type ▸ named) known output, composite]
      simp only [made]
      rfl

end Setting

end GraphExec
