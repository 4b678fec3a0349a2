import GraphExec.Proofs.Run.Clearance
import GraphExec.Proofs.Run.Origins

/-!
# The story of a position

Before the value of a field is completed, its directives are run, its arguments are looked up and
its resolver is called; before an item of a list is looked at, the directives of the field are run
for it. What is done so at a position is its story, read off the transitions of a run one after
another. The steps of a position know how far its story has come, and no transition lets one go on
but as its next act says. Elsewhere a transition leaves all stories as they are.
-/

namespace GraphExec

open Engine

variable {σ : Type} {job : Job σ} {seen : Sight σ → Prop}

/-! ### Acts -/

/-- What a transition does about a position before its value is completed. -/
inductive PositionAct (σ : Type) where
  /-- The arguments of a directive have failed. -/
  | fails (use : DirectiveUse σ) (error : ArgumentError)
  /-- The hook of a directive is called with arguments, and returns. -/
  | asks (use : DirectiveUse σ) (arguments : Arguments)
      (answer : Except ExecutionError (Answer σ ResolverError DirectiveFlow))
  /-- The answer of a directive is taken up. -/
  | hears (use : DirectiveUse σ) (flow : Except ResolverError DirectiveFlow)
  /-- The arguments of the field are looked up. -/
  | seeks
  /-- The arguments of the field are taken up, or why there are none. -/
  | finds (result : ArgumentsResult)
  /-- The resolver is called with arguments, unless it may not be. -/
  | calls (arguments : Arguments)
  /-- An item is looked at, or what it has become. -/
  | looks (result : FieldResult σ)

/-- What the next transition of a cursor does. -/
def DirectiveCursor.act? (cursor : DirectiveCursor σ) (job : Job σ) (owner : Subject) (path : Path)
    (world : World σ) : Option (PositionAct σ) :=
  match cursor.uses, cursor.stage with
  | use :: _, .called (.error error) => some (.fails use error)
  | use :: _, .called (.ok arguments) =>
    some (.asks use arguments ((use.hook ⟨arguments, owner.value, path, job.query⟩).run world).1)
  | use :: _, .answered flow => some (.hears use flow)
  | _, _ => none

def FieldStep.act? (step : FieldStep σ) (job : Job σ) (s : Stage σ) : Option (PositionAct σ) :=
  match step.state with
  | .runDirectives cursor =>
    cursor.act? job step.site.owner (step.position.path s.run.draft) s.world
  | .loadArguments => some .seeks
  | .argumentsLoaded result => some (.finds result)
  | .callResolver arguments => some (.calls arguments)
  | _ => none

def ItemStep.act? (step : ItemStep σ) (job : Job σ) (s : Stage σ) : Option (PositionAct σ) :=
  match step.state with
  | .runDirectives cursor _ =>
    cursor.act? job step.position.site.owner (step.position.path s.run.draft) s.world
  | .resolved result => some (.looks result)
  | _ => none

/-- What the next transition of a step does about its position, for a field. Nothing is done for a
position whose parent is dead. -/
def Step.act? (step : Step σ) (job : Job σ) (s : Stage σ) : Option (FieldSite σ × PositionAct σ) :=
  if step.isAlive s.run.draft then
    match step with
    | .object _ => none
    | .field step => (step.act? job s).map (step.site, ·)
    | .item step => (step.act? job s).map (step.position.site, ·)
  else none

/-- What transitions, each of a step at a stage, have done at a spot. -/
def story (job : Job σ) (deeds : List (Step σ × Stage σ)) (spot : Spot) :
    List (FieldSite σ × PositionAct σ) :=
  deeds.filterMap fun (step, s) => if step.spot = spot then step.act? job s else none

/-! ### How stories go -/

/-- What the polls have left of a lazy answer of a hook. -/
inductive FlowLeft (seen : Sight σ → Prop) (lazy : Lazy σ (Except ResolverError DirectiveFlow)) :
    Pending σ (Except ResolverError DirectiveFlow) → Prop
  | start : FlowLeft seen lazy (.start lazy)
  | polled {rest next : Pending σ (Except ResolverError DirectiveFlow)} {s : Stage σ}
      (left : FlowLeft seen lazy rest) (heard : seen (.polled (.directive rest) s))
      (goes_on : (rest.poll.run s.world).1 = .pending next) : FlowLeft seen lazy next

/-- What a hook returned has come to: at once, or by polls. -/
inductive Flows (seen : Sight σ → Prop) :
    Except ExecutionError (Answer σ ResolverError DirectiveFlow) →
      Except ResolverError DirectiveFlow → Prop
  | failed (error : ExecutionError) : Flows seen (.error error) (.error (.execution error))
  | at_once (flow : DirectiveFlow) : Flows seen (.ok (.ready flow)) (.ok flow)
  | later {lazy : Lazy σ (Except ResolverError DirectiveFlow)}
      {rest : Pending σ (Except ResolverError DirectiveFlow)}
      {flow : Except ResolverError DirectiveFlow} {s : Stage σ} (left : FlowLeft seen lazy rest)
      (heard : seen (.polled (.directive rest) s))
      (answers : (rest.poll.run s.world).1 = .ready flow) : Flows seen (.ok (.later lazy)) flow

/-- All directives but the rest have been asked in order, each once and after the one before it has
let resolution go on, and the last of them has, too. -/
inductive Heeds (seen : Sight σ → Prop) (uses : List (DirectiveUse σ)) :
    List (PositionAct σ) → List (DirectiveUse σ) → Prop
  | start : Heeds seen uses [] uses
  | pass {acts : List (PositionAct σ)} {use : DirectiveUse σ} {rest : List (DirectiveUse σ)}
      {answer : Except ExecutionError (Answer σ ResolverError DirectiveFlow)}
      (before : Heeds seen uses acts (use :: rest)) (arguments : Arguments)
      (flows : Flows seen answer (.ok .proceed)) :
      Heeds seen uses (acts ++ [.asks use arguments answer] ++ [.hears use (.ok .proceed)]) rest

/-- The next directive has been asked. -/
inductive Asks (seen : Sight σ → Prop) (uses : List (DirectiveUse σ)) :
    List (PositionAct σ) → DirectiveUse σ → List (DirectiveUse σ) →
      Except ExecutionError (Answer σ ResolverError DirectiveFlow) → Prop
  | mk {acts : List (PositionAct σ)} {use : DirectiveUse σ} {rest : List (DirectiveUse σ)}
      (before : Heeds seen uses acts (use :: rest)) (arguments : Arguments)
      (answer : Except ExecutionError (Answer σ ResolverError DirectiveFlow)) :
      Asks seen uses (acts ++ [.asks use arguments answer]) use rest answer

/-- The next directive stands in the way: its arguments have failed, or its answer has. -/
inductive Stops (seen : Sight σ → Prop) (uses : List (DirectiveUse σ)) :
    List (PositionAct σ) → FieldResult σ → Prop
  | arguments {acts : List (PositionAct σ)} {use : DirectiveUse σ} {rest : List (DirectiveUse σ)}
      (before : Heeds seen uses acts (use :: rest)) (error : ArgumentError) :
      Stops seen uses (acts ++ [.fails use error]) error.outcome
  | answer {acts : List (PositionAct σ)} {use : DirectiveUse σ} {rest : List (DirectiveUse σ)}
      {answer : Except ExecutionError (Answer σ ResolverError DirectiveFlow)}
      {error : ResolverError} (asks : Asks seen uses acts use rest answer)
      (flows : Flows seen answer (.error error)) :
      Stops seen uses (acts ++ [.hears use (.error error)]) (.error error)

/-- The next directive leaves the position out. -/
inductive LeavesOut (seen : Sight σ → Prop) (uses : List (DirectiveUse σ)) : List (PositionAct σ) → Prop
  | mk {acts : List (PositionAct σ)} {use : DirectiveUse σ} {rest : List (DirectiveUse σ)}
      {answer : Except ExecutionError (Answer σ ResolverError DirectiveFlow)}
      (asks : Asks seen uses acts use rest answer) (flows : Flows seen answer (.ok .skip)) :
      LeavesOut seen uses (acts ++ [.hears use (.ok .skip)])

/-- How far directives have been run. -/
inductive Guards (seen : Sight σ → Prop) (uses : List (DirectiveUse σ)) (acts : List (PositionAct σ)) :
    Prop
  | passes {rest : List (DirectiveUse σ)} (passes : Heeds seen uses acts rest)
  | asks {use : DirectiveUse σ} {rest : List (DirectiveUse σ)}
      {answer : Except ExecutionError (Answer σ ResolverError DirectiveFlow)}
      (asks : Asks seen uses acts use rest answer)
  | stops {result : FieldResult σ} (stops : Stops seen uses acts result)
  | skips (skips : LeavesOut seen uses acts)

/-- The arguments of a field were found when they were looked up, or when a poll of what they are
waited for in was answered. -/
inductive Finds (job : Job σ) (seen : Sight σ → Prop) (site : FieldSite σ) :
    ArgumentsResult → Prop
  | at_once {step : FieldStep σ} {s t : Stage σ} {result : ArgumentsResult}
      (made : seen (.advanced (.field step) s)) (same : step.site = site)
      (found : (site.lookUpArguments job).Gives s (some result) t) : Finds job seen site result
  | later {s t : Stage σ} {result : ArgumentsResult}
      (heard : seen (.polled (.arguments site.argumentKey) s))
      (answers : Wait.poll s (.arguments site.argumentKey) = (.ready (.arguments result), t)) :
      Finds job seen site result

/-- How the story of a field goes: its directives are run; when all have let resolution go on its
arguments are looked up; with arguments, and only with these, the resolver is called. -/
inductive FieldTells (job : Job σ) (seen : Sight σ → Prop) (site : FieldSite σ)
    (uses : List (DirectiveUse σ)) : List (PositionAct σ) → Prop
  | guards {acts : List (PositionAct σ)} (guards : Guards seen uses acts) :
      FieldTells job seen site uses acts
  | seeks {acts : List (PositionAct σ)} (passes : Heeds seen uses acts []) :
      FieldTells job seen site uses (acts ++ [.seeks])
  | finds {acts : List (PositionAct σ)} {result : ArgumentsResult} (passes : Heeds seen uses acts [])
      (found : Finds job seen site result) :
      FieldTells job seen site uses (acts ++ [.seeks] ++ [.finds result])
  | calls {acts : List (PositionAct σ)} {arguments : Arguments} (passes : Heeds seen uses acts [])
      (found : Finds job seen site (.ok arguments)) :
      FieldTells job seen site uses
        (acts ++ [.seeks] ++ [.finds (.ok arguments)] ++ [.calls arguments])

/-- An item has been looked at: itself, when all directives have let resolution go on, or what stands
for it when one is in the way. What it turns out to be may be looked at in turn. -/
inductive Looks (seen : Sight σ → Prop) (uses : List (DirectiveUse σ)) (item : ResolvedValue σ) :
    List (PositionAct σ) → Prop
  | itself {acts : List (PositionAct σ)} (passes : Heeds seen uses acts []) :
      Looks seen uses item (acts ++ [.looks (.ok item)])
  | instead {acts : List (PositionAct σ)} {result : FieldResult σ}
      (stops : Stops seen uses acts result) :
      Looks seen uses item (acts ++ [.looks result])
  | again {acts : List (PositionAct σ)} (looks : Looks seen uses item acts) (result : FieldResult σ) :
      Looks seen uses item (acts ++ [.looks result])

/-- How the story of an item goes: directives are run for it, and then it is looked at. -/
inductive ItemTells (seen : Sight σ → Prop) (uses : List (DirectiveUse σ)) (item : ResolvedValue σ)
    (acts : List (PositionAct σ)) : Prop
  | guards (guards : Guards seen uses acts)
  | looks (looks : Looks seen uses item acts)

/-! ### Cursors -/

namespace DirectiveCursor

variable {uses : List (DirectiveUse σ)} {acts : List (PositionAct σ)} {cursor : DirectiveCursor σ}

/-- A cursor is as far as its story tells. -/
def Told (seen : Sight σ → Prop) (uses : List (DirectiveUse σ)) (acts : List (PositionAct σ))
    (cursor : DirectiveCursor σ) : Prop :=
  match cursor.stage with
  | .awaitingAnswer => ∃ use rest lazy, cursor.uses = use :: rest ∧
      Asks seen uses acts use rest (.ok (.later lazy))
  | .answered flow => ∃ use rest answer, cursor.uses = use :: rest ∧
      Asks seen uses acts use rest answer ∧ Flows seen answer flow
  | _ => Heeds seen uses acts cursor.uses

/-- A cursor that waits for the answer of its directive waits for what is left of it. -/
def Awaits (seen : Sight σ → Prop) (acts : List (PositionAct σ)) (wait : Wait σ)
    (cursor : DirectiveCursor σ) : Prop :=
  cursor.stage = .awaitingAnswer → ∃ use arguments lazy rest,
    acts.getLast? = some (.asks use arguments (.ok (.later lazy))) ∧ wait = .directive rest ∧
      FlowLeft seen lazy rest

/-- A cursor that has waited for the answer of its directive is handed what it has come to. -/
def Hears (seen : Sight σ → Prop) (acts : List (PositionAct σ)) (resumption : Resumption σ)
    (cursor : DirectiveCursor σ) : Prop :=
  cursor.stage = .awaitingAnswer → ∃ use arguments answer flow,
    acts.getLast? = some (.asks use arguments answer) ∧ resumption = .directive flow ∧
      Flows seen answer flow

theorem Told.guards (told : cursor.Told seen uses acts) : Guards seen uses acts := by
  unfold Told at told
  split at told
  · obtain ⟨use, rest, lazy, -, asks⟩ := told
    exact .asks asks
  · obtain ⟨use, rest, answer, -, asks, -⟩ := told
    exact .asks asks
  · exact .passes told

/-- Whatever the next transition of a cursor does, it is what comes next in its story. -/
theorem Told.guards_next (told : cursor.Told seen uses acts) (owner : Subject) (path : Path)
    (world : World σ) : Guards seen uses (acts ++ (cursor.act? job owner path world).toList) := by
  have quiet : Guards seen uses (acts ++ (none : Option (PositionAct σ)).toList) :=
    (List.append_nil acts).symm ▸ told.guards
  obtain ⟨left, stage⟩ := cursor
  cases left with
  | nil => exact quiet
  | cons use rest =>
      cases stage with
      | called result =>
          have passes : Heeds seen uses acts (use :: rest) := told
          cases result with
          | error error => exact .stops (.arguments passes error)
          | ok arguments => exact .asks (.mk passes arguments _)
      | answered flow =>
          obtain ⟨use', rest', answer, same, asks, flows⟩ := told
          injection same with same same'
          subst same same'
          cases flow with
          | error error => exact .stops (.answer asks flows)
          | ok flow =>
              cases flow with
              | proceed =>
                  cases asks with
                  | mk before arguments answer => exact .passes (.pass before arguments flows)
              | skip => exact .skips (.mk asks flows)
      | _ => exact quiet

/-- A cursor with nothing left to run has passed all directives. -/
theorem Told.passed (told : cursor.Told seen uses acts) (none_left : cursor.uses = []) :
    Heeds seen uses acts [] := by
  unfold Told at told
  split at told
  · obtain ⟨use, rest, lazy, some_left, -⟩ := told
    cases none_left.symm.trans some_left
  · obtain ⟨use, rest, answer, some_left, -⟩ := told
    cases none_left.symm.trans some_left
  · exact none_left ▸ told

/-- What a transition of a cursor comes to is as its story tells. -/
def Tells (seen : Sight σ → Prop) (uses : List (DirectiveUse σ)) (acts : List (PositionAct σ)) :
    CursorProgress σ → Prop
  | .again next => next.Told seen uses acts
  | .passed => Heeds seen uses acts []
  | .skipped => LeavesOut seen uses acts
  | .stopped result => Stops seen uses acts result
  | .waiting next wait => next.Told seen uses acts ∧ next.Awaits seen acts wait

/-- A transition of a cursor tells the next act of its story. -/
theorem Way.tells {owner : Subject} {path : Path} {s t : Stage σ} {progress : CursorProgress σ}
    (told : cursor.Told seen uses acts) (way : cursor.Way job owner path s progress t) :
    Tells seen uses (acts ++ (cursor.act? job owner path s.world).toList) progress := by
  have quiet : acts ++ (none : Option (PositionAct σ)).toList = acts := List.append_nil acts
  cases way with
  | passes =>
      show Heeds seen uses (acts ++ []) []
      exact quiet.symm ▸ told.passed rfl
  | finds _ =>
      have passes : Heeds seen uses acts _ := told
      exact quiet.symm ▸ passes
  | asks _ =>
      have passes : Heeds seen uses acts _ := told
      exact ⟨quiet.symm ▸ passes, fun waits => by cases waits⟩
  | fails => exact .arguments told _
  | @answers use rest arguments flow s t answered =>
      have asks := Asks.mk told arguments
        ((use.hook ⟨arguments, owner.value, path, job.query⟩).run s.world).1
      exact ⟨use, rest, _, rfl, asks, (gives_call.mp answered).1 ▸ .at_once flow⟩
  | @waits use rest arguments lazy s t answered =>
      have later := (gives_call.mp answered).1
      have asks := Asks.mk told arguments
        ((use.hook ⟨arguments, owner.value, path, job.query⟩).run s.world).1
      rw [later] at asks
      have tells : acts ++ (act? ⟨use :: rest, .called (.ok arguments)⟩ job owner path
          s.world).toList = acts ++ [.asks use arguments (.ok (.later lazy))] := by
        show acts ++ [_] = _
        rw [later]
      rw [tells]
      refine ⟨⟨use, rest, lazy, rfl, asks⟩, fun _ => ?_⟩
      exact ⟨use, arguments, lazy, .start lazy, List.getLast?_concat, rfl, .start⟩
  | @raises use rest arguments error s t answered =>
      have asks := Asks.mk told arguments
        ((use.hook ⟨arguments, owner.value, path, job.query⟩).run s.world).1
      exact ⟨use, rest, _, rfl, asks, (gives_call.mp answered).1 ▸ .failed error⟩
  | proceeds =>
      obtain ⟨use', rest', answer, same, asks, flows⟩ := told
      obtain ⟨rfl, rfl⟩ := List.cons.inj same
      cases asks with
      | mk before arguments answer => exact .pass before arguments flows
  | skips =>
      obtain ⟨use', rest', answer, same, asks, flows⟩ := told
      obtain ⟨rfl, rfl⟩ := List.cons.inj same
      exact .mk asks flows
  | stops =>
      obtain ⟨use', rest', answer, same, asks, flows⟩ := told
      obtain ⟨rfl, rfl⟩ := List.cons.inj same
      exact .answer asks flows

/-- A cursor that is handed what it has waited for is as far as before. -/
theorem Resumed.told {next : DirectiveCursor σ} {resumption : Resumption σ}
    (told : cursor.Told seen uses acts) (hears : cursor.Hears seen acts resumption)
    (resumed : cursor.Resumed resumption next) : next.Told seen uses acts := by
  obtain ⟨left, stage⟩ := cursor
  cases resumed with
  | arguments waiting =>
      subst waiting
      exact told
  | answer waiting =>
      subst waiting
      obtain ⟨use, rest, lazy, some_left, asks⟩ := told
      obtain ⟨use', arguments, answer, flow', last, same, flows⟩ := hears rfl
      injection same with same
      subst same
      refine ⟨use, rest, _, some_left, asks, ?_⟩
      cases asks with
      | mk before arguments answer =>
          rw [List.getLast?_concat] at last
          injection last with last
          injection last with _ _ same
          exact same ▸ flows

/-- A poll of what a cursor waits for leaves less of it. -/
theorem Awaits.polled {wait rest : Wait σ} {s t : Stage σ} (awaits : cursor.Awaits seen acts wait)
    (heard : seen (.polled wait s)) (polls : wait.poll s = (.pending rest, t)) :
    cursor.Awaits seen acts rest := by
  intro stage
  obtain ⟨use, arguments, lazy, before, last, rfl, left⟩ := awaits stage
  obtain ⟨next, rfl, goes_on⟩ := Wait.pollBy_pending polls
  exact ⟨use, arguments, lazy, next, last, rfl, left.polled heard goes_on⟩

theorem Awaits.answered {wait : Wait σ} {resumption : Resumption σ} {s t : Stage σ}
    (awaits : cursor.Awaits seen acts wait) (heard : seen (.polled wait s))
    (polls : wait.poll s = (.ready resumption, t)) : cursor.Hears seen acts resumption := by
  intro stage
  obtain ⟨use, arguments, lazy, before, last, rfl, left⟩ := awaits stage
  obtain ⟨flow, rfl, answers⟩ := Wait.pollBy_ready polls
  exact ⟨use, arguments, _, flow, last, rfl, .later left heard answers⟩

end DirectiveCursor

theorem Wait.pollBag_ready {key : ArgumentKey} {resumption : Resumption σ} {s t : Stage σ}
    (polls : Wait.poll s (.arguments key) = (.ready resumption, t)) :
    ∃ result, resumption = .arguments result := by
  have bag : pollBag key s = _ := polls
  unfold pollBag at bag
  split at bag
  · cases bag
  · dsimp only at bag
    split at bag
    split at bag
    · injection bag with bag
      injection bag with bag
      exact ⟨_, bag.symm⟩
    · cases bag

/-! ### Fields -/

namespace FieldSite

/-- The runtime directives of all nodes of a field, in document order. -/
def guards (site : FieldSite σ) (job : Job σ) : List (DirectiveUse σ) :=
  (DirectiveCursor.new job.schema (·.resolve?) site.directives).uses

/-- The directives of all nodes of a field that are run for the items of a list, in document order. -/
def itemGuards (site : FieldSite σ) (job : Job σ) : List (DirectiveUse σ) :=
  (DirectiveCursor.new job.schema (·.resolveEach?) site.directives).uses

end FieldSite

namespace FieldStep

variable {step : FieldStep σ} {acts : List (PositionAct σ)}

/-- A field is as far as its story tells. -/
def Told (job : Job σ) (seen : Sight σ → Prop) (acts : List (PositionAct σ)) (step : FieldStep σ) :
    Prop :=
  let uses := step.site.guards job
  match step.state with
  | .runDirectives cursor => cursor.Told seen uses acts
  | .loadArguments => Heeds seen uses acts []
  | .awaitingArguments => ∃ before, Heeds seen uses before [] ∧ acts = before ++ [.seeks]
  | .argumentsLoaded result => Finds job seen step.site result ∧
      ∃ before, Heeds seen uses before [] ∧ acts = before ++ [.seeks]
  | .callResolver arguments => Finds job seen step.site (.ok arguments) ∧
      ∃ before, Heeds seen uses before [] ∧ acts = before ++ [.seeks] ++ [.finds (.ok arguments)]
  | .resolved _ => FieldTells job seen step.site uses acts
  | .awaitingValue => FieldTells job seen step.site uses acts

/-- A field waits for what its story is waiting for. -/
def Awaits (seen : Sight σ → Prop) (acts : List (PositionAct σ)) (wait : Wait σ) (step : FieldStep σ) :
    Prop :=
  match step.state with
  | .runDirectives cursor => cursor.Awaits seen acts wait
  | .awaitingArguments => wait = .arguments step.site.argumentKey
  | _ => True

/-- A field that has waited is handed what its story was waiting for. -/
def Hears (job : Job σ) (seen : Sight σ → Prop) (acts : List (PositionAct σ))
    (resumption : Resumption σ) (step : FieldStep σ) : Prop :=
  match step.state with
  | .runDirectives cursor => cursor.Hears seen acts resumption
  | .awaitingArguments => ∃ result, resumption = .arguments result ∧
      Finds job seen step.site result
  | _ => True

theorem Told.tells (told : step.Told job seen acts) :
    FieldTells job seen step.site (step.site.guards job) acts := by
  unfold Told at told
  split at told
  · exact .guards told.guards
  · exact .guards (.passes told)
  · obtain ⟨before, passes, rfl⟩ := told
    exact .seeks passes
  · obtain ⟨-, before, passes, rfl⟩ := told
    exact .seeks passes
  · obtain ⟨found, before, passes, rfl⟩ := told
    exact .finds passes found
  · exact told
  · exact told

/-- Whatever the next transition of a field does, it is what comes next in its story. -/
theorem Told.tells_next (told : step.Told job seen acts) (s : Stage σ) :
    FieldTells job seen step.site (step.site.guards job) (acts ++ (step.act? job s).toList) := by
  have quiet : FieldTells job seen step.site (step.site.guards job)
      (acts ++ (none : Option (PositionAct σ)).toList) := (List.append_nil acts).symm ▸ told.tells
  obtain ⟨parent, key, site, state⟩ := step
  cases state with
  | runDirectives cursor => exact .guards (DirectiveCursor.Told.guards_next told _ _ _)
  | loadArguments => exact .seeks told
  | argumentsLoaded result =>
      obtain ⟨found, before, passes, rfl⟩ := told
      exact .finds passes found
  | callResolver arguments =>
      obtain ⟨found, before, passes, rfl⟩ := told
      exact .calls passes found
  | _ => exact quiet

/-- A field that has not been begun has no story. -/
theorem told_new (parent : NodeId) (key : String) (site : FieldSite σ) :
    (FieldStep.new job.schema parent key site).Told job seen [] := .start

/-- What a transition of a field comes to is as its story tells. -/
def Leaves (job : Job σ) (seen : Sight σ → Prop) (acts : List (PositionAct σ)) (step : FieldStep σ) :
    Progress σ → Prop
  | .again (.field next) => (∃ state, next = { step with state }) ∧ next.Told job seen acts
  | .finished => FieldTells job seen step.site (step.site.guards job) acts
  | .parked (.field next) _ wait =>
    (∃ state, next = { step with state }) ∧ next.Told job seen acts ∧ next.Awaits seen acts wait
  | _ => False

/-- A transition of a field tells the next act of its story, and leaves it as far as that. -/
theorem Way.leaves {s t : Stage σ} {progress : Progress σ} (told : step.Told job seen acts)
    (made : seen (.advanced (.field step) s)) (way : step.Way job s progress t) :
    Leaves job seen (acts ++ (step.act? job s).toList) step progress := by
  have quiet : acts ++ (none : Option (PositionAct σ)).toList = acts := List.append_nil acts
  obtain ⟨parent, key, site, state⟩ := step
  cases way with
  | directs state directed | passes state directed =>
      subst state
      exact ⟨⟨_, rfl⟩, (DirectiveCursor.way directed).tells told⟩
  | skips state directed _ =>
      subst state
      exact .guards (.skips ((DirectiveCursor.way directed).tells told))
  | stops state directed =>
      subst state
      exact ⟨⟨_, rfl⟩, .guards (.stops ((DirectiveCursor.way directed).tells told))⟩
  | awaits state directed =>
      subst state
      have tells := (DirectiveCursor.way directed).tells told
      exact ⟨⟨_, rfl⟩, tells.1, tells.2⟩
  | finds state looked =>
      subst state
      exact ⟨⟨_, rfl⟩, .at_once made rfl looked, acts, told, rfl⟩
  | asks state _ =>
      subst state
      exact ⟨⟨_, rfl⟩, ⟨acts, told, rfl⟩, rfl⟩
  | takes state =>
      subst state
      obtain ⟨found, before, passes, rfl⟩ := told
      exact ⟨⟨_, rfl⟩, found, before, passes, rfl⟩
  | fails state =>
      subst state
      obtain ⟨found, before, passes, rfl⟩ := told
      exact ⟨⟨_, rfl⟩, .finds passes found⟩
  | resolves state _ =>
      subst state
      obtain ⟨found, before, passes, rfl⟩ := told
      exact ⟨⟨_, rfl⟩, .calls passes found⟩
  | completes state _ _ =>
      subst state
      exact quiet.symm ▸ (told : FieldTells job seen site (site.guards job) acts)
  | waits state _ _ =>
      subst state
      exact ⟨⟨_, rfl⟩, quiet.symm ▸ (told : FieldTells job seen site (site.guards job) acts), trivial⟩
  | replaces state _ _ =>
      subst state
      exact ⟨⟨_, rfl⟩, quiet.symm ▸ (told : FieldTells job seen site (site.guards job) acts)⟩

/-- A field that is handed what it has waited for is as far as before. -/
theorem Resumed.told {next : FieldStep σ} {resumption : Resumption σ} (told : step.Told job seen acts)
    (hears : step.Hears job seen acts resumption) (resumed : step.Resumed resumption next) :
    next.Told job seen acts := by
  obtain ⟨parent, key, site, state⟩ := step
  cases resumed with
  | directs waiting resumed =>
      subst waiting
      exact resumed.told told hears
  | arguments waiting =>
      subst waiting
      obtain ⟨result, same, found⟩ := hears
      cases same
      exact ⟨found, told⟩
  | value waiting =>
      subst waiting
      exact told

/-- After a poll a field still waits for what its story is waiting for. -/
theorem Awaits.polled {wait rest : Wait σ} {s t : Stage σ} (awaits : step.Awaits seen acts wait)
    (heard : seen (.polled wait s)) (polls : wait.poll s = (.pending rest, t)) :
    step.Awaits seen acts rest := by
  obtain ⟨parent, key, site, state⟩ := step
  cases state with
  | runDirectives cursor => exact DirectiveCursor.Awaits.polled awaits heard polls
  | awaitingArguments =>
      obtain rfl : wait = .arguments site.argumentKey := awaits
      exact Wait.pollBag_pending polls
  | _ => trivial

theorem Awaits.answered {wait : Wait σ} {resumption : Resumption σ} {s t : Stage σ}
    (awaits : step.Awaits seen acts wait) (heard : seen (.polled wait s))
    (polls : wait.poll s = (.ready resumption, t)) : step.Hears job seen acts resumption := by
  obtain ⟨parent, key, site, state⟩ := step
  cases state with
  | runDirectives cursor => exact DirectiveCursor.Awaits.answered awaits heard polls
  | awaitingArguments =>
      obtain rfl : wait = .arguments site.argumentKey := awaits
      obtain ⟨result, rfl⟩ := Wait.pollBag_ready polls
      exact ⟨result, rfl, .later heard polls⟩
  | _ => trivial

end FieldStep

/-! ### Items -/

namespace ItemStep

variable {step : ItemStep σ} {item : ResolvedValue σ} {acts : List (PositionAct σ)}

/-- A step of an item is as far as its story tells. -/
def Told (job : Job σ) (seen : Sight σ → Prop) (item : ResolvedValue σ) (acts : List (PositionAct σ))
    (step : ItemStep σ) : Prop :=
  let uses := step.position.site.itemGuards job
  match step.state with
  | .runDirectives cursor value => value = item ∧ cursor.Told seen uses acts
  | .resolved result => ItemTells seen uses item acts ∧
      Looks seen uses item (acts ++ [.looks result])
  | .settled _ => Looks seen uses item acts
  | .awaitingValue => Looks seen uses item acts

/-- A step of an item waits for what its story is waiting for. -/
def Awaits (seen : Sight σ → Prop) (acts : List (PositionAct σ)) (wait : Wait σ) (step : ItemStep σ) :
    Prop :=
  match step.state with
  | .runDirectives cursor _ => cursor.Awaits seen acts wait
  | _ => True

/-- A step of an item that has waited is handed what its story was waiting for. -/
def Hears (seen : Sight σ → Prop) (acts : List (PositionAct σ)) (resumption : Resumption σ)
    (step : ItemStep σ) : Prop :=
  match step.state with
  | .runDirectives cursor _ => cursor.Hears seen acts resumption
  | _ => True

theorem Told.tells (told : step.Told job seen item acts) :
    ItemTells seen (step.position.site.itemGuards job) item acts := by
  unfold Told at told
  split at told
  · exact .guards told.2.guards
  · exact told.1
  · exact .looks told
  · exact .looks told

/-- Whatever the next transition of an item does, it is what comes next in its story. -/
theorem Told.tells_next (told : step.Told job seen item acts) (s : Stage σ) :
    ItemTells seen (step.position.site.itemGuards job) item
      (acts ++ (step.act? job s).toList) := by
  have quiet : ItemTells seen (step.position.site.itemGuards job) item
      (acts ++ (none : Option (PositionAct σ)).toList) := (List.append_nil acts).symm ▸ told.tells
  obtain ⟨position, state⟩ := step
  cases state with
  | runDirectives cursor value => exact .guards (DirectiveCursor.Told.guards_next told.2 _ _ _)
  | resolved result => exact .looks told.2
  | _ => exact quiet

/-- What a transition of an item comes to is as its story tells. -/
def Leaves (job : Job σ) (seen : Sight σ → Prop) (item : ResolvedValue σ) (acts : List (PositionAct σ))
    (step : ItemStep σ) : Progress σ → Prop
  | .again (.item next) => (∃ state, next = { step with state }) ∧ next.Told job seen item acts
  | .finished => ItemTells seen (step.position.site.itemGuards job) item acts
  | .parked (.item next) _ wait =>
    (∃ state, next = { step with state }) ∧ next.Told job seen item acts ∧
      next.Awaits seen acts wait
  | _ => False

/-- A transition of an item tells the next act of its story, and leaves it as far as that. -/
theorem Way.leaves {s t : Stage σ} {progress : Progress σ}
    (told : step.Told job seen item acts) (way : step.Way job s progress t) :
    Leaves job seen item (acts ++ (step.act? job s).toList) step progress := by
  have quiet : acts ++ (none : Option (PositionAct σ)).toList = acts := List.append_nil acts
  obtain ⟨position, state⟩ := step
  cases way with
  | directs state directed =>
      subst state
      exact ⟨⟨_, rfl⟩, told.1, (DirectiveCursor.way directed).tells told.2⟩
  | passes state directed =>
      subst state
      obtain ⟨rfl, told⟩ := told
      have tells := (DirectiveCursor.way directed).tells told
      exact ⟨⟨_, rfl⟩, .guards (.passes tells), .itself tells⟩
  | skips state directed _ =>
      subst state
      exact .guards (.skips ((DirectiveCursor.way directed).tells told.2))
  | stops state directed =>
      subst state
      have tells := (DirectiveCursor.way directed).tells told.2
      exact ⟨⟨_, rfl⟩, .guards (.stops tells), .instead tells⟩
  | awaits state directed =>
      subst state
      have tells := (DirectiveCursor.way directed).tells told.2
      exact ⟨⟨_, rfl⟩, ⟨told.1, tells.1⟩, tells.2⟩
  | waits state _ =>
      subst state
      exact ⟨⟨_, rfl⟩, told.2, trivial⟩
  | settles state _ _ =>
      subst state
      exact ⟨⟨_, rfl⟩, told.2⟩
  | completes state _ =>
      subst state
      exact .looks (quiet.symm ▸ (told : Looks seen (position.site.itemGuards job) item acts))
  | defers state _ =>
      subst state
      exact ⟨⟨_, rfl⟩, quiet.symm ▸ (told : Looks seen (position.site.itemGuards job) item acts),
        trivial⟩
  | replaces state _ =>
      subst state
      exact ⟨⟨_, rfl⟩, quiet.symm ▸ (told : Looks seen (position.site.itemGuards job) item acts)⟩

/-- A step of an item that is handed what it has waited for is as far as before. -/
theorem Resumed.told {next : ItemStep σ} {resumption : Resumption σ}
    (told : step.Told job seen item acts) (hears : step.Hears seen acts resumption)
    (resumed : step.Resumed resumption next) : next.Told job seen item acts := by
  obtain ⟨position, state⟩ := step
  cases resumed with
  | directs waiting resumed =>
      subst waiting
      exact ⟨told.1, resumed.told told.2 hears⟩
  | value waiting =>
      subst waiting
      exact ⟨.looks told, .again told _⟩

/-- After a poll an item still waits for what its story is waiting for. -/
theorem Awaits.polled {wait rest : Wait σ} {s t : Stage σ} (awaits : step.Awaits seen acts wait)
    (heard : seen (.polled wait s)) (polls : wait.poll s = (.pending rest, t)) :
    step.Awaits seen acts rest := by
  obtain ⟨position, state⟩ := step
  cases state with
  | runDirectives cursor value => exact DirectiveCursor.Awaits.polled awaits heard polls
  | _ => trivial

theorem Awaits.answered {wait : Wait σ} {resumption : Resumption σ} {s t : Stage σ}
    (awaits : step.Awaits seen acts wait) (heard : seen (.polled wait s))
    (polls : wait.poll s = (.ready resumption, t)) : step.Hears seen acts resumption := by
  obtain ⟨position, state⟩ := step
  cases state with
  | runDirectives cursor value => exact DirectiveCursor.Awaits.answered awaits heard polls
  | _ => trivial

end ItemStep

end GraphExec
