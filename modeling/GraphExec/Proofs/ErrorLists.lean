import Mathlib
import GraphExec.Proofs.Draft.Fallen
import GraphExec.Proofs.Run.Buckets
import GraphExec.Proofs.Run.Outcome

/-!
# Lists of nothing but errors

A list of nothing but errors is written at once: no step is made for its items. What is written and
reported is what the steps would write and report, provided that the directives of the field let
every item through at once; they are not asked.
-/

namespace GraphExec

variable {σ : Type}

open Engine

/-! ### What lets items through -/

/-- A bag of arguments that is there is looked up without further ado. -/
theorem Engine.gives_lookUp_ready {key : ArgumentKey} {coerce : Action σ (Coercion σ)}
    {result : ArgumentsResult} {s : Stage σ}
    (found : s.run.arguments.get? key = some (.ready result)) :
    (lookUp key coerce).Gives s (some result) s := by
  refine gives_bind.mpr ⟨s, s, rfl, ?_⟩
  rw [found]
  exact gives_pure.mpr ⟨rfl, rfl⟩

/-- The directives of a cursor let a position through, without anything being waited for. -/
inductive DirectiveCursor.LetsThrough (job : Job σ) (owner : Subject) (path : Path) :
    DirectiveCursor σ → Stage σ → Stage σ → Prop
  | passed {cursor : DirectiveCursor σ} {s t : Stage σ}
      (passed : (cursor.advance job owner path).Gives s .passed t) :
      LetsThrough job owner path cursor s t
  | again {cursor next : DirectiveCursor σ} {s t u : Stage σ}
      (goes_on : (cursor.advance job owner path).Gives s (.again next) t)
      (behind : LetsThrough job owner path next t u) : LetsThrough job owner path cursor s u

namespace DirectiveCursor.LetsThrough

variable {job : Job σ} {owner : Subject} {path : Path} {s t u : Stage σ}

/-- Where no directive is left, the position is let through. -/
theorem nil (stage : DirectiveStage) : LetsThrough job owner path ⟨[], stage⟩ s s :=
  .passed (gives_pure.mpr ⟨rfl, rfl⟩)

/-- A directive lets the position through if its arguments are there and its hook answers so, at
once. -/
theorem cons {use : DirectiveUse σ} {rest : List (DirectiveUse σ)} {key : ArgumentKey}
    {arguments : Arguments} {world : World σ}
    (looked : (use.directive.lookUp job use.definition owner.identity).Gives s
      (key, some (.ok arguments)) t)
    (proceeds : (use.hook ⟨arguments, owner.value, path, job.query⟩).run t.world =
      (.ok (.ready .proceed), world))
    (behind : LetsThrough job owner path (.next rest) { t with world } u) :
    LetsThrough job owner path ⟨use :: rest, .unstarted⟩ s u := by
  have called : (advance ⟨use :: rest, .unstarted⟩ job owner path).Gives s
      (.again ⟨use :: rest, .called (.ok arguments)⟩) t :=
    gives_bind.mpr ⟨_, t, looked, gives_pure.mpr ⟨rfl, rfl⟩⟩
  have answered : (advance ⟨use :: rest, .called (.ok arguments)⟩ job owner path).Gives t
      (.again ⟨use :: rest, .answered (.ok .proceed)⟩) { t with world } := by
    refine gives_bind.mpr ⟨.ok (.ready .proceed), _, ?_, gives_pure.mpr ⟨rfl, rfl⟩⟩
    exact gives_call.mpr ⟨congrArg Prod.fst proceeds, by rw [proceeds]⟩
  have goes_on : (advance ⟨use :: rest, .answered (.ok .proceed)⟩ job owner path).Gives
      { t with world } (.again (.next rest)) { t with world } :=
    gives_pure.mpr ⟨rfl, rfl⟩
  exact .again called (.again answered (.again goes_on behind))

end DirectiveCursor.LetsThrough

/-- The steps and the response of a run, with its errors, are the same at two stages. -/
structure SameResponse (s t : Stage σ) : Prop extends SameTree s t where
  errors : t.run.errors = s.run.errors

instance : Aside (SameResponse (σ := σ)) where
  refl s := ⟨.refl s, rfl⟩
  trans first second := ⟨first.toSameTree.trans second.toSameTree, second.errors.trans first.errors⟩
  call _ _ := ⟨⟨rfl, rfl, rfl, rfl⟩, rfl⟩
  tell _ _ := ⟨⟨rfl, rfl, rfl, rfl⟩, rfl⟩
  count _ _ := ⟨⟨rfl, rfl, rfl, rfl⟩, rfl⟩

instance : Starts (SameResponse (σ := σ)) where
  start _ _ _ _ := ⟨⟨rfl, rfl, rfl, rfl⟩, rfl⟩

theorem DirectiveCursor.LetsThrough.same {job : Job σ} {owner : Subject} {path : Path}
    {cursor : DirectiveCursor σ} {s t : Stage σ} (lets : LetsThrough job owner path cursor s t) :
    SameResponse s t := by
  induction lets with
  | passed passed => exact DirectiveCursor.keeps_advance _ _ _ _ _ _ _ passed
  | again goes_on _ ih =>
      exact Aside.trans (DirectiveCursor.keeps_advance _ _ _ _ _ _ _ goes_on) ih

/-! ### Steps at the head of the queue -/

/-- A stage with steps in front of those that are ready. -/
def Stage.push (s : Stage σ) (steps : List (Step σ)) : Stage σ :=
  { s with run := { s.run with ready := steps ++ s.run.ready } }

/-- A stage with other steps that are ready. -/
def Stage.withReady (s : Stage σ) (steps : List (Step σ)) : Stage σ :=
  { s with run := { s.run with ready := steps } }

theorem Stage.withReady_push {s : Stage σ} {steps behind : List (Step σ)}
    (ready : s.run.ready = steps ++ behind) : (s.withReady behind).push steps = s := by
  unfold withReady push
  simp only
  rw [← ready]

namespace Schedule

/-- The ready steps of a run are being run. -/
structure Works (schedule : Schedule σ) (owner : Nat) (job : Job σ) (s : Stage σ) : Prop where
  phase : schedule.phase = .draining owner
  world : schedule.world = s.world
  run : schedule.runs[owner]? = some (job, s.run)

variable {schedule : Schedule σ} {owner : Nat} {job : Job σ} {s t : Stage σ} {step : Step σ}

/-- The first of the ready steps makes a transition. -/
theorem Works.advance (works : schedule.Works owner job (s.push [step])) {progress : Progress σ}
    (gives : (step.advance job).Gives s progress t) :
    ∃ next : Schedule σ, next.Works owner job t ∧
      schedule.step = .again (next.place owner progress) := by
  refine ⟨{ schedule with world := t.world }.modifyRun owner fun _ => t.run, ?_, ?_⟩
  · refine ⟨works.phase, rfl, ?_⟩
    rw [getElem?_modifyRun, if_pos rfl, works.run]
    rfl
  · have ran : (step.advance job).Gives ⟨s.run, schedule.world⟩ progress t := by
      rw [works.world]
      exact gives
    exact (step_ready works.phase works.run rfl).trans (advance_of_gives ran)

/-- A step that goes on is the first that is ready again. -/
theorem Works.again (works : schedule.Works owner job (s.push [step])) {onward : Step σ}
    (gives : (step.advance job).Gives s (.again onward) t) :
    ∃ next : Schedule σ, next.Works owner job (t.push [onward]) ∧ schedule.step = .again next := by
  obtain ⟨next, works, turn⟩ := works.advance gives
  refine ⟨next.place owner (.again onward), ⟨works.phase, works.world, ?_⟩, turn⟩
  unfold place
  rw [getElem?_modifyRun, if_pos rfl, works.run]
  rfl

/-- A step that is done leaves the queue. -/
theorem Works.finished (works : schedule.Works owner job (s.push [step]))
    (gives : (step.advance job).Gives s .finished t) :
    ∃ next : Schedule σ, next.Works owner job t ∧ schedule.step = .again next :=
  works.advance gives

end Schedule

/-! ### An item that is an error -/

namespace Position

variable {position : Position σ} {s t : Stage σ}

/-- What is left when an error has been written. -/
def refused (position : Position σ) (error : ExecutionError) (s : Stage σ) : Stage σ :=
  { s with run := { s.run with
      draft := s.run.draft.setLeaf position.parent position.key .null position.nonNull
      errors := s.run.errors ++
        [error.attach (position.path s.run.draft) position.site.location] } }

theorem gives_writeError {error : ExecutionError} {u : Unit} :
    (position.writeError error).Gives s u t ↔ position.refused error s = t := by
  unfold writeError report write
  simp [refused]

end Position

/-- A null where it is allowed kills no node. -/
theorem Draft.isDead_setLeaf_nullable (draft : Draft) (id other : NodeId) (key : PathSegment)
    (value : Value) : (draft.setLeaf id key value false).isDead other = draft.isDead other := by
  rcases draft.setLeaf_cases id key value false with
    ⟨-, same⟩ | ⟨-, ⟨-, ruled_out⟩, -⟩ | ⟨-, -, same⟩
  · rw [same]
  · cases ruled_out
  · rw [same, put_eq_edit, isDead_edit]

namespace ItemStep

variable {job : Job σ} {position : Position σ} {step : ItemStep σ} {s t : Stage σ}

theorem gives_advance (alive : s.run.draft.Alive step.position.parent) {progress : Progress σ}
    (gives : (step.advanceAlive job).Gives s progress t) :
    (Step.advance (.item step) job).Gives s progress t := by
  show (step.advance job).Gives s progress t
  unfold ItemStep.advance
  refine gives_bind.mpr ⟨s.run.draft, s, gives_draft.mpr ⟨rfl, rfl⟩, ?_⟩
  rw [show s.run.draft.isDead step.position.parent = false from alive]
  exact gives

/-- The step goes on as the directives of its position do. -/
theorem gives_directives {cursor : DirectiveCursor σ} {item : ResolvedValue σ}
    (alive : s.run.draft.Alive position.parent) {answer : CursorProgress σ}
    (gives : (cursor.advance job position.site.owner (position.path s.run.draft)).Gives s answer t)
    {state : ItemState σ}
    (goes_on : (∃ next, answer = .again next ∧ state = .runDirectives next item) ∨
      (answer = .passed ∧ state = .resolved (.ok item))) :
    (Step.advance (.item ⟨position, .runDirectives cursor item⟩) job).Gives s
      (.again (.item ⟨position, state⟩)) t := by
  refine gives_advance alive ?_
  unfold advanceAlive
  refine gives_bind.mpr ⟨_, s, gives_draft.mpr ⟨rfl, rfl⟩, gives_bind.mpr ⟨answer, t, gives, ?_⟩⟩
  rcases goes_on with ⟨next, rfl, rfl⟩ | ⟨rfl, rfl⟩ <;> exact gives_pure.mpr ⟨rfl, rfl⟩

theorem gives_resolved {error : ExecutionError} (alive : s.run.draft.Alive position.parent) :
    (Step.advance (.item ⟨position, .resolved (.ok (.error error))⟩) job).Gives s
      (.again (.item ⟨position, .settled (.error error)⟩)) s := by
  refine gives_advance alive ?_
  unfold advanceAlive
  refine gives_bind.mpr ⟨_, s, gives_draft.mpr ⟨rfl, rfl⟩, gives_bind.mpr ⟨.error error, s, ?_, ?_⟩⟩
  · exact gives_pure.mpr ⟨rfl, rfl⟩
  · exact gives_pure.mpr ⟨rfl, rfl⟩

theorem gives_settled {error : ExecutionError} (alive : s.run.draft.Alive position.parent) :
    (Step.advance (.item ⟨position, .settled (.error error)⟩) job).Gives s .finished
      (position.refused error s) := by
  refine gives_advance alive ?_
  unfold advanceAlive
  refine gives_bind.mpr ⟨_, s, gives_draft.mpr ⟨rfl, rfl⟩,
    gives_bind.mpr ⟨.done, position.refused error s, ?_, ?_⟩⟩
  · unfold Position.complete
    exact gives_bind.mpr ⟨(), _, Position.gives_writeError.mpr rfl, gives_pure.mpr ⟨rfl, rfl⟩⟩
  · exact gives_pure.mpr ⟨rfl, rfl⟩

end ItemStep

namespace Schedule

variable {schedule : Schedule σ} {owner : Nat} {job : Job σ} {s t : Stage σ}
  {position : Position σ}

/-- An item that is an error is refused as soon as the directives let it through. -/
theorem Works.refuse {cursor : DirectiveCursor σ} {error : ExecutionError} {path : Path}
    (works : schedule.Works owner job
      (s.push [.item ⟨position, .runDirectives cursor (.error error)⟩]))
    (lets : cursor.LetsThrough job position.site.owner path s t)
    (alive : s.run.draft.Alive position.parent) (here : position.path s.run.draft = path) :
    ∃ last, schedule.Visits last ∧ last.Works owner job (position.refused error t) := by
  induction lets generalizing schedule with
  | @passed cursor s t passed =>
      have same : SameResponse s t := DirectiveCursor.keeps_advance _ _ _ _ _ _ _ passed
      have alive' : t.run.draft.Alive position.parent := same.draft ▸ alive
      subst here
      obtain ⟨first, works, turn⟩ :=
        works.again (ItemStep.gives_directives alive passed (.inr ⟨rfl, rfl⟩))
      obtain ⟨second, works, turn'⟩ := works.again (ItemStep.gives_resolved alive')
      obtain ⟨last, works, turn''⟩ := works.finished (ItemStep.gives_settled alive')
      exact ⟨last, ((Visits.start.step turn).step turn').step turn'', works⟩
  | @again cursor next s t u goes_on behind ih =>
      have same : SameResponse s t := DirectiveCursor.keeps_advance _ _ _ _ _ _ _ goes_on
      have onward :
          (Step.advance (.item ⟨position, .runDirectives cursor (.error error)⟩) job).Gives s
            (.again (.item ⟨position, .runDirectives next (.error error)⟩)) t :=
        ItemStep.gives_directives alive (here ▸ goes_on) (.inl ⟨next, rfl, rfl⟩)
      obtain ⟨first, works, turn⟩ := works.again onward
      obtain ⟨last, visits, works⟩ := ih works (same.draft ▸ alive) (same.draft ▸ here)
      exact ⟨last, Visits.trans (.step .start turn) visits, works⟩

end Schedule

/-! ### All items -/

namespace Position

/-- What is left when errors have been written as the items of a list, from an item on. -/
def refusedItems (position : Position σ) (list : NodeId) (itemType : TypeRef) (n : Nat) :
    List ExecutionError → Stage σ → Stage σ
  | [], s => s
  | error :: rest, s =>
    position.refusedItems list itemType (n + 1) rest
      ((position.item list itemType n).refused error s)

variable {position : Position σ} {list : NodeId} {itemType : TypeRef} {s t : Stage σ}
  {errors : List ExecutionError}

theorem gives_writeErrorItems : ∀ {errors : List ExecutionError} {n : Nat} {s : Stage σ},
    (position.writeErrorItems list itemType n errors).Gives s ()
      (position.refusedItems list itemType n errors s) := by
  intro errors
  induction errors with
  | nil => exact fun {n s} => gives_pure.mpr ⟨rfl, rfl⟩
  | cons error rest ih =>
      exact fun {n s} => gives_bind.mpr ⟨(), _, gives_writeError.mpr rfl, ih⟩

theorem refusedItems_outside (position : Position σ) (list : NodeId) (itemType : TypeRef)
    (errors : List ExecutionError) : ∀ (n : Nat) (s : Stage σ),
    (position.refusedItems list itemType n errors s).world = s.world ∧
      (position.refusedItems list itemType n errors s).run.arguments = s.run.arguments := by
  induction errors with
  | nil => exact fun _ _ => ⟨rfl, rfl⟩
  | cons error rest ih => exact fun n s => ih (n + 1) _

/-- The directives of the field, as they are run for each item of a list. -/
def eachCursor (position : Position σ) (job : Job σ) : DirectiveCursor σ :=
  .new job.schema (·.resolveEach?) position.site.directives

/-- A draft in which a list has been opened at the position. -/
def opened (position : Position σ) (size : Nat) (draft : Draft) : Draft :=
  (draft.newList position.parent position.key size position.nonNull).2

/-- The directives of the field let the items of a list through at once, each when it is its turn;
before each item the world and the arguments are as `fine` says. -/
def ItemsPass (position : Position σ) (job : Job σ) (itemType : TypeRef) (size : Nat)
    (draft : Draft) (fine : Nat → World σ → ArgumentStore σ → Prop) : Prop :=
  ∀ n < size, ∀ s : Stage σ, fine n s.world s.run.arguments →
    ∃ t, (position.eachCursor job).LetsThrough job position.site.owner
        ((position.item draft.nodes.size itemType n).path (position.opened size draft)) s t ∧
      fine (n + 1) t.world t.run.arguments

end Position

namespace Schedule

variable {schedule : Schedule σ} {owner : Nat} {job : Job σ} {s c : Stage σ}
  {position : Position σ} {itemType : TypeRef} {size : Nat} {draft : Draft}
  {fine : Nat → World σ → ArgumentStore σ → Prop}

/-- The steps of items that are errors write and report what is written and reported without
them. -/
theorem Works.refuse_items (passes : position.ItemsPass job itemType size draft fine)
    (nullable : itemType.isNonNull = false) {errors : List ExecutionError} :
    ∀ {n : Nat} {s c : Stage σ} {schedule : Schedule σ}, n + errors.length = size →
      fine n s.world s.run.arguments → s.run.draft = c.run.draft → s.run.errors = c.run.errors →
      (∀ id, s.run.draft.parent? id = (position.opened size draft).parent? id) →
      s.run.draft.Alive draft.nodes.size →
      schedule.Works owner job (s.push (position.itemSteps draft.nodes.size itemType
        (position.eachCursor job) n (errors.map .error))) →
      ∃ last t, schedule.Visits last ∧ last.Works owner job t ∧ t.run.ready = s.run.ready ∧
        fine size t.world t.run.arguments ∧
        t.run.draft = (position.refusedItems draft.nodes.size itemType n errors c).run.draft ∧
        t.run.errors = (position.refusedItems draft.nodes.size itemType n errors c).run.errors := by
  -- On the one side a stage that the steps come to, on the other one that is left without them:
  -- their drafts and their errors are the same before each item.
  induction errors with
  | nil =>
      intro n s c schedule sized here same_draft same_errors _ _ works
      exact ⟨schedule, s, .start, works, rfl, sized ▸ here, same_draft, same_errors⟩
  | cons error rest ih =>
      intro n s c schedule sized here same_draft same_errors parents alive works
      let item := position.item draft.nodes.size itemType n
      let others := position.itemSteps draft.nodes.size itemType (position.eachCursor job) (n + 1)
        (rest.map .error)
      have bound : n < size := by
        rw [List.length_cons] at sized
        omega
      obtain ⟨u, lets, onward⟩ := passes n bound (s.push others) here
      have same : SameResponse (s.push others) u := lets.same
      have path : item.path s.run.draft = item.path (position.opened size draft) :=
        Draft.pathTo_congr parents _ _
      have first : schedule.Works owner job ((s.push others).push
        [.item ⟨item, .runDirectives (position.eachCursor job) (.error error)⟩]) := works
      obtain ⟨middle, visits, works⟩ := first.refuse lets alive path
      -- The other items are still in front of the steps that were ready.
      let left : Stage σ := (item.refused error u).withReady s.run.ready
      have queued : left.push others = item.refused error u := Stage.withReady_push same.ready
      rw [← queued] at works
      have draft_kept : u.run.draft = s.run.draft := same.draft
      have draft_here : u.run.draft = c.run.draft := draft_kept.trans same_draft
      have errors_here : u.run.errors = c.run.errors := same.errors.trans same_errors
      have left_draft : left.run.draft = s.run.draft.setLeaf draft.nodes.size (.index n) .null
          itemType.isNonNull := by
        rw [← draft_kept]
        rfl
      have left_alive : left.run.draft.Alive draft.nodes.size := by
        unfold Draft.Alive
        rw [left_draft, nullable, Draft.isDead_setLeaf_nullable]
        exact alive
      obtain ⟨last, t, onwards, works, same⟩ :=
        @ih (n + 1) left (item.refused error c) middle (by rw [← sized, List.length_cons]; omega)
          onward (by simp only [left, Stage.withReady, Position.refused, draft_here])
          (by simp only [left, Stage.withReady, Position.refused, draft_here, errors_here])
          (fun id => by rw [left_draft, Draft.parent?_setLeaf, parents id]) left_alive works
      exact ⟨last, t, visits.trans onwards, works, same⟩

end Schedule

/-! ### Both ways -/

namespace Position

variable {job : Job σ} {position : Position σ} {itemType : TypeRef} {errors : List ExecutionError}
  {s : Stage σ}

theorem errors_map (errors : List ExecutionError) :
    ResolvedValue.errors (errors.map (.error : ExecutionError → ResolvedValue σ)) = errors := by
  induction errors with
  | nil => rfl
  | cons error rest ih => exact congrArg (error :: ·) ih

theorem all_isError (errors : List ExecutionError) :
    (errors.map (.error : ExecutionError → ResolvedValue σ)).all (·.isError) = true := by
  simp [ResolvedValue.isError]

theorem gives_enqueueItems {list : NodeId} {cursor : DirectiveCursor σ} :
    ∀ {items : List (ResolvedValue σ)} {n : Nat} {s : Stage σ},
      (position.enqueueItems list itemType cursor n items).Gives s ()
        (s.withReady (s.run.ready ++ position.itemSteps list itemType cursor n items)) := by
  intro items
  induction items with
  | nil =>
      intro n s
      refine gives_pure.mpr ⟨rfl, ?_⟩
      rw [itemSteps, List.append_nil]
      rfl
  | cons item rest ih =>
      intro n s
      refine gives_bind.mpr ⟨(), _, gives_enqueue.mpr rfl, ?_⟩
      have behind := @ih (n + 1) { s with run := { s.run with ready := s.run.ready ++
        [.item ⟨position.item list itemType n, .runDirectives cursor item⟩] } }
      rw [List.append_assoc] at behind
      exact behind

/-- What is left when a list has been opened. -/
def openedAt (position : Position σ) (size : Nat) (s : Stage σ) : Stage σ :=
  { s with run := { s.run with draft := position.opened size s.run.draft } }

theorem gives_completeErrors (type : position.type.nullable = .list itemType) :
    (position.completeErrors errors).Gives s ()
      (position.refusedItems s.run.draft.nodes.size itemType 0 errors
        (position.openedAt errors.length s)) := by
  unfold completeErrors
  rw [type]
  exact gives_bind.mpr ⟨_, _, gives_allocate.mpr ⟨rfl, rfl⟩, gives_writeErrorItems⟩

theorem gives_completeList (position : Position σ) (job : Job σ) (itemType : TypeRef)
    (items : List (ResolvedValue σ)) (s : Stage σ) :
    (position.completeList job itemType items).Gives s ()
      ((position.openedAt items.length s).withReady (s.run.ready ++
        position.itemSteps s.run.draft.nodes.size itemType (position.eachCursor job) 0 items)) := by
  unfold completeList
  exact gives_bind.mpr ⟨_, _, gives_allocate.mpr ⟨rfl, rfl⟩, gives_enqueueItems⟩

theorem gives_complete_errors (some_error : errors ≠ []) {t : Stage σ}
    (gives : (position.completeErrors errors).Gives s () t) :
    (position.complete job (.list (errors.map .error))).Gives s .done t := by
  obtain ⟨error, rest, rfl⟩ := List.exists_cons_of_ne_nil some_error
  have all := all_isError (σ := σ) (error :: rest)
  have same := errors_map (σ := σ) (error :: rest)
  rw [List.map_cons] at all same ⊢
  unfold complete
  simp only [all, same, if_true]
  exact gives_bind.mpr ⟨(), t, gives, gives_pure.mpr ⟨rfl, rfl⟩⟩

/-- Without directives that have a hook for items, every item passes. -/
theorem itemsPass_of_no_hook (no_hook : (position.eachCursor job).uses = []) (size : Nat)
    (draft : Draft) : position.ItemsPass job itemType size draft fun _ _ _ => True := by
  intro n _ s _
  generalize position.eachCursor job = cursor at no_hook ⊢
  obtain ⟨uses, stage⟩ := cursor
  subst no_hook
  exact ⟨s, .nil stage, trivial⟩

/-- The steps that the list path makes for a list of errors, one for each item. -/
def errorSteps (position : Position σ) (job : Job σ) (itemType : TypeRef)
    (errors : List ExecutionError) (draft : Draft) : List (Step σ) :=
  position.itemSteps draft.nodes.size itemType (position.eachCursor job) 0 (errors.map .error)

/-- A list of nothing but errors, at a position that takes a list whose items may be null, is
completed without any step and without asking the application. If the directives of the field let
every item through at once, then the list path comes to the same: once the steps that it makes,
one for each item, are at the head of the queue, they are run to their ends, and leave the same
response and the same errors behind. -/
theorem error_list_agrees (type : position.type.nullable = .list itemType)
    (nullable : itemType.isNonNull = false) (some_error : errors ≠ [])
    (alive : s.run.draft.Alive position.parent) :
    ∃ t, (position.complete job (.list (errors.map .error))).Gives s .done t ∧
      t.world = s.world ∧ t.run.arguments = s.run.arguments ∧
      ∀ fine, fine 0 s.world s.run.arguments →
        position.ItemsPass job itemType errors.length s.run.draft fine →
        ∃ u, (position.completeList job itemType (errors.map .error)).Gives s () u ∧
          u.run.ready = s.run.ready ++ position.errorSteps job itemType errors s.run.draft ∧
          ∀ (schedule : Schedule σ) (owner : Nat) (behind : List (Step σ)),
            schedule.Works owner job
              (u.withReady (position.errorSteps job itemType errors s.run.draft ++ behind)) →
            ∃ last v, schedule.Visits last ∧ last.Works owner job v ∧ v.run.ready = behind ∧
              fine errors.length v.world v.run.arguments ∧
              v.run.draft = t.run.draft ∧ v.run.errors = t.run.errors := by
  let list := s.run.draft.nodes.size
  let opened := position.openedAt errors.length s
  have list_alive : opened.run.draft.Alive list :=
    (Draft.alive_allocate alive list).mpr (.inl rfl)
  obtain ⟨world, arguments⟩ :=
    position.refusedItems_outside list itemType errors 0 opened
  refine ⟨position.refusedItems list itemType 0 errors opened,
    gives_complete_errors some_error (gives_completeErrors type), world, arguments, ?_⟩
  intro fine here passes
  have listed := position.gives_completeList job itemType (errors.map .error) s
  rw [List.length_map] at listed
  refine ⟨_, listed, rfl, ?_⟩
  intro schedule owner behind works
  exact Schedule.Works.refuse_items passes nullable (s := opened.withReady behind) (c := opened)
    (Nat.zero_add _) here rfl rfl (fun _ => rfl) list_alive works

/-! ### A directive that counts the items -/

/-- A directive that counts the items that it is asked for, and lets them through. -/
def counted : DirectiveDefinition Nat where
  name := "counted"
  resolveEach? := some fun _ =>
    Action.modifyState (· + 1) >>= fun _ => pure (.ok (.ready .proceed))

/-- The request `{ xs @counted }`, with `xs` a list of integers. -/
def countedJob : Job Nat where
  schema :=
    { types := []
      queryType := "Query"
      mutationType? := none
      subscriptionType? := none
      directives := [("counted", counted)]
      possible := []
      hooks := {} }
  operation :=
    { name? := none
      kind := .query
      definitions := []
      selections := [.field ⟨none, "xs", [], [⟨"counted", [], ⟨1, 6⟩, 5⟩], [], ⟨1, 3⟩, 2⟩]
      location := ⟨1, 1⟩ }
  fragments := []
  query := { bindings := [], operationName? := none, data? := none }
  root := .null

/-- The position of the field. -/
def countedPosition : Position Nat where
  parent := Draft.root
  key := .field "xs"
  type := .list (.named "Int")
  site :=
    { typeName := "Query"
      field := { name := "xs", type := .list (.named "Int") }
      group := ⟨⟨none, "xs", [], [⟨"counted", [], ⟨1, 6⟩, 5⟩], [], ⟨1, 3⟩, 2⟩, []⟩
      owner := ⟨.null, .data 0⟩ }

/-- The field has been resolved, and its step was the only one. -/
def countedStage : Stage Nat where
  run := ⟨Draft.new .null, [], [], [], [], 0, 1⟩
  world := ⟨0, fun _ state => state, []⟩

theorem counted_passes : countedPosition.ItemsPass countedJob (.named "Int") 2
    countedStage.run.draft fun n world store => world.app = n ∧
      (n = 0 → store = []) ∧
      (n ≠ 0 → store.get? ⟨5, .directive "counted", none⟩ = some (.ready (.ok .empty))) := by
  rintro n - s ⟨count, fresh, known⟩
  let key : ArgumentKey := ⟨5, .directive "counted", none⟩
  have cursor : countedPosition.eachCursor countedJob =
      ⟨[⟨⟨"counted", [], ⟨1, 6⟩, 5⟩, counted, counted.resolveEach?.get rfl⟩], .unstarted⟩ :=
    rfl
  have looked : ∃ t, (Directive.lookUp ⟨"counted", [], ⟨1, 6⟩, 5⟩ countedJob counted
      (.data 0)).Gives s (key, some (.ok .empty)) t ∧ t.world = s.world ∧
        t.run.arguments.get? key = some (.ready (.ok .empty)) := by
    by_cases first : n = 0
    · obtain ⟨⟨draft, errors, arguments, ready, held, parked, data⟩, world⟩ := s
      have none_yet : arguments = [] := fresh first
      subst none_yet
      exact ⟨_, rfl, rfl, rfl⟩
    · have found := known first
      exact ⟨s, gives_bind.mpr ⟨_, s, gives_lookUp_ready found, gives_pure.mpr ⟨rfl, rfl⟩⟩, rfl,
        found⟩
  obtain ⟨t, looked, world, known⟩ := looked
  rw [cursor]
  refine ⟨_, .cons looked rfl (.nil _), ?_, nofun, fun _ => known⟩
  show t.world.app + 1 = n + 1
  rw [world, count]

/-- The steps count two items, and leave what is left without them. -/
theorem error_list_agrees_counted : ∃ t u last v,
    let values : List (ResolvedValue Nat) := [.error { message := "a" }, .error { message := "b" }]
    (countedPosition.complete countedJob (.list values)).Gives countedStage .done t ∧
      t.world.app = 0 ∧
      (countedPosition.completeList countedJob (.named "Int") values).Gives countedStage () u ∧
      Schedule.Visits ⟨[(countedJob, u.run)], u.world, [], .draining 0, true⟩ last ∧
      last.Works 0 countedJob v ∧ v.run.ready = [] ∧ v.world.app = 2 ∧
      v.run.draft = t.run.draft ∧ v.run.errors = t.run.errors := by
  let errors : List ExecutionError := [{ message := "a" }, { message := "b" }]
  obtain ⟨t, written, world, -, agrees⟩ := @error_list_agrees _ countedJob countedPosition
    (.named "Int") errors countedStage rfl rfl (by simp [errors]) rfl
  obtain ⟨u, listed, ready, agrees⟩ := agrees _ ⟨rfl, fun _ => rfl, nofun⟩ counted_passes
  let steps := countedPosition.errorSteps countedJob (.named "Int") errors countedStage.run.draft
  have alone : u.withReady (steps ++ []) = u := by
    have queue : u.run.ready = steps := ready
    rw [List.append_nil, ← queue]
    rfl
  let schedule : Schedule Nat := ⟨[(countedJob, u.run)], u.world, [], .draining 0, true⟩
  have works : schedule.Works 0 countedJob (u.withReady (steps ++ [])) := by
    rw [alone]
    exact ⟨rfl, rfl, rfl⟩
  obtain ⟨last, v, visits, works, done, ⟨asked, -⟩, draft, reports⟩ := agrees schedule 0 [] works
  exact ⟨t, u, last, v, written, congrArg World.app world, listed, visits, works, done, asked,
    draft, reports⟩

end Position

end GraphExec
