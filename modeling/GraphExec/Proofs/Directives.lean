import Mathlib
import GraphExec.Proofs.Beginning
import GraphExec.Proofs.Draft.Omitted
import GraphExec.Proofs.Run.Buckets
import GraphExec.Proofs.Run.Calls
import GraphExec.Proofs.Run.Chronicle
import GraphExec.Proofs.Run.Deeds
import GraphExec.Proofs.Run.Serial

/-!
# Directives guard positions

What a schedule does in a run is a sequence of transitions of steps, and what these do about a
position is its story. Whatever waits, and for however long, all stories go as they should; a
position that a directive leaves out is left out for good, without an error; and nothing is done
about a position whose parent is dead. The application code that the acts of stories stand for is
called by them only.
-/

namespace GraphExec

open Engine

variable {σ : Type} {job : Job σ}

/-! ### What acts call -/

/-- The answer that is taken up is that of the first directive that is left. -/
theorem DirectiveCursor.of_hears {cursor : DirectiveCursor σ} {owner : Subject} {path : Path}
    {world : World σ} {use : DirectiveUse σ} {flow : Except ResolverError DirectiveFlow}
    (hears : cursor.act? job owner path world = some (.hears use flow)) :
    ∃ rest, cursor = ⟨use :: rest, .answered flow⟩ := by
  obtain ⟨uses, stage⟩ := cursor
  unfold act? at hears
  split at hears
  · cases hears
  · cases hears
  · rename_i first rest answered same stage'
    injection hears with hears
    injection hears with same_use same_flow
    exact ⟨rest, by rw [← same_use, ← same_flow, ← stage', ← same]⟩
  · cases hears

/-- What a cursor comes to that has been told to leave the position out. -/
theorem DirectiveCursor.gives_skipped (use : DirectiveUse σ) (rest : List (DirectiveUse σ))
    (owner : Subject) (path : Path) (s : Stage σ) :
    (DirectiveCursor.advance ⟨use :: rest, .answered (.ok .skip)⟩ job owner path).Gives s .skipped s :=
  gives_pure.mpr ⟨rfl, rfl⟩

namespace Step

variable {step : Step σ} {s : Stage σ}

/-- A step whose parent is dead is dropped, whatever it has come to. -/
theorem advance_dead (dead : step.isAlive s.run.draft = false) :
    (step.advance job).Gives s .finished s := by
  cases step with
  | object step =>
      refine gives_bind.mpr ⟨s.run.draft, s, gives_draft.mpr ⟨rfl, rfl⟩, ?_⟩
      rw [if_neg (by simpa [isAlive] using dead)]
      exact gives_pure.mpr ⟨rfl, rfl⟩
  | field step => exact step.advance_dead job (by simpa [isAlive] using dead)
  | item step =>
      refine gives_bind.mpr ⟨s.run.draft, s, gives_draft.mpr ⟨rfl, rfl⟩, ?_⟩
      rw [if_pos (by simpa [isAlive] using dead)]
      exact gives_pure.mpr ⟨rfl, rfl⟩

/-- A step that takes up that its position is left out leaves it out, reports nothing and is done.
-/
theorem advance_skips {site : FieldSite σ} {use : DirectiveUse σ}
    (acts : step.act? job s = some (site, .hears use (.ok .skip))) :
    ∃ node key, step.spot = .slot node key ∧ s.run.draft.Alive node ∧
      (step.advance job).Gives s .finished
        ⟨{ s.run with draft := s.run.draft.skip node key }, s.world⟩ := by
  unfold act? at acts
  split at acts
  · rename_i alive
    cases step with
    | object step => cases acts
    | field step =>
        have lives : s.run.draft.isDead step.parent = false := by simpa [isAlive] using alive
        obtain ⟨act, acts, same⟩ := Option.map_eq_some_iff.mp acts
        injection same with _ same
        subst same
        obtain ⟨parent, key, site, state⟩ := step
        cases state with
        | runDirectives cursor =>
            obtain ⟨rest, rfl⟩ := DirectiveCursor.of_hears acts
            refine ⟨parent, .field key, rfl, lives,
              gives_bind.mpr ⟨_, s, gives_draft.mpr ⟨rfl, rfl⟩, ?_⟩⟩
            rw [if_neg (by simp [lives])]
            refine gives_bind.mpr ⟨_, s, gives_draft.mpr ⟨rfl, rfl⟩, ?_⟩
            refine gives_bind.mpr ⟨_, s, DirectiveCursor.gives_skipped use rest _ _ s, ?_⟩
            refine gives_bind.mpr ⟨(), _, gives_modifyDraft.mpr rfl, ?_⟩
            exact gives_pure.mpr ⟨rfl, rfl⟩
        | _ => cases acts
    | item step =>
        have lives : s.run.draft.isDead step.position.parent = false := by
          simpa [isAlive] using alive
        obtain ⟨act, acts, same⟩ := Option.map_eq_some_iff.mp acts
        injection same with _ same
        subst same
        obtain ⟨position, state⟩ := step
        cases state with
        | runDirectives cursor item =>
            obtain ⟨rest, rfl⟩ := DirectiveCursor.of_hears acts
            refine ⟨position.parent, position.key, rfl, lives,
              gives_bind.mpr ⟨_, s, gives_draft.mpr ⟨rfl, rfl⟩, ?_⟩⟩
            rw [if_neg (by simp [lives])]
            refine gives_bind.mpr ⟨_, s, gives_draft.mpr ⟨rfl, rfl⟩, ?_⟩
            refine gives_bind.mpr ⟨_, s, DirectiveCursor.gives_skipped use rest _ _ s, ?_⟩
            refine gives_bind.mpr ⟨(), _, gives_modifyDraft.mpr rfl, ?_⟩
            exact gives_pure.mpr ⟨rfl, rfl⟩
        | _ => cases acts
  · cases acts

end Step

/-- A position that a directive leaves out is left out of the draft, and no task is at it any more.
-/
theorem Weave.Move.skips {weave after : Weave σ} {step : Step σ} {s : Stage σ}
    (move : Weave.Move job weave (.advanced step s) after) (settled : weave.Settled)
    {site : FieldSite σ} {use : DirectiveUse σ}
    (acts : step.act? job s = some (site, .hears use (.ok .skip))) {node : NodeId}
    {key : PathSegment} (here : step.spot = .slot node key) :
    after.run.draft.LeftOut node key ∧ Plan.Done Task.spot after.plan node key ∧ after.Settled := by
  have leads : Leads job (fun _ => True) weave after := move.leads trivial settled
  cases move with
  | @advance step ready progress t picked advanced =>
      obtain ⟨node', key', here', alive, gives⟩ := step.advance_skips acts
      obtain ⟨rfl, rfl⟩ : node' = node ∧ key' = key := Spot.slot.inj (here'.symm.trans here)
      obtain ⟨rfl, rfl⟩ := advanced.unique gives
      obtain ⟨skipped, done⟩ :=
        (settled.perm (tasks_picked picked)).tidy.skipped here alive
      exact ⟨skipped, done, leads.2⟩

namespace Schedule

variable {schedule next first now last : Schedule σ} {owner : Nat} {weave : Weave σ}
  {deeds : List (Step σ × Stage σ)}

/-- By the time of what a schedule does, the stories in a run go as they should, and all that is
left to be done is as far as they tell. -/
theorem Did.told (did : first.Did owner now deeds) (later : now.Visits last)
    (shares : first.Shares owner job weave) (settled : weave.Settled)
    (told : weave.Told job (first.SawBy last owner job) []) :
    ∃ after, now.Shares owner job after ∧ after.Settled ∧
      after.Told job (first.SawBy last owner job) deeds := by
  induction did with
  | start => exact ⟨weave, shares, settled, told⟩
  | @step middle now deeds did turn ih =>
      obtain ⟨before, shares, settled, told⟩ := ih (Visits.trans (.step .start turn) later)
      have allowed : ∀ sight, middle.Sights owner job sight → first.SawBy last owner job sight :=
        fun sight sees => ⟨middle, now, did.visits, turn, later, sees⟩
      cases does : middle.deed? owner with
      | some deed =>
          obtain ⟨step, s⟩ := deed
          obtain ⟨after, move, shares'⟩ := shares.deed turn does
          have made : middle.Sights owner job (.advanced step s) := by
            obtain ⟨job', run, ready, phase, here, top, same⟩ := deed?_eq_some.mp does
            obtain ⟨rfl, -⟩ := shares.same_run here
            exact ⟨run, ready, phase, here, top, same⟩
          have settled' := (move.leads (allowed _ made) settled).2
          cases move with
          | advance picked advanced =>
              exact ⟨_, shares', settled', told.advance settled picked (allowed _ made) advanced⟩
      | none =>
          obtain ⟨after, path, shares'⟩ := shares.no_deed turn does
          have path := path.mono fun _ saw => And.intro (allowed _ saw.1) saw.2
          rw [Option.toList_none, List.append_nil]
          exact ⟨after, shares', (path.leads settled).2, told.aside_all path⟩

/-- A position that a directive leaves out is left out for good, without an error. -/
theorem Shares.skips (shares : schedule.Shares owner job weave) (settled : weave.Settled)
    {step : Step σ} {s : Stage σ} (does : schedule.deed? owner = some (step, s))
    {site : FieldSite σ} {use : DirectiveUse σ}
    (acts : step.act? job s = some (site, .hears use (.ok .skip))) :
    ∃ node key next, step.spot = .slot node key ∧ schedule.step = .again next ∧
      next.world = schedule.world ∧
      next.runs[owner]? =
        some (job, { s.run with draft := s.run.draft.skip node key }) ∧
      ∀ later run, next.Visits later → later.runs[owner]? = some (job, run) →
        run.draft.LeftOut node key := by
  obtain ⟨job', run, ready, phase, here, top, same⟩ := deed?_eq_some.mp does
  obtain ⟨rfl, rfl⟩ := shares.same_run here
  obtain ⟨node, key, spot, alive, gives⟩ := step.advance_skips acts
  let left : Run σ := { s.run with draft := s.run.draft.skip node key }
  have turn : schedule.step = .again ((({ schedule with world := s.world } : Schedule σ).modifyRun
      owner fun _ => left).place owner .finished) := by
    subst same
    exact (step_ready phase here top).trans (advance_of_gives gives)
  have there := getElem?_modifyRun ({ schedule with world := s.world } : Schedule σ) owner owner
    fun _ => left
  rw [if_pos rfl, here] at there
  refine ⟨node, key, _, spot, turn, congrArg Stage.world same, there, fun later run visits here => ?_⟩
  obtain ⟨after, move, shares'⟩ := shares.deed turn does
  obtain ⟨last, path, shares_last⟩ := visits.shares shares'
  obtain ⟨-, rfl⟩ := shares_last.same_run here
  obtain ⟨skipped, done, settled'⟩ := move.skips settled acts spot
  exact (path.leads settled').1.leftOut settled'.tidy done skipped

end Schedule

/-! ### Executions -/

namespace Schema

variable {schema : Schema σ} {config : Config} {requests : List Request} {first : Schedule σ}

/-- A directive that lets a field go on when it is asked again, and leaves out each item of a list.
-/
def taste : DirectiveDefinition Unit where
  name := "taste"
  resolve? := some fun _ => pure (.ok (.later (.pause (.done (.ok .proceed)))))
  resolveEach? := some fun _ => pure (.ok (.ready .skip))

/-- A schema with a list, and the directive. -/
def menu : SchemaBuilder Unit :=
  ((SchemaBuilder.new "Query").register (.object
    { name := "Query"
      fields := [("soups",
        { name := "soups", type := .list (.named "Int")
          resolve? := some fun _ => pure { result := .ok (.list [.value (.int 1)]) } })]
    })).directive taste

end Schema

end GraphExec
