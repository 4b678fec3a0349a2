import GraphExec.Proofs.Run.Scope

/-!
# Two passes in lockstep

The same selections are gathered at two stages. At the one, some bags of arguments are there and
others have to be waited for; at the other, all of them are there. If the bags come to the same
results and the hooks are steady, then both passes hear the same, until the first of them stops.
-/

namespace GraphExec

variable {σ α β : Type}

/-! ### Steady hooks -/

/-- The code answers the same whatever surrounds it. -/
def Action.Steady (action : Action σ α) : Prop :=
  ∀ v w, (action.run v).1 = (action.run w).1

/-- The hooks that a gathering pass calls are steady. -/
structure Job.Steady (job : Job σ) : Prop where
  guards : ∀ (directive : Directive) definition keeps,
    directive.guard? job = some (definition, keeps) →
    ∀ arguments, (keeps arguments job.query).Steady
  rescues : ∀ message path, (job.schema.rescue message path job.query).Steady

/-! ### Bags -/

/-- Bags that are there at one stage are there at the other, with their results. -/
def KeepsResults (s t : Stage σ) : Prop :=
  ∀ key result, s.run.arguments.get? key = some (.ready result) →
    t.run.arguments.get? key = some (.ready result)

instance : Throughout (KeepsResults (σ := σ)) where
  refl _ _ _ there := there
  trans first second _ _ there := second _ _ (first _ _ there)
  call _ _ _ _ there := there
  tell _ _ _ _ there := there
  count _ _ _ _ there := there
  report _ _ _ _ there := there
  draft _ _ _ _ there := there
  steps _ _ _ _ _ there := there

instance : Starts (KeepsResults (σ := σ)) where
  start key coercion s fresh other result there := by
    refine (ArgumentStore.get?_insert _ _ _ _).trans ((if_neg ?_).trans there)
    rintro rfl
    cases fresh.symm.trans there

/-- The key that the directives of a node stop at. -/
def Inclusion.stop? : Inclusion → Option ArgumentKey
  | waiting key => some key
  | _ => none

namespace Grouper

/-- The bags that a pass may ask for come to the outcomes that are assigned to them, as far as they
have come to anything. -/
def Agrees (grouper : Grouper σ) (outcome : ArgumentKey → ArgumentsResult)
    (selections : List Selection) (s : Stage σ) : Prop :=
  grouper.Finds (fun key bag => ∀ result, bag = .ready result → result = outcome key) selections s

/-- The bags that a pass may ask for are there, each with the outcome that is assigned to it. -/
def Loaded (grouper : Grouper σ) (outcome : ArgumentKey → ArgumentsResult)
    (selections : List Selection) (s : Stage σ) : Prop :=
  grouper.Finds (fun key bag => bag = .ready (outcome key)) selections s

open Engine

/-- A program is run at two stages. It does the same at both, or it stops at the first of them under
a key that is asked for and has no result there. -/
inductive Lockstep (grouper : Grouper σ) (outcome : ArgumentKey → ArgumentsResult)
    (scope : List Selection) (stop? : α → Option ArgumentKey) (program : Engine σ α)
    (s s' : Stage σ) : Prop
  | same {a : α} {t t' : Stage σ} (one : program.Gives s a t) (other : program.Gives s' a t')
      (goes : stop? a = none) (agrees : grouper.Agrees outcome scope t)
      (loaded : grouper.Loaded outcome scope t')
  | fails {error : FatalError} (one : program.Fails s error) (other : program.Fails s' error)
  | stops {a : α} {t : Stage σ} {inquiry : Inquiry σ} (one : program.Gives s a t)
      (stops : stop? a = some inquiry.key) (asks : grouper.Asks scope inquiry)
      (missing : ∀ result, t.run.arguments.get? inquiry.key ≠ some (.ready result))

variable {grouper : Grouper σ} {outcome : ArgumentKey → ArgumentsResult} {scope : List Selection}
  {s s' : Stage σ}

namespace Lockstep

theorem pure {a : α} {stop? : α → Option ArgumentKey} (goes : stop? a = none)
    (agrees : grouper.Agrees outcome scope s) (loaded : grouper.Loaded outcome scope s') :
    grouper.Lockstep outcome scope stop? (Pure.pure a) s s' :=
  .same (gives_pure.mpr ⟨rfl, rfl⟩) (gives_pure.mpr ⟨rfl, rfl⟩) goes agrees loaded

theorem throw (error : FatalError) {stop? : α → Option ArgumentKey} :
    grouper.Lockstep outcome scope stop? (MonadExcept.throw error) s s' :=
  .fails (fails_throw error s) (fails_throw error s')

/-- Lockstep goes on through a program if the rest goes on in lockstep, and passes a stop on. -/
theorem bind {x : Engine σ α} {f : α → Engine σ β} {stop? : α → Option ArgumentKey}
    {stop'? : β → Option ArgumentKey} (first : grouper.Lockstep outcome scope stop? x s s')
    (rest : ∀ a t t', stop? a = none → grouper.Agrees outcome scope t →
      grouper.Loaded outcome scope t' → grouper.Lockstep outcome scope stop'? (f a) t t')
    (passes : ∀ a key, stop? a = some key → ∃ b, f a = Pure.pure b ∧ stop'? b = some key) :
    grouper.Lockstep outcome scope stop'? (x >>= f) s s' := by
  cases first with
  | same one other goes agrees loaded =>
      cases rest _ _ _ goes agrees loaded with
      | same one' other' goes agrees loaded =>
          exact .same (gives_bind.mpr ⟨_, _, one, one'⟩) (gives_bind.mpr ⟨_, _, other, other'⟩)
            goes agrees loaded
      | fails one' other' =>
          exact .fails (fails_bind.mpr (.inr ⟨_, _, one, one'⟩))
            (fails_bind.mpr (.inr ⟨_, _, other, other'⟩))
      | stops one' stops asks missing =>
          exact .stops (gives_bind.mpr ⟨_, _, one, one'⟩) stops asks missing
  | fails one other => exact .fails (fails_bind.mpr (.inl one)) (fails_bind.mpr (.inl other))
  | stops one stops asks missing =>
      obtain ⟨b, answered, stops⟩ := passes _ _ stops
      refine .stops (gives_bind.mpr ⟨_, _, one, ?_⟩) stops asks missing
      rw [answered]
      exact gives_pure.mpr ⟨rfl, rfl⟩

/-- Nothing stops in application code. -/
theorem call {action : Action σ α} (steady : action.Steady)
    (agrees : grouper.Agrees outcome scope s) (loaded : grouper.Loaded outcome scope s') :
    grouper.Lockstep outcome scope (fun _ => none) (Engine.call action) s s' := by
  have one : (Engine.call action).Gives s (action.run s.world).1
      { s with world := (action.run s.world).2 } := gives_call.mpr ⟨rfl, rfl⟩
  have other : (Engine.call action).Gives s' (action.run s.world).1
      { s' with world := (action.run s'.world).2 } := gives_call.mpr ⟨steady _ _, rfl⟩
  exact .same one other rfl (agrees.of_same rfl) (loaded.of_same rfl)

theorem argumentError (steady : grouper.job.Steady) (agrees : grouper.Agrees outcome scope s)
    (loaded : grouper.Loaded outcome scope s') (error : ArgumentError) :
    grouper.Lockstep outcome scope (fun _ => none) (grouper.argumentError error) s s' := by
  cases error with
  | execution error => exact .pure rfl agrees loaded
  | unauthorized refusal => exact .pure rfl agrees loaded
  | unexpected message =>
      refine .bind (.call (steady.rescues message grouper.path) agrees loaded) ?_ nofun
      intro answer t t' _ agrees loaded
      cases answer with
      | none => exact .throw _
      | some error => exact .pure rfl agrees loaded

end Lockstep

/-! ### Directives -/

/-- The key that a directive stops at if nothing is found for it. -/
def lookUpStop? : ArgumentKey × Option ArgumentsResult → Option ArgumentKey
  | (key, none) => some key
  | (_, some _) => none

/-- A directive always finds something or nothing under its key. -/
theorem lookUp_gives (directive : Directive) (job : Job σ) (definition : DirectiveDefinition σ)
    (parent : Identity) (s : Stage σ) :
    ∃ found t, (directive.lookUp job definition parent).Gives s
      ((directive.inquiry definition parent).key, found) t := by
  have looked : ∀ (key : ArgumentKey) (coerce : Action σ (Coercion σ)),
      ∃ found t, (Engine.lookUp key coerce).Gives s found t := by
    intro key coerce
    have reads : (get : Engine σ (Stage σ)).Gives s s s := rfl
    cases there : s.run.arguments.get? key with
    | some bag =>
        refine ⟨bag.result?, s, gives_bind.mpr ⟨s, s, reads, ?_⟩⟩
        simp only [there]
        exact gives_pure.mpr ⟨rfl, rfl⟩
    | none =>
        let bag := SharedArguments.ofCoercion (coerce.run s.world).1
        refine ⟨bag.result?, ⟨{ s.run with arguments := s.run.arguments.insert key bag },
          (coerce.run s.world).2⟩, gives_bind.mpr ⟨s, s, reads, ?_⟩⟩
        simp only [there]
        exact gives_bind.mpr ⟨_, _, gives_call.mpr ⟨rfl, rfl⟩,
          gives_bind.mpr ⟨(), _, gives_modifyRun.mpr rfl, gives_pure.mpr ⟨rfl, rfl⟩⟩⟩
  obtain ⟨found, t, looked⟩ := looked (directive.inquiry definition parent).key
    ((directive.inquiry definition parent).coercion job)
  exact ⟨found, t, gives_bind.mpr ⟨found, t, looked, gives_pure.mpr ⟨rfl, rfl⟩⟩⟩

/-- A directive in reach finds the outcome at both stages, or has to wait at the first. -/
theorem lookUp_lockstep {directive : Directive} {definition : DirectiveDefinition σ}
    (asks : grouper.Asks scope (directive.inquiry definition grouper.identity))
    (agrees : grouper.Agrees outcome scope s) (loaded : grouper.Loaded outcome scope s') :
    grouper.Lockstep outcome scope lookUpStop?
      (directive.lookUp grouper.job definition grouper.identity) s s' := by
  obtain ⟨found, t, one⟩ := lookUp_gives directive grouper.job definition grouper.identity s
  obtain ⟨found', t', other⟩ := lookUp_gives directive grouper.job definition grouper.identity s'
  obtain ⟨-, agrees, bag, there, known, rfl⟩ := Finds.lookUp agrees asks one
  obtain ⟨-, loaded, bag', -, rfl, rfl⟩ := Finds.lookUp loaded asks other
  cases bag with
  | ready result =>
      obtain rfl := known result rfl
      exact .same one other rfl agrees loaded
  | pending rest =>
      refine .stops one rfl asks ?_
      intro result ready
      cases there.symm.trans ready

/-- The directives of a node in reach say the same at both stages, or have to wait at the first. -/
theorem inclusion_lockstep (steady : grouper.job.Steady) {directives : List Directive} :
    ∀ {s s' : Stage σ},
      (∀ directive ∈ directives, ∀ definition keeps,
        directive.guard? grouper.job = some (definition, keeps) →
        grouper.Asks scope (directive.inquiry definition grouper.identity)) →
      grouper.Agrees outcome scope s → grouper.Loaded outcome scope s' →
      grouper.Lockstep outcome scope Inclusion.stop? (grouper.inclusion directives) s s' := by
  induction directives with
  | nil =>
      intro s s' _ agrees loaded
      exact .pure rfl agrees loaded
  | cons directive rest ih =>
      intro s s' asks agrees loaded
      have behind {t t' : Stage σ} (agrees : grouper.Agrees outcome scope t)
          (loaded : grouper.Loaded outcome scope t') :
          grouper.Lockstep outcome scope Inclusion.stop? (grouper.inclusion rest) t t' :=
        ih (fun other mem => asks other (List.mem_cons_of_mem _ mem)) agrees loaded
      cases guard : directive.guard? grouper.job with
      | none =>
          rw [inclusion_unguarded guard]
          exact behind agrees loaded
      | some hook =>
          obtain ⟨definition, keeps⟩ := hook
          rw [inclusion_guarded guard]
          have own := asks directive List.mem_cons_self definition keeps guard
          refine .bind (lookUp_lockstep own agrees loaded) ?_ ?_
          · rintro ⟨key, found⟩ t t' goes agrees loaded
            rcases found with - | ⟨wrong | arguments⟩
            · cases goes
            · refine .bind (.argumentError steady agrees loaded wrong) ?_ nofun
              intro error u u' _ agrees loaded
              exact .pure rfl agrees loaded
            · have counts := steady.guards _ _ _ guard arguments
              refine .bind (.call counts agrees loaded) ?_ nofun
              intro counts u u' _ agrees loaded
              cases counts with
              | true => exact behind agrees loaded
              | false => exact .pure rfl agrees loaded
          · rintro ⟨key, found⟩ stopped stops
            cases found with
            | some result => cases stops
            | none => exact ⟨.waiting key, rfl, stops⟩

/-! ### Selections -/

/-- Selections in reach are grouped alike at both stages, or have to wait at the first. -/
theorem groupFrom_lockstep (steady : grouper.job.Steady) (available : Fields Fragment)
    (selections : List Selection) :
    ∀ {found : Grouping} {s s' : Stage σ},
      (∀ entry ∈ available, entry ∈ grouper.job.fragments) →
      (∀ selection : Selection, selection.Reached grouper.job.fragments selections →
        selection.Reached grouper.job.fragments scope) →
      grouper.Agrees outcome scope s → grouper.Loaded outcome scope s' →
      grouper.Lockstep outcome scope GroupingResult.stop?
        (grouper.groupFrom available selections found) s s' := by
  induction available, selections using grouper.descent with
  | nil available =>
      intro found s s' _ _ agrees loaded
      rw [groupFrom_nil]
      exact .pure rfl agrees loaded
  | cons available selection rest tail inside =>
      intro found s s' fewer reach agrees loaded
      have behind {found : Grouping} {t t' : Stage σ} (agrees : grouper.Agrees outcome scope t)
          (loaded : grouper.Loaded outcome scope t') :
          grouper.Lockstep outcome scope GroupingResult.stop?
            (grouper.groupFrom available rest found) t t' :=
        tail fewer (fun other reached => reach other reached.behind) agrees loaded
      obtain ⟨next, same, goes_on⟩ := grouper.groupFrom_cons available selection rest found
      rw [same]
      refine .bind (inclusion_lockstep steady (fun directive written definition keeps guard =>
        .directive (reach _ (.here List.mem_cons_self)) written guard) agrees loaded) ?_ ?_
      · intro inclusion t t' goes agrees loaded
        have onward := goes_on inclusion
        generalize next inclusion = program at onward ⊢
        cases onward with
        | waiting key => cases goes
        | enters inner selections within =>
            obtain ⟨reached, fewer'⟩ := reached_inside (reach _ (.here List.mem_cons_self)) fewer
              within
            -- Behind a part that is gathered first the rest follows; a stop within it is passed on.
            refine .bind (inside inner selections within fewer'
              (fun other there => there.within reached) agrees loaded) ?_ ?_
            · intro result u u' goes agrees loaded
              cases result with
              | waiting key => cases goes
              | complete found => exact behind agrees loaded
            · intro result key stops
              cases result with
              | waiting other => exact ⟨.waiting other, rfl, stops⟩
              | complete found => cases stops
        | _ => exact behind agrees loaded
      · intro inclusion key stops
        have onward := goes_on inclusion
        generalize next inclusion = program at onward ⊢
        cases onward with
        | waiting other => exact ⟨.waiting other, rfl, stops⟩
        | _ => cases stops

theorem group_lockstep (steady : grouper.job.Steady) {selections : List Selection}
    (agrees : grouper.Agrees outcome selections s) (loaded : grouper.Loaded outcome selections s') :
    grouper.Lockstep outcome selections GroupingResult.stop? (grouper.group selections) s s' :=
  groupFrom_lockstep steady _ _ (fun _ mem => mem) (fun _ reached => reached) agrees loaded

end Grouper

end GraphExec
