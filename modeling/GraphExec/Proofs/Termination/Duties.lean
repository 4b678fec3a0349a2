import GraphExec.Proofs.Run.Restarts
import GraphExec.Proofs.Termination.Depth
import GraphExec.Proofs.Termination.Stages

/-!
# What is done in the end

Whatever is still to be done in a run gives way to what is left of it: a step to the step that goes
on and to those that it begets, a step that waits to one that waits for less or is answered, a bag
of arguments to one that has got on. However the bags and all that surrounds the run come out, this
does not go on for ever. Fields beget objects that are selected less deep, items are of a type that
is nested less, what a lazy answers comes nearer to the end of its chain, and an object that gathers
anew has one bag less to wait for.
-/

namespace GraphExec

variable {σ : Type}

/-- Something that is still to be done. -/
inductive Duty (σ : Type) where
  /-- A task of the run of a job, left to be done when the run had a store of bags. -/
  | task (job : Job σ) (store : ArgumentStore σ) (task : Task σ)
  /-- A bag of arguments that is waited for. -/
  | bag (rest : Pending σ ArgumentsResult)

/-- What is done leaves other things to be done. By then the bags of the run may have got on; a step
may have started any bag. -/
inductive Duty.Follows : Duty σ → Duty σ → Prop
  | again {job : Job σ} {store : ArgumentStore σ} {step next : Step σ} {s t : Stage σ}
      (kept : store.Becomes s.run.arguments) (gives : (step.advance job).Gives s (.again next) t) :
      Follows (.task job t.run.arguments (.awake next)) (.task job store (.awake step))
  | park {job : Job σ} {store : ArgumentStore σ} {step next : Step σ} {depth : Nat}
      {wait : Wait σ} {s t : Stage σ} (kept : store.Becomes s.run.arguments)
      (gives : (step.advance job).Gives s (.parked next depth wait) t) :
      Follows (.task job t.run.arguments (.asleep next wait)) (.task job store (.awake step))
  | beget {job : Job σ} {store after : ArgumentStore σ} {step new : Step σ}
      (begets : step.Begets job new) :
      Follows (.task job after (.awake new)) (.task job store (.awake step))
  | start {job : Job σ} {store : ArgumentStore σ} {step : Step σ}
      (rest : Pending σ ArgumentsResult) : Follows (.bag rest) (.task job store (.awake step))
  | wait {job : Job σ} {store : ArgumentStore σ} {step : Step σ} {rest wait : Wait σ}
      (later : rest.Later wait) :
      Follows (.task job store (.asleep step rest)) (.task job store (.asleep step wait))
  | answer {job : Job σ} {store after : ArgumentStore σ} {step : Step σ} {wait : Wait σ}
      {resumption : Resumption σ} (kept : store.Becomes after)
      (brings : wait.Brings after resumption) :
      Follows (.task job after (.called step resumption)) (.task job store (.asleep step wait))
  | resume {job : Job σ} {store : ArgumentStore σ} {step next : Step σ}
      {resumption : Resumption σ} (resumes : step.resume resumption = .ok next) :
      Follows (.task job store (.awake next)) (.task job store (.called step resumption))
  | poll {rest pending : Pending σ ArgumentsResult} (later : rest.Later pending) :
      Follows (.bag rest) (.bag pending)

/-- Something is done in the end, with all that it leaves to be done. -/
abbrev Duty.Ends (duty : Duty σ) : Prop :=
  Acc Duty.Follows duty

/-- A step that is ready is done in the end, whatever the bags of its run. -/
def Step.Ends (job : Job σ) (step : Step σ) : Prop :=
  ∀ store, (Duty.task job store (.awake step)).Ends

variable {job : Job σ}

theorem Duty.ends_bag (rest : Pending σ ArgumentsResult) : (Duty.bag rest).Ends := by
  induction Pending.later_wellFounded.apply rest with
  | intro rest _ ih =>
      refine ⟨_, fun duty follows => ?_⟩
      cases follows with
      | poll later => exact ih _ later

/-- A step that waits is done in the end if it is after every answer that it may be given. -/
theorem Duty.ends_asleep {step : Step σ} {store : ArgumentStore σ} (wait : Wait σ)
    (resumed : ∀ after resumption next, store.Becomes after → wait.Brings after resumption →
      step.resume resumption = .ok next → (Duty.task job after (.awake next)).Ends) :
    (Duty.task job store (.asleep step wait)).Ends := by
  induction Wait.later_wellFounded.apply wait with
  | intro wait _ ih =>
      refine ⟨_, fun duty follows => ?_⟩
      cases follows with
      | wait later =>
          exact ih _ later fun after resumption next kept brings =>
            resumed after resumption next kept (later.brings brings)
      | answer kept brings =>
          refine ⟨_, fun duty follows => ?_⟩
          cases follows with
          | resume resumes => exact resumed _ _ _ kept brings resumes

/-- A step is done in the end if all are that go on with it, and all that it begets. -/
theorem Step.ends_of_leads (refuses : job.schema.RefusesFinally) {step : Step σ}
    (goes : ∀ next, step.Leads next none → next.Ends job)
    (resumed : ∀ next wait, step.Leads next (some wait) → ∀ store resumption last,
      wait.Brings store resumption → next.resume resumption = .ok last → last.Ends job)
    (begets : ∀ new, step.Begets job new → new.Ends job) : step.Ends job := by
  refine fun store => ⟨_, fun duty follows => ?_⟩
  cases follows with
  | again kept gives => exact goes _ (Step.advance_leads refuses gives rfl) _
  | park kept gives =>
      exact Duty.ends_asleep _ fun after resumption last _ brings resumes =>
        resumed _ _ (Step.advance_leads refuses gives rfl) _ _ _ brings resumes _
  | beget begets' => exact begets _ begets' _
  | start rest => exact Duty.ends_bag rest

/-! ### Directives -/

/-- How many states a directive is still to come to. -/
def DirectiveStage.left : DirectiveStage → Nat
  | unstarted => 2
  | awaitingArguments => 2
  | called _ => 1
  | awaitingAnswer => 1
  | answered _ => 0

/-- How many states the directives of a cursor are still to come to. -/
def DirectiveCursor.left (cursor : DirectiveCursor σ) : Nat :=
  3 * cursor.uses.length + cursor.stage.left

theorem DirectiveCursor.Leads.left_lt {cursor next : DirectiveCursor σ}
    (leads : cursor.Leads next none) : next.left < cursor.left := by
  cases leads with
  | finds _ => exact Nat.lt_succ_self _
  | answers _ _ => exact Nat.lt_succ_self _
  | proceeds => exact Nat.lt_succ_self _

theorem DirectiveCursor.Leads.left_resume {cursor next last : DirectiveCursor σ} {wait : Wait σ}
    {resumption : Resumption σ} (leads : cursor.Leads next (some wait))
    (resumed : next.Resumed resumption last) : last.left < cursor.left := by
  cases leads with
  | asks =>
      cases resumed with
      | arguments => exact Nat.lt_succ_self _
      | answer stage => cases stage
  | waits =>
      cases resumed with
      | answer => exact Nat.lt_succ_self _
      | arguments stage => cases stage

/-! ### Positions -/

/-- Whatever a position is completed with, what that leaves to other steps is done in the end. -/
def Position.Ends (job : Job σ) (position : Position σ) : Prop :=
  ∀ value outcome s draft, position.Completes job s value outcome →
    ∀ new ∈ outcome.steps position draft, new.Ends job

/-- A value that can stand anywhere leaves nothing to other steps. -/
theorem Position.Completes.steps_eq_nil {position : Position σ} {value : ResolvedValue σ}
    {outcome : Outcome σ} {s : Stage σ} (completes : position.Completes job s value outcome)
    (anywhere : value.Anywhere) (draft : Draft) : outcome.steps position draft = [] := by
  cases completes with
  | items other _ _ => exact absurd anywhere other
  | object other _ _ _ _ _ _ => exact absurd anywhere other
  | _ => rfl

theorem ResolvedValue.anywhere_of_final {value : ResolvedValue σ} (final : value.isFinal = true) :
    value.Anywhere := by
  cases value with
  | value v => cases v with
      | null => trivial
      | _ => cases final
  | error _ => trivial
  | skip => trivial
  | raw _ => trivial
  | _ => cases final

section Items

variable {position : Position σ} (refuses : job.schema.RefusesFinally)
  (completed : position.Ends job)

include refuses completed

/-- An item that has come to a result is done in the end, and so it is when its value is settled. -/
theorem ItemStep.ends_of_result (result : FieldResult σ) :
    Step.Ends job (.item ⟨position, .resolved result⟩) ∧ ∀ value, result = .ok value →
      Step.Ends job (.item ⟨position, .settled value⟩) := by
  induction FieldResult.chain_ends result with
  | intro result _ ih =>
    have late {later : Lazy σ (FieldResult σ)} (here : result = .ok (.lazy later))
        {store : ArgumentStore σ} {resumption : Resumption σ} {last : Step σ}
        (brings : (Wait.value (.start later)).Brings store resumption)
        (resumes : (Step.item ⟨position, .awaitingValue⟩).resume resumption = .ok last) :
        last.Ends job := by
      subst here
      cases resumption with
      | value answer =>
          obtain ⟨fed, feeds⟩ := brings
          cases resumes
          exact (ih answer (.answered feeds)).1
      | _ => cases resumes
    have settled : ∀ value, result = .ok value →
        Step.Ends job (.item ⟨position, .settled value⟩) := by
      intro value here
      refine Step.ends_of_leads refuses ?_ ?_ ?_
      · rintro next (_ | leads)
        subst here
        cases leads with
        | replaces refusal final => exact (ih _ (.replaced final)).2 _ rfl
      · rintro next wait (_ | leads) store resumption last brings resumes
        cases leads with
        | defers later => exact late here brings resumes
      · intro new begets
        cases begets with
        | completes due completes mem =>
            cases due with
            | item _ => exact completed _ _ _ _ completes new mem
    have failed (error : ExecutionError) :
        Step.Ends job (.item ⟨position, .settled (.error error)⟩) := by
      refine Step.ends_of_leads refuses ?_ ?_ ?_
      · rintro next (_ | leads)
        cases leads
      · rintro next wait (_ | leads)
        cases leads
      · intro new begets
        cases begets with
        | completes due completes mem =>
            cases due with
            | item _ => exact completed _ _ _ _ completes new mem
    refine ⟨Step.ends_of_leads refuses ?_ ?_ ?_, settled⟩
    · rintro next (_ | leads)
      cases leads with
      | settles value => exact settled value rfl
      | fails _ error => exact failed error
    · rintro next wait (_ | leads) store resumption last brings resumes
      cases leads with
      | waits later => exact late rfl brings resumes
    · intro new begets
      cases begets with
      | completes due _ _ => cases due with
          | item state => cases state

/-- An item is done in the end from its directives on. -/
theorem ItemStep.ends (cursor : DirectiveCursor σ) (item : ResolvedValue σ) :
    Step.Ends job (.item ⟨position, .runDirectives cursor item⟩) := by
  induction left : cursor.left using Nat.strong_induction_on generalizing cursor with
  | _ left ih =>
    refine Step.ends_of_leads refuses ?_ ?_ ?_
    · rintro next (_ | leads)
      cases leads with
      | directive leads => exact ih _ (left ▸ leads.left_lt) _ rfl
      | passes _ _ => exact (ItemStep.ends_of_result refuses completed _).1
      | stops _ _ result => exact (ItemStep.ends_of_result refuses completed result).1
    · rintro next wait (_ | leads) store resumption last brings resumes
      cases leads with
      | @directive _ next _ _ leads =>
          cases Step.resumed resumes with
          | item resumed =>
              cases resumed with
              | directs state resumed =>
                  cases state
                  exact ih _ (left ▸ leads.left_resume resumed) _ rfl
              | value state => cases state
    · intro new begets
      cases begets with
      | completes due _ _ => cases due with
          | item state => cases state

end Items

section Fields

variable {parent : NodeId} {key : String} {site : FieldSite σ}
  (refuses : job.schema.RefusesFinally)
  (completed : Position.Ends job ⟨parent, .field key, site.field.type, site⟩)

include refuses completed

/-- A field that has come to a result is done in the end. -/
theorem FieldStep.ends_of_result (result : FieldResult σ) :
    Step.Ends job (.field ⟨parent, key, site, .resolved result⟩) := by
  induction FieldResult.chain_ends result with
  | intro result _ ih =>
    refine Step.ends_of_leads refuses ?_ ?_ ?_
    · rintro next (leads | _)
      cases leads with
      | replaces refusal final => exact ih _ (.replaced final)
    · rintro next wait (leads | _) store resumption last brings resumes
      cases leads with
      | waits later =>
          cases resumption with
          | value answer =>
              obtain ⟨fed, feeds⟩ := brings
              cases resumes
              exact ih answer (.answered feeds)
          | _ => cases resumes
    · intro new begets
      cases begets with
      | completes due completes mem =>
          cases due with
          | field _ _ => exact completed _ _ _ _ completes new mem

/-- A field whose arguments are there, or have failed, is done in the end. -/
theorem FieldStep.ends_of_arguments (result : ArgumentsResult) :
    Step.Ends job (.field ⟨parent, key, site, .argumentsLoaded result⟩) := by
  have called (arguments : Arguments) :
      Step.Ends job (.field ⟨parent, key, site, .callResolver arguments⟩) := by
    refine Step.ends_of_leads refuses ?_ ?_ ?_
    · rintro next (leads | _)
      cases leads with
      | resolves _ result => exact FieldStep.ends_of_result refuses completed result
    · rintro next wait (leads | _)
      cases leads
    · intro new begets
      cases begets with
      | completes due _ _ => cases due with
          | field state _ => cases state
  refine Step.ends_of_leads refuses ?_ ?_ ?_
  · rintro next (leads | _)
    cases leads with
    | takes arguments => exact called arguments
    | fails error => exact FieldStep.ends_of_result refuses completed _
  · rintro next wait (leads | _)
    cases leads
  · intro new begets
    cases begets with
    | completes due _ _ => cases due with
        | field state _ => cases state

theorem FieldStep.ends_loading :
    Step.Ends job (.field ⟨parent, key, site, .loadArguments⟩) := by
  refine Step.ends_of_leads refuses ?_ ?_ ?_
  · rintro next (leads | _)
    cases leads with
    | finds result => exact FieldStep.ends_of_arguments refuses completed result
  · rintro next wait (leads | _) store resumption last brings resumes
    cases leads with
    | asks _ =>
        cases resumption with
        | arguments result =>
            cases resumes
            exact FieldStep.ends_of_arguments refuses completed result
        | _ => cases resumes
  · intro new begets
    cases begets with
    | completes due _ _ => cases due with
        | field state _ => cases state

/-- A field is done in the end from its directives on. -/
theorem FieldStep.ends (cursor : DirectiveCursor σ) :
    Step.Ends job (.field ⟨parent, key, site, .runDirectives cursor⟩) := by
  induction left : cursor.left using Nat.strong_induction_on generalizing cursor with
  | _ left ih =>
    refine Step.ends_of_leads refuses ?_ ?_ ?_
    · rintro next (leads | _)
      cases leads with
      | directive leads => exact ih _ (left ▸ leads.left_lt) _ rfl
      | passes _ => exact FieldStep.ends_loading refuses completed
      | stops _ result => exact FieldStep.ends_of_result refuses completed result
    · rintro next wait (leads | _) store resumption last brings resumes
      cases leads with
      | @directive _ next _ leads =>
          cases Step.resumed resumes with
          | field resumed =>
              cases resumed with
              | directs state resumed =>
                  cases state
                  exact ih _ (left ▸ leads.left_resume resumed) _ rfl
              | arguments state | value state => cases state
    · intro new begets
      cases begets with
      | completes due _ _ => cases due with
          | field state _ => cases state

end Fields

/-- Completing a position ends if the objects do that are selected by its field: the types of its
items are nested less. -/
theorem Position.ends {site : FieldSite σ} (refuses : job.schema.RefusesFinally)
    (objects : ∀ target subject serial type, Step.Ends job
      (.object ⟨target, subject, site.selections, serial, .ofType type⟩))
    (position : Position σ) (here : position.site = site) : position.Ends job := by
  induction is_size : sizeOf position.type using Nat.strong_induction_on generalizing position with
  | _ size ih =>
    intro value outcome s draft completes new mem
    cases completes with
    | @items _ items itemType _ type _ =>
        obtain ⟨n, bound, rfl⟩ := (position.mem_itemSteps items 0).mp mem
        refine ItemStep.ends refuses (ih _ ?_ (position.item _ itemType _) here rfl) _ _
        show sizeOf itemType < size
        rw [← is_size]
        cases declared : position.type with
        | named name => rw [declared] at type; cases type
        | list item =>
            rw [declared] at type
            cases type
            simp
        | nonNull inner =>
            rw [declared] at type
            obtain rfl : inner = .list itemType := type
            simp
            omega
    | object _ _ _ _ _ _ _ =>
        obtain rfl := List.mem_singleton.mp mem
        rw [here]
        exact objects _ _ _ _
    | _ => cases mem

/-! ### Objects -/

section Objects

variable {target : ObjectTarget σ} {subject : Subject} {selections : List Selection}
  {serial : Bool}

/-- An object that is done with its value leaves nothing to other steps. -/
theorem ObjectStep.not_begets {state : ObjectState σ} {new : Step σ}
    (no_collect : ∀ type node, state ≠ .collect type node)
    (final : ∀ result, state = .replaced result → ∃ value, result = .ok value ∧
      value.isFinal = true) :
    ¬ Step.Begets job (.object ⟨target, subject, selections, serial, state⟩) new := by
  intro begets
  cases begets with
  | collects here _ _ _ => exact no_collect _ _ here
  | @completes _ _ s u position value outcome draft due completes mem =>
      have anywhere : value.Anywhere := by
        cases due with
        | object _ fails =>
            cases fails with
            | mistyped _ settled =>
                obtain same | ⟨error, rfl⟩ := Engine.settle_cases settled
                · cases same
                · trivial
            | refused _ => trivial
            | unauthorized _ settled =>
                obtain same | ⟨error, rfl⟩ := Engine.settle_cases settled
                · cases same
                · trivial
            | replaced here settled =>
                obtain ⟨final, rfl, is_final⟩ := final _ here
                obtain same | ⟨error, rfl⟩ := Engine.settle_cases settled
                · cases same
                  exact ResolvedValue.anywhere_of_final is_final
                · trivial
      rw [completes.steps_eq_nil anywhere] at mem
      cases mem

/-- The keys among some under which a store has no result. -/
def ArgumentStore.missing (store : ArgumentStore σ) (keys : List ArgumentKey) :
    Finset ArgumentKey :=
  {key ∈ keys.toFinset | ((store.get? key).bind (·.result?)).isNone}

theorem ArgumentStore.mem_missing {store : ArgumentStore σ} {keys : List ArgumentKey}
    {key : ArgumentKey} : key ∈ store.missing keys ↔
      key ∈ keys ∧ ∀ result, store.get? key ≠ some (.ready result) := by
  unfold missing
  rw [Finset.mem_filter, List.mem_toFinset]
  refine and_congr_right fun _ => ?_
  cases store.get? key with
  | none => simp
  | some bag => cases bag <;> simp [SharedArguments.result?]

/-- Where one of the bags that were missing is there, fewer are missing. -/
theorem ArgumentStore.Becomes.missing_lt {before after : ArgumentStore σ}
    (becomes : before.Becomes after) {keys : List ArgumentKey} {key : ArgumentKey}
    (mem : key ∈ keys) (missing : ∀ result, before.get? key ≠ some (.ready result))
    {result : ArgumentsResult} (there : after.get? key = some (.ready result)) :
    (after.missing keys).card < (before.missing keys).card := by
  refine Finset.card_lt_card ⟨fun other mem => ?_, fun fewer => ?_⟩
  · obtain ⟨asked, absent⟩ := mem_missing.mp mem
    refine mem_missing.mpr ⟨asked, fun result there => ?_⟩
    obtain ⟨bag, kept, became⟩ := becomes _ _ there
    exact absent result (became.of_ready ▸ kept)
  · exact (mem_missing.mp (fewer (mem_missing.mpr ⟨mem, missing⟩))).2 result there

/-- An object that is suspended waits for a bag that it may ask for, and that is not there. -/
theorem ObjectStep.suspended {step : ObjectStep σ} {type : ObjectType σ} {node : NodeId}
    {next : Step σ} {depth : Nat} {key : ArgumentKey} {s t : Stage σ}
    (state : step.state = .collect type node)
    (gives : ((Step.object step).advance job).Gives s (.parked next depth (.arguments key)) t) :
    key ∈ (step.grouper job type []).keys step.selections ∧
      ∃ rest, t.run.arguments.get? key = some (.pending rest) := by
  obtain ⟨cs, consults⟩ := Step.advance_consults gives
  have consulted := consults.consulted
  cases consults with
  | quiet _ _ unasked => exact absurd rfl (unasked _ _ _)
  | waits _ asks _ _ _ => cases asks
  | stopped _ state' consults _ =>
      cases state.symm.trans state'
      obtain ⟨c, mem, rfl, missing⟩ := consults.stopped
      have asks := consults.asked (fun _ mem => .here mem) (fun _ known => known) c mem
      exact ⟨asks.mem_keys, consulted.pending mem missing⟩

variable (refuses : job.schema.RefusesFinally)

include refuses

/-- An object that gathers its fields is done in the end if they are: each time that it starts anew
one bag more is there. -/
theorem ObjectStep.ends_collecting {type : ObjectType σ} {node : NodeId}
    (fields : ∀ new, Step.Begets job
      (.object ⟨target, subject, selections, serial, .collect type node⟩) new → new.Ends job) :
    Step.Ends job (.object ⟨target, subject, selections, serial, .collect type node⟩) := by
  let step : ObjectStep σ := ⟨target, subject, selections, serial, .collect type node⟩
  let keys := (step.grouper job type []).keys selections
  intro store
  induction left : (store.missing keys).card using Nat.strong_induction_on generalizing store with
  | _ left ih =>
    refine ⟨_, fun duty follows => ?_⟩
    cases follows with
    | again kept gives =>
        cases Step.advance_leads refuses gives rfl with
        | object leads => cases leads
    | park kept gives =>
        cases Step.advance_leads refuses gives rfl with
        | object leads =>
          cases leads with
          | asks _ _ key =>
            obtain ⟨asked, rest, pending⟩ := ObjectStep.suspended rfl gives
            refine Duty.ends_asleep _ fun after resumption last becomes brings resumes => ?_
            cases resumption with
            | arguments result =>
                cases resumes
                have kept' := kept.trans ((Step.advance_consults gives).choose_spec.consulted.becomes)
                refine ih _ (left ▸ ?_) after rfl
                refine (kept'.trans becomes).missing_lt asked (fun result there => ?_) brings
                obtain ⟨bag, there', became⟩ := kept' _ _ there
                rw [became.of_ready, pending] at there'
                cases there'
            | _ => cases resumes
    | beget begets => exact fields _ begets _
    | start rest => exact Duty.ends_bag rest

/-- An object that does not gather fields is done in the end if it is when it has gone on, and when
it has been resumed. -/
theorem ObjectStep.ends_in_state {state : ObjectState σ}
    (no_collect : ∀ type node, state ≠ .collect type node)
    (final : ∀ result, state = .replaced result → ∃ value, result = .ok value ∧
      value.isFinal = true)
    (goes : ∀ next, state.Leads next none →
      Step.Ends job (.object ⟨target, subject, selections, serial, next⟩))
    (resumed : ∀ next wait, state.Leads next (some wait) → ∀ resumption last,
      (Step.object ⟨target, subject, selections, serial, next⟩).resume resumption = .ok last →
        last.Ends job) :
    Step.Ends job (.object ⟨target, subject, selections, serial, state⟩) := by
  refine Step.ends_of_leads refuses ?_ ?_ ?_
  · rintro next (_ | _ | leads)
    exact goes _ leads
  · rintro next wait (_ | _ | leads) store resumption last - resumes
    exact resumed _ _ leads _ _ resumes
  · exact fun new begets => absurd begets (ObjectStep.not_begets no_collect final)

theorem ObjectStep.ends_replaced {value : ResolvedValue σ} (final : value.isFinal = true) :
    Step.Ends job (.object ⟨target, subject, selections, serial, .replaced (.ok value)⟩) := by
  refine ends_in_state refuses (by intro _ _ same; cases same) ?_ ?_ ?_
  · rintro result ⟨⟩
    exact ⟨value, rfl, final⟩
  · intro next leads
    cases leads
    cases final
  · intro next wait leads
    cases leads
    cases final

variable (fields : ∀ type node new, Step.Begets job
  (.object ⟨target, subject, selections, serial, .collect type node⟩) new → new.Ends job)

include fields

/-! From here on a state leads to those before it, so that each is done in the end. -/

theorem ObjectStep.ends_allocating (type : ObjectType σ) :
    Step.Ends job (.object ⟨target, subject, selections, serial, .allocate type⟩) := by
  refine ends_in_state refuses (by intro _ _ same; cases same) (by intro _ same; cases same) ?_ ?_
  · intro next leads
    cases leads with
    | allocates _ node => exact ends_collecting refuses (fields type node)
  · intro next wait leads
    cases leads

theorem ObjectStep.ends_authorized (type : ObjectType σ) (result : Except ResolverError Bool) :
    Step.Ends job (.object ⟨target, subject, selections, serial, .authorized type result⟩) := by
  refine ends_in_state refuses (by intro _ _ same; cases same) (by intro _ same; cases same) ?_ ?_
  · intro next leads
    cases leads with
    | allows _ => exact ends_allocating refuses fields type
    | refuses _ final => exact ends_replaced refuses final
  · intro next wait leads
    cases leads

theorem ObjectStep.ends_authorizing (type : ObjectType σ) :
    Step.Ends job (.object ⟨target, subject, selections, serial, .authorize type⟩) := by
  refine ends_in_state refuses (by intro _ _ same; cases same) (by intro _ same; cases same) ?_ ?_
  · intro next leads
    cases leads with
    | permits _ => exact ends_allocating refuses fields type
    | decides _ allowed => exact ends_authorized refuses fields type (.ok allowed)
  · intro next wait leads resumption last resumes
    cases leads with
    | asksPermission _ later =>
        cases resumption with
        | authorization result =>
            cases resumes
            exact ends_authorized refuses fields type result
        | _ => cases resumes

theorem ObjectStep.ends_typed (abstractType : TypeDefinition σ)
    (result : Except ResolverError String) : Step.Ends job
      (.object ⟨target, subject, selections, serial, .typeResolved abstractType result⟩) := by
  refine ends_in_state refuses (by intro _ _ same; cases same) (by intro _ same; cases same) ?_ ?_
  · intro next leads
    cases leads with
    | takesType _ name type => exact ends_authorizing refuses fields type
  · intro next wait leads
    cases leads

theorem ObjectStep.ends_typing (abstractType : TypeDefinition σ) :
    Step.Ends job (.object ⟨target, subject, selections, serial, .resolveType abstractType⟩) := by
  refine ends_in_state refuses (by intro _ _ same; cases same) (by intro _ same; cases same) ?_ ?_
  · intro next leads
    cases leads with
    | types _ name => exact ends_typed refuses fields abstractType (.ok name)
  · intro next wait leads resumption last resumes
    cases leads with
    | asksType _ later =>
        cases resumption with
        | type result =>
            cases resumes
            exact ends_typed refuses fields abstractType result
        | _ => cases resumes

/-- An object is done in the end if its fields are, whatever its type. -/
theorem ObjectStep.ends_of_fields (type : TypeDefinition σ) :
    Step.Ends job (.object ⟨target, subject, selections, serial, .ofType type⟩) := by
  cases type with
  | object type => exact ends_authorizing refuses fields type
  | _ => exact ends_typing refuses fields _

end Objects

/-- Every object is done in the end, by how deep its selections are. -/
theorem ObjectStep.ends (refuses : job.schema.RefusesFinally) (depth : Nat) :
    ∀ {selections : List Selection}, (∀ selection ∈ selections,
      selection.Within job.fragments depth) → ∀ target subject serial type,
      Step.Ends job (.object ⟨target, subject, selections, serial, .ofType type⟩) := by
  induction depth using Nat.strong_induction_on with
  | _ depth ih =>
    intro selections within target subject serial type
    refine ObjectStep.ends_of_fields refuses (fun type node new begets => ?_) type
    cases begets with
    | completes due _ _ => cases due with
        | object _ fails => cases fails with
            | mistyped state _ => cases state
            | refused state => cases state
            | unauthorized state _ => cases state
            | replaced state _ => cases state
    | @collects _ _ type' _ _ _ nodes launched state gathers launches mem =>
        obtain ⟨task, there, found⟩ := List.mem_filterMap.mp mem
        obtain ⟨entry, member, made⟩ := (ObjectStep.launched_iff launches).2 task there
        rcases ObjectStep.launched?_eq made with ⟨-, rfl⟩ | ⟨-, field, -, rfl⟩
        · cases found
        · obtain rfl := Option.some.inj found
          have deep := gathers.within within fun _ known => known
          obtain ⟨less, bound, within'⟩ := Groups.within_of deep member
          let site : FieldSite σ :=
            { typeName := type'.name, field, group := entry.2, owner := subject }
          have objects : ∀ target subject serial type, Step.Ends job
              (.object ⟨target, subject, site.selections, serial, .ofType type⟩) :=
            ih less bound within'
          exact FieldStep.ends refuses (Position.ends refuses objects _ rfl) _

/-- The root of a job is done in the end, if its fragments are acyclic. -/
theorem Job.ends_root (refuses : job.schema.RefusesFinally)
    (acyclic : Fragment.DeeplyAcyclic job.fragments) (type : ObjectType σ) (subject : Subject) :
    Step.Ends job (.object (ObjectStep.root job type subject)) := by
  have each : ∀ selection ∈ job.operation.selections, ∃ depth,
      selection.Within job.fragments depth :=
    fun selection _ => Selection.exists_within acyclic selection
  obtain ⟨depth, within⟩ := Selection.exists_within_all each
  exact ObjectStep.ends refuses depth within _ _ _ (.object type)

end GraphExec
