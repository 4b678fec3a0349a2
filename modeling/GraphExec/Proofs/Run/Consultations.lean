import GraphExec.Proofs.Run.Inquiries

/-!
# Which transitions consult the store of bags

A field or a cursor that is about to look up arguments consults the store once, and goes on with
what it finds or waits under the key. A gathering pass consults it for each directive that it hears.
No other transition has anything to do with the store.
-/

namespace GraphExec

variable {σ : Type} {job : Job σ}

/-- The store of bags is the same at two stages. -/
def SameBags (s t : Stage σ) : Prop := t.run.arguments = s.run.arguments

instance : Throughout (SameBags (σ := σ)) where
  refl _ := rfl
  trans first second := Eq.trans second first
  call _ _ := rfl
  tell _ _ := rfl
  count _ _ := rfl
  report _ _ := rfl
  draft _ _ := rfl
  steps _ _ _ := rfl

/-! ### What is consulted in a row -/

/-- Consultations one after another, the store untouched in between. -/
inductive Consulted (job : Job σ) : Stage σ → List (Consultation σ) → Stage σ → Prop
  | nil {s t : Stage σ} (same : SameBags s t) : Consulted job s [] t
  | cons {s t : Stage σ} {c : Consultation σ} {cs : List (Consultation σ)}
      (same : SameBags s c.before) (made : c.Made job) (rest : Consulted job c.after cs t) :
      Consulted job s (c :: cs) t

namespace Consulted

variable {s t u : Stage σ} {cs ds : List (Consultation σ)}

theorem one {c : Consultation σ} (made : c.Made job) : Consulted job c.before [c] c.after :=
  .cons rfl made (.nil rfl)

theorem before (same : SameBags s t) (consulted : Consulted job t cs u) :
    Consulted job s cs u := by
  cases consulted with
  | nil same' => exact .nil (Eq.trans same' same)
  | cons same' made rest => exact .cons (Eq.trans same' same) made rest

theorem append (first : Consulted job s cs t) (second : Consulted job t ds u) :
    Consulted job s (cs ++ ds) u := by
  induction first with
  | nil same => exact second.before same
  | cons same made rest ih => exact .cons same made (ih second)

theorem after (consulted : Consulted job s cs t) (same : SameBags t u) : Consulted job s cs u := by
  have whole := consulted.append (.nil same)
  rwa [List.append_nil] at whole

end Consulted

/-! ### Gathering passes -/

namespace Grouper

variable {grouper : Grouper σ} {s t : Stage σ} {cs : List (Consultation σ)}

theorem Hears.consulted {directives : List Directive} {inclusion : Inclusion}
    (hears : grouper.Hears directives s cs inclusion t) : Consulted grouper.job s cs t := by
  induction hears with
  | included s => exact .nil rfl
  | other _ _ ih => exact ih
  | kept _ _ made _ answered _ ih =>
      have same : SameBags _ _ := Engine.keeps_call _ _ _ _ answered
      exact .cons rfl made (ih.before same)
  | @ends directive _ _ keeps c t inclusion _ _ made ends =>
      refine (Consulted.one made).after ?_
      unfold Ends at ends
      split at ends
      · exact ends.2 ▸ rfl
      · exact Engine.keeps_call _ _ _ _ ends.2
      · obtain ⟨error, told, -⟩ := ends
        exact keeps_argumentError grouper _ _ _ _ told

theorem Consults.consulted {available : Fields Fragment} {selections : List Selection}
    {stop? : Option ArgumentKey} (consults : grouper.Consults available selections s cs stop? t) :
    Consulted grouper.job s cs t := by
  induction consults with
  | nil available s => exact .nil rfl
  | waits hears => exact hears.consulted
  | past hears _ _ _ ih => exact hears.consulted.append ih
  | enters hears _ _ _ within behind => exact hears.consulted.append (within.append behind)
  | stops hears _ _ within => exact hears.consulted.append within

theorem Hears.stopped {directives : List Directive} {key : ArgumentKey}
    (hears : grouper.Hears directives s cs (.waiting key) t) :
    ∃ c ∈ cs, c.inquiry.key = key ∧ c.found = none := by
  generalize stop : Inclusion.waiting key = inclusion at hears
  induction hears with
  | included s => cases stop
  | other _ _ ih => exact ih stop
  | kept _ _ _ _ _ _ ih =>
      obtain ⟨c, mem, found⟩ := ih stop
      exact ⟨c, List.mem_cons_of_mem _ mem, found⟩
  | @ends _ _ _ _ c _ _ _ _ _ ends =>
      subst stop
      unfold Ends at ends
      split at ends
      · rename_i missing
        have same := ends.1
        injection same with same
        exact ⟨c, List.mem_cons_self, same.symm, missing⟩
      · cases ends.1
      · obtain ⟨error, -, same⟩ := ends
        cases same

/-- A pass that stops has found nothing under the key that it stops at. -/
theorem Consults.stopped {available : Fields Fragment} {selections : List Selection}
    {key : ArgumentKey} (consults : grouper.Consults available selections s cs (some key) t) :
    ∃ c ∈ cs, c.inquiry.key = key ∧ c.found = none := by
  generalize stop : some key = stop? at consults
  induction consults with
  | nil available s => cases stop
  | waits hears =>
      injection stop with stop
      exact stop ▸ hears.stopped
  | past _ _ _ _ ih =>
      obtain ⟨c, mem, found⟩ := ih stop
      exact ⟨c, List.mem_append_right _ mem, found⟩
  | enters _ _ _ _ _ behind =>
      obtain ⟨c, mem, found⟩ := behind stop
      exact ⟨c, List.mem_append_right _ (List.mem_append_right _ mem), found⟩
  | stops _ _ _ within =>
      obtain ⟨c, mem, found⟩ := within stop
      exact ⟨c, List.mem_append_right _ mem, found⟩

end Grouper

/-! ### Steps -/

/-- What the directive at the head of a cursor asks for. -/
def DirectiveCursor.inquiry? (cursor : DirectiveCursor σ) (owner : Subject) : Option (Inquiry σ) :=
  match cursor.uses, cursor.stage with
  | use :: _, .unstarted => some (use.directive.inquiry use.definition owner.identity)
  | _, _ => none

/-- What a field or an item asks for in its next transition. -/
def Step.inquiry? : Step σ → Option (Inquiry σ)
  | .field step =>
    match step.state with
    | .runDirectives cursor => cursor.inquiry? step.site.owner
    | .loadArguments => if step.site.field.arguments.isEmpty then none else some step.site.inquiry
    | _ => none
  | .item step =>
    match step.state with
    | .runDirectives cursor _ => cursor.inquiry? step.position.site.owner
    | _ => none
  | .object _ => none

/-- The step that waits for what it asks for. -/
def Step.awaiting : Step σ → Step σ
  | .field step =>
    match step.state with
    | .runDirectives cursor =>
      .field { step with state := .runDirectives { cursor with stage := .awaitingArguments } }
    | _ => .field { step with state := .awaitingArguments }
  | .item step =>
    match step.state with
    | .runDirectives cursor value =>
      .item { step with state := .runDirectives { cursor with stage := .awaitingArguments } value }
    | _ => .item step
  | .object step => .object step

/-- A transition of a step, with the consultations that it makes. -/
inductive Step.Consults (job : Job σ) :
    Step σ → Stage σ → List (Consultation σ) → Progress σ → Stage σ → Prop
  | quiet {step : Step σ} {s t : Stage σ} {progress : Progress σ}
      (quiet : step.isAlive s.run.draft = false ∨ step.isAsking = false) (same : SameBags s t)
      (unasked : ∀ next depth key, progress ≠ .parked next depth (.arguments key)) :
      Consults job step s [] progress t
  | found {step next : Step σ} {c : Consultation σ} {result : ArgumentsResult}
      (alive : step.isAlive c.before.run.draft = true) (asks : step.inquiry? = some c.inquiry)
      (made : c.Made job) (found : c.found = some result)
      (resumes : step.awaiting.resume (.arguments result) = .ok next) :
      Consults job step c.before [c] (.again next) c.after
  | waits {step : Step σ} {c : Consultation σ} (alive : step.isAlive c.before.run.draft = true)
      (asks : step.inquiry? = some c.inquiry) (made : c.Made job) (missing : c.found = none)
      (depth : Nat) :
      Consults job step c.before [c] (.parked step.awaiting depth (.arguments c.inquiry.key))
        c.after
  | gathered {step : ObjectStep σ} {type : ObjectType σ} {node : NodeId} {s t u : Stage σ}
      {cs : List (Consultation σ)} (alive : (Step.object step).isAlive s.run.draft = true)
      (state : step.state = .collect type node)
      (consults : (step.grouper job type (s.run.draft.path node)).Consults job.fragments
        step.selections s cs none u)
      (same : SameBags u t) : Consults job (.object step) s cs .finished t
  | stopped {step : ObjectStep σ} {type : ObjectType σ} {node : NodeId} {s t : Stage σ}
      {cs : List (Consultation σ)} {key : ArgumentKey}
      (alive : (Step.object step).isAlive s.run.draft = true)
      (state : step.state = .collect type node)
      (consults : (step.grouper job type (s.run.draft.path node)).Consults job.fragments
        step.selections s cs (some key) t) (depth : Nat) :
      Consults job (.object step) s cs
        (.parked (.object { step with state := .awaitingArguments type node }) depth
          (.arguments key)) t

theorem Step.Consults.consulted {step : Step σ} {s t : Stage σ} {cs : List (Consultation σ)}
    {progress : Progress σ} (consults : step.Consults job s cs progress t) :
    Consulted job s cs t := by
  cases consults with
  | quiet _ same _ => exact .nil same
  | found _ _ made _ _ => exact .one made
  | waits _ _ made _ _ => exact .one made
  | gathered _ _ consults same => exact consults.consulted.after same
  | stopped _ _ consults _ => exact consults.consulted

/-- A step that waits for a bag has found nothing under the key. -/
theorem Step.Consults.parked {step next : Step σ} {s t : Stage σ} {cs : List (Consultation σ)}
    {depth : Nat} {key : ArgumentKey}
    (consults : step.Consults job s cs (.parked next depth (.arguments key)) t) :
    ∃ c ∈ cs, c.inquiry.key = key ∧ c.found = none := by
  cases consults with
  | quiet _ _ unasked => exact absurd rfl (unasked _ _ _)
  | waits _ _ _ missing _ => exact ⟨_, List.mem_singleton_self _, rfl, missing⟩
  | stopped _ _ consults _ => exact consults.stopped

open Engine

/-- A cursor that asks for arguments and goes on at once has found them in the store. -/
theorem DirectiveCursor.Way.found {cursor next : DirectiveCursor σ} {owner : Subject} {path : Path}
    {s t : Stage σ} (way : cursor.Way job owner path s (.again next) t)
    (asking : cursor.isAsking = true) :
    ∃ inquiry result, cursor.inquiry? owner = some inquiry ∧
      Consultation.Made job ⟨inquiry, s, some result, t⟩ ∧
      next = { cursor with stage := .called result } := by
  cases way with
  | finds looked =>
      obtain ⟨made, rfl⟩ := Directive.consults looked
      exact ⟨_, _, rfl, made, rfl⟩
  | _ => cases asking

/-- A cursor that asks for arguments and waits has not found them in the store. -/
theorem DirectiveCursor.Way.missed {cursor next : DirectiveCursor σ} {owner : Subject} {path : Path}
    {wait : Wait σ} {s t : Stage σ} (way : cursor.Way job owner path s (.waiting next wait) t)
    (asking : cursor.isAsking = true) :
    ∃ inquiry, cursor.inquiry? owner = some inquiry ∧
      Consultation.Made job ⟨inquiry, s, none, t⟩ ∧
      next = { cursor with stage := .awaitingArguments } ∧ wait = .arguments inquiry.key := by
  cases way with
  | asks looked =>
      obtain ⟨made, rfl⟩ := Directive.consults looked
      exact ⟨_, rfl, made, rfl, rfl⟩
  | waits => cases asking

variable {s t : Stage σ} {progress : Progress σ}

theorem FieldStep.Way.consults {step : FieldStep σ} (way : step.Way job s progress t)
    (alive : (Step.field step).isAlive s.run.draft = true) (asking : step.isAsking = true) :
    ∃ cs, (Step.field step).Consults job s cs progress t := by
  have made {found : Option ArgumentsResult} {u : Stage σ} (state : step.state = .loadArguments)
      (looked : (step.site.lookUpArguments job).Gives s found u) :
      (Step.field step).inquiry? = some step.site.inquiry ∧
        Consultation.Made job ⟨step.site.inquiry, s, found, u⟩ := by
    have some_arguments : step.site.field.arguments.isEmpty = false := by
      simpa [isAsking, state] using asking
    unfold FieldSite.lookUpArguments at looked
    rw [if_neg (by simp [some_arguments])] at looked
    exact ⟨by simp [Step.inquiry?, state, some_arguments], looked⟩
  obtain ⟨parent, key, site, state⟩ := step
  cases way with
  | directs state directed =>
      cases state
      obtain ⟨inquiry, result, asks, made, rfl⟩ := (DirectiveCursor.way directed).found asking
      exact ⟨_, .found (c := ⟨inquiry, _, _, _⟩) alive asks made rfl rfl⟩
  | awaits state directed =>
      cases state
      obtain ⟨inquiry, asks, made, rfl, rfl⟩ := (DirectiveCursor.way directed).missed asking
      exact ⟨_, .waits (c := ⟨inquiry, _, _, _⟩) alive asks made rfl _⟩
  | passes state directed | skips state directed | stops state directed =>
      cases state
      cases DirectiveCursor.way directed <;> cases asking
  | finds state looked =>
      cases state
      obtain ⟨asks, made⟩ := made rfl looked
      exact ⟨_, .found (c := ⟨site.inquiry, _, _, _⟩) alive asks made rfl rfl⟩
  | asks state looked =>
      cases state
      obtain ⟨asks, made⟩ := made rfl looked
      exact ⟨_, .waits (c := ⟨site.inquiry, _, _, _⟩) alive asks made rfl _⟩
  | takes state | fails state | resolves state | completes state | waits state | replaces state =>
      cases state
      cases asking

theorem ItemStep.Way.consults {step : ItemStep σ} (way : step.Way job s progress t)
    (alive : (Step.item step).isAlive s.run.draft = true) (asking : step.isAsking = true) :
    ∃ cs, (Step.item step).Consults job s cs progress t := by
  obtain ⟨position, state⟩ := step
  cases way with
  | directs state directed =>
      cases state
      obtain ⟨inquiry, result, asks, made, rfl⟩ := (DirectiveCursor.way directed).found asking
      exact ⟨_, .found (c := ⟨inquiry, _, _, _⟩) alive asks made rfl rfl⟩
  | awaits state directed =>
      cases state
      obtain ⟨inquiry, asks, made, rfl, rfl⟩ := (DirectiveCursor.way directed).missed asking
      exact ⟨_, .waits (c := ⟨inquiry, _, _, _⟩) alive asks made rfl _⟩
  | passes state directed | skips state directed | stops state directed =>
      cases state
      cases DirectiveCursor.way directed <;> cases asking
  | waits state | settles state | completes state | defers state | replaces state =>
      cases state
      cases asking

theorem ObjectStep.Way.consults {step : ObjectStep σ} (way : step.Way job s progress t)
    (alive : (Step.object step).isAlive s.run.draft = true) (asking : step.isAsking = true) :
    ∃ cs, (Step.object step).Consults job s cs progress t := by
  unfold isAsking at asking
  cases way with
  | asks state grouped =>
      obtain ⟨cs, consults⟩ := Grouper.consults_of_groupFrom _ _ grouped
      exact ⟨cs, .stopped alive state consults _⟩
  | collects state grouped launched =>
      obtain ⟨cs, consults⟩ := Grouper.consults_of_groupFrom _ _ grouped
      have same : SameBags _ _ := step.keeps_launchAll _ _ _ _ _ _ launched
      exact ⟨cs, .gathered alive state consults same⟩
  | fails fails =>
      cases fails with
      | mistyped state | refused state | unauthorized state | replaced state =>
          rw [state] at asking
          cases asking
  | types state | asksType state | takesType state | permits state | decides state
  | asksPermission state | allows state | allocates state =>
      rw [state] at asking
      cases asking

/-- Every transition makes its consultations. -/
theorem Step.advance_consults {step : Step σ} (h : (step.advance job).Gives s progress t) :
    ∃ cs, step.Consults job s cs progress t := by
  cases alive : step.isAlive s.run.draft with
  | false =>
      rcases step.advance_cases h with ⟨-, rfl, rfl⟩ | ⟨wanted, -⟩
      · exact ⟨[], .quiet (.inl alive) rfl (by intro _ _ _ same; cases same)⟩
      · cases alive.symm.trans wanted
  | true =>
      cases asking : step.isAsking with
      | false =>
          have same : SameBags s t := step.keeps_advance_of
            (by intro asks; cases asking.symm.trans asks) _ _ _ h
          have fits := Step.advance_fits h
          refine ⟨[], .quiet (.inr asking) same ?_⟩
          rintro next depth key rfl
          cases asking.symm.trans fits.2.2
      | true =>
          cases Step.way h with
          | dropped dead => cases alive.symm.trans dead
          | object _ way => exact way.consults alive asking
          | field _ way => exact way.consults alive asking
          | item _ way => exact way.consults alive asking

end GraphExec
