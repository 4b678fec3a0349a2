import GraphExec.Proofs.Pure.Evaluation
import GraphExec.Proofs.Run.Bags
import GraphExec.Proofs.Run.Scope

/-!
# The bags of a pure run

Whatever a pure run asks for is written at a node of its document, and what is known under a key is
what is asked for there. So everybody is given what the coercion of the own arguments comes to.
-/

namespace GraphExec

variable {σ : Type} {loads : Loads} {good : ArgumentKey → ArgumentsResult → Prop} {job : Job σ}
  {s t : Stage σ} {cs : List (Consultation σ)}

/-- A consultation is for what a job asks for. -/
def Consultation.Asks (job : Job σ) (c : Consultation σ) : Prop :=
  job.Asks c.inquiry.key (c.inquiry.coercion job)

theorem Directive.asks {directive : Directive} {definition : DirectiveDefinition σ}
    {keeps : Arguments → QueryContext → Action σ Bool} {selection : Selection}
    {c : Consultation σ} {parent : Identity} (has : job.Has selection)
    (written : directive ∈ selection.directives)
    (guard : directive.guard? job = some (definition, keeps))
    (asks : c.inquiry = directive.inquiry definition parent) : c.Asks job := by
  obtain ⟨known, -⟩ := Directive.guard?_eq_some.mp guard
  unfold Consultation.Asks
  rw [asks]
  exact .directive has written known parent

namespace Grouper

variable {grouper : Grouper σ}

/-- A pass over selections of the document asks for what the job asks for. -/
theorem Consults.asks {selections : List Selection} {stop? : Option ArgumentKey}
    (consults : grouper.Consults grouper.job.fragments selections s cs stop? t)
    (has : ∀ selection ∈ selections, grouper.job.Has selection) :
    ∀ c ∈ cs, c.Asks grouper.job := by
  intro c mem
  have asked := consults.asked (fun _ mem => .here mem) (fun _ known => known) c mem
  generalize is_inquiry : c.inquiry = inquiry at asked
  cases asked with
  | directive reached written guard =>
      exact Directive.asks (Job.Has.reached has reached) written guard is_inquiry

end Grouper

theorem DirectiveCursor.Pure.asks {cursor : DirectiveCursor σ} (pure : cursor.Pure loads job)
    {owner : Subject} {c : Consultation σ} (asks : cursor.inquiry? owner = some c.inquiry) :
    c.Asks job := by
  unfold inquiry? at asks
  split at asks
  · rename_i use rest uses stage
    injection asks with asks
    unfold Consultation.Asks
    rw [← asks]
    exact (pure use (uses ▸ List.mem_cons_self)).asks owner.identity
  · cases asks

/-- What a pure step asks for is written at a node of the document. -/
theorem Step.Pure.asks {step : Step σ} (pure : step.Pure loads job) {c : Consultation σ}
    (asks : step.inquiry? = some c.inquiry) : c.Asks job := by
  cases step with
  | object step => cases asks
  | field step =>
      obtain ⟨parent, key, site, state⟩ := step
      obtain ⟨known, state_pure⟩ := pure
      cases state with
      | runDirectives cursor => exact DirectiveCursor.Pure.asks state_pure asks
      | loadArguments =>
          simp only [inquiry?] at asks
          split at asks
          · cases asks
          · injection asks with asks
            unfold Consultation.Asks
            rw [← asks]
            exact known.asks
      | _ => cases asks
  | item step =>
      obtain ⟨position, state⟩ := step
      obtain ⟨known, state_pure⟩ := pure
      cases state with
      | runDirectives cursor value => exact DirectiveCursor.Pure.asks state_pure.1 asks
      | _ => cases asks

theorem Step.Consults.asks {step : Step σ} {progress : Progress σ}
    (consults : step.Consults job s cs progress t) (pure : step.Pure loads job) :
    ∀ c ∈ cs, c.Asks job := by
  cases consults with
  | quiet _ _ _ => exact fun _ mem => absurd mem List.not_mem_nil
  | found _ asks _ _ _ => exact fun c mem => List.mem_singleton.mp mem ▸ pure.asks asks
  | waits _ asks _ _ _ => exact fun c mem => List.mem_singleton.mp mem ▸ pure.asks asks
  | gathered _ _ consults _ => exact consults.asks pure.selections
  | stopped _ _ consults _ => exact consults.asks pure.selections

namespace Weave

variable {seen : Sight σ → Prop} {first last : Weave σ} {events : List (BagEvent σ)}

/-- Whatever a pure run asks for is written at a node of the document, and the run stays pure. -/
theorem Consults.pure (consults : Consults job seen first events last) (fine : job.Fine loads good)
    (own : first.Pure loads good job)
    (changes : ∀ world, seen (.changed world) → world.Keywise loads) :
    last.Pure loads good job ∧ ∀ c ∈ consultations events, c.Asks job := by
  induction consults with
  | refl => exact ⟨own, fun _ mem => absurd mem List.not_mem_nil⟩
  | @advance events second step ready cs progress s before picked allowed advanced consults ih =>
      obtain ⟨pure, asks⟩ := ih
      obtain ⟨sight, after⟩ := (Move.advance picked advanced).pure fine pure
        (by intro _ same; cases same)
      refine ⟨after, fun c mem => ?_⟩
      rw [consultations_append] at mem
      rcases List.mem_append.mp mem with mem | mem
      · exact asks c mem
      · exact consults.asks sight.1 c mem
  | @answer events second step key result others s before picked allowed polled ih =>
      obtain ⟨pure, asks⟩ := ih
      obtain ⟨-, after⟩ := (Move.answer picked polled).pure fine pure (by intro _ same; cases same)
      refine ⟨after, fun c mem => asks c ?_⟩
      rw [consultations_append] at mem
      simpa [BagEvent.consultations] using mem
  | aside before allowed move other unanswered ih =>
      obtain ⟨pure, asks⟩ := ih
      exact ⟨(move.pure fine pure fun world same => changes world (same ▸ allowed)).2, asks⟩

/-- In a pure run everybody is given what the own arguments come to. -/
theorem Consults.given_eq {setting : Setting σ}
    (consults : Consults setting.job seen first events last)
    (sound : setting.Sound good) (none_yet : first.run.arguments = [])
    (own : first.Pure setting.loads good setting.job)
    (changes : ∀ world, seen (.changed world) → world.Keywise setting.loads)
    {c : Consultation σ} (mem : c ∈ consultations events) {result : ArgumentsResult}
    (gave : (c.inquiry.key, result) ∈ given events) :
    setting.bag c.inquiry.owner c.inquiry.definitions c.inquiry.written = result := by
  obtain ⟨pure, asks⟩ := consults.pure sound.fine own changes
  have there := (consults.sharing none_yet).same _ _ gave
  have twins := pure.stage.bags c.inquiry.key
  rw [show last.stage.run.arguments.get? c.inquiry.key = _ from there] at twins
  obtain ⟨other, rfl, known⟩ := twins.self
  exact sound.right _ _ _ (asks c mem) known

end Weave

end GraphExec
