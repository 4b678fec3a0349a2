import GraphExec.Proofs.Pure.Courses
import GraphExec.Proofs.Run.Bags
import GraphExec.Proofs.Run.Course
import GraphExec.Proofs.Run.Restarts

/-!
# Gathering anew in pure runs

In a pure run every bag of arguments has an outcome. While an object waits for one of them, the run
goes on in any order; what it finds when it gathers anew is what gathering anew asks for.
-/

namespace GraphExec

variable {σ α : Type} {loads : Loads} {outcome : ArgumentKey → ArgumentsResult} {job : Job σ}

/-! ### Pure hooks are steady -/

theorem Action.Settled.steady {action : Action σ α} {holds : α → Prop}
    (settled : action.Settled loads holds) : action.Steady := by
  obtain ⟨a, answers, -⟩ := settled
  intro v w
  rw [answers.told v, answers.told w]

variable {good : ArgumentKey → ArgumentsResult → Prop}

theorem Job.Fine.steady (fine : job.Fine loads good) : job.Steady where
  guards directive definition keeps guard arguments := by
    obtain ⟨found, has⟩ := Directive.guard?_eq_some.mp guard
    have pure := fine.pure.directives _ _ found
    exact (pure.includes _ has arguments job.query).steady
  rescues message path := (fine.pure.rescue message path job.query).steady

/-! ### Bags of pure runs -/

theorem SharedArguments.eq_ready_of_ofCoercion {coercion : Coercion σ} {result : ArgumentsResult}
    (ready : SharedArguments.ofCoercion coercion = .ready result) : coercion = .ready result := by
  cases coercion with
  | ready other =>
      injection ready with ready
      rw [ready]
  | pending lazy => cases ready

/-- The bags of a pure run agree with the outcomes that are known of them. -/
theorem ObjectStep.Pure.agrees {step : ObjectStep σ} {s : Stage σ}
    (fine : job.Fine loads fun key result => result = outcome key) (pure : step.Pure loads job)
    (alike : Alike loads (fun key result => result = outcome key) job s s) (type : ObjectType σ)
    (node : NodeId) : step.Agrees job type node outcome s := by
  rintro inquiry ⟨reached, written, guard⟩
  rename_i selection directive definition keeps
  obtain ⟨found, -⟩ := Directive.guard?_eq_some.mp guard
  have asks := Job.Asks.directive (Job.Has.reached pure.selections reached) written found
    step.subject.identity
  unfold Inquiry.Finds
  have twins := alike.bags (directive.inquiry definition step.subject.identity).key
  split
  · rename_i bag there
    have there : s.run.arguments.get?
        (directive.inquiry definition step.subject.identity).key = some bag := there
    rw [there] at twins
    rintro result rfl
    cases twins with
    | ready known => exact known
  · intro world result ready
    obtain ⟨answer, coercion, answers, comes⟩ := fine.coerces asks
    have known := fine.good _ _ _ asks ⟨coercion, answers, comes⟩
    have same : coercion = .ready result := by
      rw [← answers.told world]
      exact SharedArguments.eq_ready_of_ofCoercion ready
    subst same
    have comes : result = answer := comes
    exact comes.trans known

/-! ### While an object waits -/

/-- Whatever a pure run does while an object waits is what gathering anew allows for. -/
theorem Weave.Path.meanwhile {seen : Sight σ → Prop} {first last : Weave σ}
    (fine : job.Fine loads fun key result => result = outcome key)
    (path : Path job seen first last) (settled : first.Settled)
    (own : first.Pure loads (fun key result => result = outcome key) job)
    (changes : ∀ world, seen (.changed world) → world.Keywise loads) {step : ObjectStep σ}
    (pure : step.Pure loads job) (type : ObjectType σ) {node : Nat}
    (bound : node < first.run.draft.nodes.size) {key : ArgumentKey} {result : ArgumentsResult}
    (answered : last.run.arguments.get? key = some (.ready result)) :
    step.Meanwhile job type node outcome key first.stage last.stage := by
  obtain ⟨reaches, settled'⟩ := path.leads settled
  have grows : first.run.draft.Grows last.run.draft := reaches.grows
  refine ⟨?_, ?_, ⟨result, answered⟩, pure.agrees fine (path.pure fine own changes).2.stage _ _⟩
  · exact grows.path settled.tidy.wf_draft.rooted settled'.tidy.wf_draft.rooted node bound
  · intro other given there
    obtain ⟨bag, there', becomes⟩ := path.becomes other _ there
    exact there'.trans (congrArg some becomes.of_ready)

end GraphExec
