import GraphExec.Proofs.Pure.Steps

/-!
# Programs at alike stages

Two stages are alike if the run is the same at both, whatever surrounds it, but for how far bags of
arguments have got that are waited for. A program agrees if at alike stages it answers the same and
leaves alike stages behind, or fails alike.

With both stages the same, this is what a pure run keeps as it goes on.
-/

namespace GraphExec

variable {σ α β : Type}

/-- A bag comes to a result. -/
def SharedArguments.Answers (loads : Loads) (result : ArgumentsResult) :
    SharedArguments σ → Prop
  | .ready r => r = result
  | .pending rest => rest.Answers loads result

/-- What two stores have under a key comes to the same. -/
inductive Twins (loads : Loads) (good : ArgumentsResult → Prop) :
    Option (SharedArguments σ) → Option (SharedArguments σ) → Prop
  | none : Twins loads good none none
  | ready {result : ArgumentsResult} (fine : good result) :
      Twins loads good (some (.ready result)) (some (.ready result))
  | pending {rest rest' : Pending σ ArgumentsResult} {result : ArgumentsResult}
      (fine : good result) (here : rest.Answers loads result) (there : rest'.Answers loads result) :
      Twins loads good (some (.pending rest)) (some (.pending rest'))

/-- Two stages of a pure run differ in nothing that the run depends on. -/
structure Alike (loads : Loads) (good : ArgumentKey → ArgumentsResult → Prop) (job : Job σ)
    (s t : Stage σ) : Prop where
  same : s.run = { t.run with arguments := s.run.arguments }
  here : s.world.Keywise loads
  there : t.world.Keywise loads
  bags : ∀ key, Twins loads (good key) (s.run.arguments.get? key) (t.run.arguments.get? key)
  steps : ∀ step ∈ s.run.ready ++ s.run.held, step.Pure loads job

/-- Two outcomes of a program agree, and the answer is of a kind. -/
inductive Agree (loads : Loads) (good : ArgumentKey → ArgumentsResult → Prop) (job : Job σ)
    (holds : α → Prop) : Except FatalError α × Stage σ → Except FatalError α × Stage σ → Prop
  | ok {a : α} {s t : Stage σ} (fine : holds a) (alike : Alike loads good job s t) :
      Agree loads good job holds (.ok a, s) (.ok a, t)
  | error (error : FatalError) (s t : Stage σ) :
      Agree loads good job holds (.error error, s) (.error error, t)

/-- At alike stages the program does the same, and what it answers is of a kind. -/
def Engine.Agrees (loads : Loads) (good : ArgumentKey → ArgumentsResult → Prop) (job : Job σ)
    (holds : α → Prop) (program : Engine σ α) : Prop :=
  ∀ s t, Alike loads good job s t →
    Agree loads good job holds (program.runAt s) (program.runAt t)

variable {loads : Loads} {good : ArgumentKey → ArgumentsResult → Prop} {job : Job σ}
  {holds : α → Prop} {holds' : β → Prop}

theorem Twins.result? {good : ArgumentsResult → Prop} {bag bag' : SharedArguments σ}
    (twins : Twins loads good (some bag) (some bag')) :
    bag.result? = bag'.result? ∧ ∀ result, bag.result? = some result → good result := by
  cases twins with
  | ready fine =>
      refine ⟨rfl, fun result same => ?_⟩
      injection same with same
      exact same ▸ fine
  | pending fine here there => exact ⟨rfl, nofun⟩

theorem Twins.of_coercion {good : ArgumentsResult → Prop} {coercion : Coercion σ}
    {result : ArgumentsResult} (answers : coercion.Answers loads result) (fine : good result) :
    Twins loads good (some (.ofCoercion coercion)) (some (.ofCoercion coercion)) := by
  cases coercion with
  | ready r =>
      obtain rfl : r = result := answers
      exact .ready fine
  | pending lazy => exact .pending fine answers answers

namespace Alike

variable {s t : Stage σ}

theorem tell (alike : Alike loads good job s t) (event event' : Event) :
    Alike loads good job { s with world := s.world.tell event }
      { t with world := t.world.tell event' } :=
  ⟨alike.same, alike.here.tell event, alike.there.tell event', alike.bags, alike.steps⟩

/-- Stages stay alike as their runs change in the same way. -/
theorem modify (alike : Alike loads good job s t) {f : Run σ → Run σ}
    (apart : ∀ run arguments, f { run with arguments } = { f run with arguments })
    (pure : ∀ step ∈ (f s.run).ready ++ (f s.run).held, step.Pure loads job) :
    Alike loads good job { s with run := f s.run } { t with run := f t.run } := by
  have kept : ∀ run : Run σ, (f run).arguments = run.arguments := by
    intro run
    have same := apart run run.arguments
    rw [same]
  refine ⟨?_, alike.here, alike.there, fun key => ?_, pure⟩
  · show f s.run = { f t.run with arguments := (f s.run).arguments }
    rw [kept, ← apart, ← alike.same]
  · show Twins loads (good key) ((f s.run).arguments.get? key) ((f t.run).arguments.get? key)
    rw [kept, kept]
    exact alike.bags key

/-- Both stages come to know a bag under a key. -/
theorem insert (alike : Alike loads good job s t) {key : ArgumentKey} {bag bag' : SharedArguments σ}
    (twins : Twins loads (good key) (some bag) (some bag')) :
    Alike loads good job
      { s with run := { s.run with arguments := s.run.arguments.insert key bag } }
      { t with run := { t.run with arguments := t.run.arguments.insert key bag' } } := by
  refine ⟨?_, alike.here, alike.there, fun other => ?_, alike.steps⟩
  · show ({ s.run with arguments := s.run.arguments.insert key bag } : Run σ) =
      { t.run with arguments := s.run.arguments.insert key bag }
    rw [alike.same]
  · show Twins loads (good other) ((s.run.arguments.insert key bag).get? other)
      ((t.run.arguments.insert key bag').get? other)
    rw [ArgumentStore.get?_insert, ArgumentStore.get?_insert]
    by_cases same : key = other
    · subst same
      rw [if_pos rfl, if_pos rfl]
      exact twins
    · rw [if_neg same, if_neg same]
      exact alike.bags other

end Alike

namespace Engine

/-- What a program answers at a stage that is like itself. -/
theorem Agrees.gives {program : Engine σ α} (agrees : Agrees loads good job holds program)
    {s t : Stage σ} {a : α} (alike : Alike loads good job s s) (gives : program.Gives s a t) :
    holds a ∧ Alike loads good job t t := by
  have both := agrees s s alike
  rw [show program.runAt s = (.ok a, t) from gives] at both
  cases both with
  | ok fine after => exact ⟨fine, after⟩

theorem Agrees.mono {holds' : α → Prop} {program : Engine σ α}
    (agrees : Agrees loads good job holds program) (weaker : ∀ a, holds a → holds' a) :
    Agrees loads good job holds' program := by
  intro s t alike
  have both := agrees s t alike
  generalize program.runAt s = left at both
  generalize program.runAt t = right at both
  cases both with
  | ok fine after => exact .ok (weaker _ fine) after
  | error error s t => exact .error error s t

theorem agrees_pure {a : α} (fine : holds a) :
    Agrees loads good job holds (pure a : Engine σ α) :=
  fun _ _ alike => .ok fine alike

theorem agrees_throw (error : FatalError) :
    Agrees loads good job holds (throw error : Engine σ α) :=
  fun s t _ => .error error s t

theorem Agrees.bind {x : Engine σ α} {f : α → Engine σ β} (agrees : Agrees loads good job holds x)
    (then_ : ∀ a, holds a → Agrees loads good job holds' (f a)) :
    Agrees loads good job holds' (x >>= f) := by
  intro s t alike
  have both := agrees s t alike
  rw [runAt_bind, runAt_bind]
  generalize x.runAt s = left at both ⊢
  generalize x.runAt t = right at both ⊢
  cases both with
  | ok fine after => exact then_ _ fine _ _ after
  | error error s t => exact .error error s t

theorem agrees_call {action : Action σ α} (settled : action.Settled loads holds) :
    Agrees loads good job holds (call action) := by
  intro s t alike
  obtain ⟨a, answers, fine⟩ := settled
  obtain ⟨left, here⟩ := answers.run alike.here
  obtain ⟨right, there⟩ := answers.run alike.there
  show Agree loads good job holds
    (.ok (action.run s.world).1, { s with world := (action.run s.world).2 })
    (.ok (action.run t.world).1, { t with world := (action.run t.world).2 })
  rw [left, right]
  exact .ok fine ⟨alike.same, here, there, alike.bags, alike.steps⟩

theorem agrees_tell (event : Event) :
    Agrees loads good job (fun _ => True) (tell event : Engine σ Unit) :=
  fun _ _ alike => .ok trivial (alike.tell event event)

theorem agrees_draft : Agrees loads good job (fun _ => True) (draft : Engine σ Draft) := by
  intro s t alike
  have same : s.run.draft = t.run.draft := by rw [alike.same]
  show Agree loads good job _ (.ok s.run.draft, s) (.ok t.run.draft, t)
  rw [same]
  exact .ok trivial alike

theorem agrees_modifyRun {f : Run σ → Run σ}
    (apart : ∀ run arguments, f { run with arguments } = { f run with arguments })
    (pure : ∀ run : Run σ, (∀ step ∈ run.ready ++ run.held, step.Pure loads job) →
      ∀ step ∈ (f run).ready ++ (f run).held, step.Pure loads job) :
    Agrees loads good job (fun _ => True) (modifyRun f) :=
  fun s _ alike => .ok trivial (alike.modify apart (pure s.run alike.steps))

theorem agrees_modifyDraft (f : Draft → Draft) :
    Agrees loads good job (fun _ => True) (modifyDraft f : Engine σ Unit) :=
  agrees_modifyRun (fun _ _ => rfl) fun _ pure => pure

theorem agrees_report (error : ExecutionError) :
    Agrees loads good job (fun _ => True) (report error : Engine σ Unit) :=
  agrees_modifyRun (fun _ _ => rfl) fun _ pure => pure

theorem agrees_enqueue {step : Step σ} (pure : step.Pure loads job) :
    Agrees loads good job (fun _ => True) (enqueue step) := by
  refine agrees_modifyRun (fun _ _ => rfl) fun run others other mem => ?_
  simp only [List.append_assoc, List.mem_append, List.mem_singleton] at mem
  rcases mem with mem | rfl | mem
  · exact others other (List.mem_append_left _ mem)
  · exact pure
  · exact others other (List.mem_append_right _ mem)

theorem agrees_hold {step : Step σ} (pure : step.Pure loads job) :
    Agrees loads good job (fun _ => True) (hold step) := by
  refine agrees_modifyRun (fun _ _ => rfl) fun run others other mem => ?_
  simp only [List.mem_append, List.mem_singleton] at mem
  rcases mem with mem | mem | rfl
  · exact others other (List.mem_append_left _ mem)
  · exact others other (List.mem_append_right _ mem)
  · exact pure

theorem agrees_allocate (f : Draft → NodeId × Draft) :
    Agrees loads good job (fun _ => True) (allocate f : Engine σ NodeId) :=
  agrees_draft.bind fun _ _ => (agrees_modifyDraft _).bind fun _ _ => agrees_pure trivial

theorem agrees_identify (value : AppValue) :
    Agrees loads good job (fun _ => True) (identify value : Engine σ Subject) := by
  cases value with
  | object o => exact agrees_pure trivial
  | data v =>
      intro s t alike
      have same : s.run.data = t.run.data := by rw [alike.same]
      have known : ∀ s : Stage σ, (identify (.data v) : Engine σ Subject).runAt s =
          (.ok ⟨.data v, .data s.run.data⟩,
            { s with run := { s.run with data := s.run.data + 1 } }) := fun _ => rfl
      rw [known s, known t, same]
      exact .ok trivial (alike.modify (f := fun run => { run with data := t.run.data + 1 })
        (fun _ _ => rfl) alike.steps)

/-- The bag under a key, if it is there, is what is known of it. -/
theorem agrees_lookUp {key : ArgumentKey} {coerce : Action σ (Coercion σ)}
    (settled : ∃ result, Coerces loads coerce result ∧ good key result) :
    Agrees loads good job (fun result? => ∀ result, result? = some result → good key result)
      (lookUp key coerce) := by
  intro s t alike
  have twins := alike.bags key
  have reads : ∀ s : Stage σ, (get : Engine σ (Stage σ)).runAt s = (.ok s, s) := fun _ => rfl
  have held : ∀ {s : Stage σ} {bag : SharedArguments σ}, s.run.arguments.get? key = some bag →
      (lookUp key coerce).runAt s = (.ok bag.result?, s) := by
    intro s bag there
    unfold lookUp
    rw [runAt_bind, reads]
    simp only [there]
    rfl
  have begun : ∀ {s : Stage σ}, s.run.arguments.get? key = none →
      (lookUp key coerce).runAt s =
        (.ok (SharedArguments.ofCoercion (coerce.run s.world).1).result?,
          { run := { s.run with
              arguments := s.run.arguments.insert key (.ofCoercion (coerce.run s.world).1) }
            world := (coerce.run s.world).2 }) := by
    intro s there
    unfold lookUp
    rw [runAt_bind, reads]
    simp only [there]
    rfl
  generalize left_is : s.run.arguments.get? key = left at twins
  generalize right_is : t.run.arguments.get? key = right at twins
  cases twins with
  | none =>
      rw [begun left_is, begun right_is]
      obtain ⟨result, ⟨coercion, answers, comes⟩, fine⟩ := settled
      obtain ⟨one, here⟩ := answers.run alike.here
      obtain ⟨two, there⟩ := answers.run alike.there
      simp only [one, two]
      have twins := Twins.of_coercion comes fine
      have after : Alike loads good job { s with world := (coerce.run s.world).2 }
          { t with world := (coerce.run t.world).2 } :=
        ⟨alike.same, here, there, alike.bags, alike.steps⟩
      exact .ok twins.result?.2 (after.insert twins)
  | ready fine =>
      rw [held left_is, held right_is]
      refine .ok (fun result same => ?_) alike
      injection same with same
      exact same ▸ fine
  | pending fine here there =>
      rw [held left_is, held right_is]
      exact .ok (fun result same => by cases same) alike

end Engine

end GraphExec
