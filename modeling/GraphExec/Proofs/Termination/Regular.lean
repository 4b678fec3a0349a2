import GraphExec.Proofs.Beginning
import GraphExec.Proofs.Run.Buckets
import GraphExec.Proofs.Run.Secured

/-!
# What holds of all schedules of an execution

Whatever an execution has come to, a bucket that has been taken up holds steps, parked steps are
those of its runs, and the bags that they wait for have been started. Together with what is known of
polls and fetches, that is what lets a schedule get on.
-/

namespace GraphExec

variable {σ : Type} {job : Job σ}

namespace Weave

variable {first last : Weave σ} {seen : Sight σ → Prop}

/-- The bags that steps wait for have been started. -/
def Stocked (weave : Weave σ) : Prop :=
  ∀ step key, (step, .arguments key) ∈ weave.asleep → ∃ bag, weave.run.arguments.get? key = some bag

theorem Move.stocked {sight : Sight σ} (move : Move job first sight last) (stocked : first.Stocked) :
    last.Stocked := by
  intro step key mem
  have before (mem : (step, .arguments key) ∈ first.asleep) :
      ∃ bag, last.run.arguments.get? key = some bag := by
    obtain ⟨bag, there⟩ := stocked step key mem
    obtain ⟨after, there', -⟩ := move.becomes _ _ there
    exact ⟨after, there'⟩
  by_cases other : ∀ step s, sight ≠ .advanced step s
  · exact before (move.asleep other mem)
  · cases move with
    | advance picked advanced =>
        rcases asleep_place mem with mem | ⟨depth, rfl⟩
        · exact before mem
        · obtain ⟨cs, consults⟩ := Step.advance_consults advanced
          obtain ⟨c, among, rfl, missing⟩ := consults.parked
          obtain ⟨rest, there⟩ := consults.consulted.pending among missing
          exact ⟨_, there⟩
    | _ => exact absurd (by intro _ _ same; cases same) other

theorem Path.stocked (path : Path job seen first last) (stocked : first.Stocked) : last.Stocked := by
  induction path with
  | refl => exact stocked
  | step _ _ move ih => exact move.stocked ih

end Weave

theorem Buckets.park_ne_nil {buckets : Buckets σ} (full : ∀ entry ∈ buckets, entry.2 ≠ [])
    (depth : Nat) (parked : ParkedStep σ) : ∀ entry ∈ buckets.park depth parked, entry.2 ≠ [] := by
  induction buckets with
  | nil =>
      intro entry mem
      rw [List.mem_singleton.mp mem]
      exact List.cons_ne_nil _ _
  | cons first rest ih =>
      obtain ⟨d, bucket⟩ := first
      have behind := ih fun entry mem => full entry (List.mem_cons_of_mem _ mem)
      unfold park
      intro entry mem
      split at mem
      · rcases List.mem_cons.mp mem with rfl | mem
        · exact List.cons_ne_nil _ _
        · exact full entry mem
      · split at mem
        · rcases List.mem_cons.mp mem with rfl | mem
          · exact List.append_ne_nil_of_right_ne_nil _ (List.cons_ne_nil _ _)
          · exact full entry (List.mem_cons_of_mem _ mem)
        · rcases List.mem_cons.mp mem with rfl | mem
          · exact full _ List.mem_cons_self
          · exact behind entry mem

namespace Schedule

variable {first schedule next : Schedule σ}

/-- No bucket is empty, and the steps of a bucket that have been answered are those of runs. -/
structure Full (schedule : Schedule σ) : Prop where
  buckets : ∀ entry ∈ schedule.buckets, entry.2 ≠ []
  flushing : ∀ bucket flushes, schedule.phase = .flushing bucket flushes → bucket ≠ []
  awaiting : ∀ bucket line, schedule.phase = .awaiting bucket line → bucket ≠ [] ∧
    ∀ owner step resumption, .answered owner step resumption ∈ bucket → owner < schedule.runs.length

theorem Full.draining (buckets : ∀ entry ∈ schedule.buckets, entry.2 ≠ []) {owner : Nat}
    (phase : schedule.phase = .draining owner) : schedule.Full := by
  refine ⟨buckets, fun _ _ other => ?_, fun _ _ other => ?_⟩ <;> cases phase.symm.trans other

/-- The bucket that is taken up is not empty. -/
theorem Full.take (full : schedule.Full) {depth : Nat} {bucket : List (ParkedStep σ)}
    {buckets : Buckets σ} (first : schedule.buckets = (depth, bucket) :: buckets) :
    Full { schedule with buckets, phase := .flushing bucket schedule.world.dueFetches } := by
  have mem {entry : Nat × List (ParkedStep σ)} (mem : entry ∈ (depth, bucket) :: buckets) :
      entry.2 ≠ [] := full.buckets entry (first ▸ mem)
  refine ⟨fun entry there => mem (List.mem_cons_of_mem _ there), fun _ _ same => ?_,
    fun _ _ other => by cases other⟩
  cases same
  exact mem List.mem_cons_self

/-- A poll leaves the places of a bucket, each with a step of the same run. -/
theorem pollAt_phase (schedule : Schedule σ) (bucket : List (Awaited σ)) (place : Nat)
    (line : List Nat) :
    ∃ bucket' line', (schedule.pollAt bucket place line).phase = .awaiting bucket' line' ∧
      bucket'.length = bucket.length ∧ ∀ owner step resumption,
        .answered owner step resumption ∈ bucket' → .answered owner step resumption ∈ bucket ∨
          ∃ parked, .waiting parked ∈ bucket ∧ parked.owner = owner := by
  rcases schedule.pollAt_cases bucket place line with
    ⟨parked, front, back, line', -, rfl, same⟩ | ⟨-, same⟩
  · rw [same]
    refine ⟨_, _, rfl, by simp, fun owner step resumption mem => ?_⟩
    rcases List.mem_append.mp mem with before | mem
    · exact .inl (List.mem_append_left _ before)
    · rcases List.mem_cons.mp mem with polled | behind
      · refine .inr ⟨parked, List.mem_append_right _ List.mem_cons_self, ?_⟩
        obtain ⟨outcome, awaited⟩ := (schedule.poll_aside parked).1
        rw [awaited] at polled
        cases outcome with
        | ready resumption => exact (Awaited.answered.inj polled).1.symm
        | pending wait => cases polled
      · exact .inl (List.mem_append_right _ (List.mem_cons_of_mem _ behind))
  · rw [same]
    exact ⟨_, _, rfl, rfl, fun _ _ _ mem => .inl mem⟩

/-- Every transition leaves no bucket empty. -/
theorem Full.step (full : schedule.Full) (owned : schedule.Owned)
    (turn : schedule.step = .again next) : next.Full := by
  cases goesOn_of_step turn with
  | @advanced owner job run step ready progress s phase =>
      cases progress with
      | again step => exact .draining full.buckets phase
      | finished => exact .draining full.buckets phase
      | parked step depth wait =>
          exact .draining (Buckets.park_ne_nil full.buckets depth ⟨owner, step, wait⟩) phase
  | released phase => exact .draining full.buckets phase
  | passed => exact .draining full.buckets rfl
  | taken phase none_left first => exact full.take first
  | fetching phase =>
      refine ⟨full.buckets, fun _ _ same => ?_, fun _ _ other => (by cases other)⟩
      cases same
      exact full.flushing _ _ phase
  | fetched phase =>
      refine ⟨full.buckets, fun _ _ other => (by cases other), fun _ _ same => ?_⟩
      cases same
      refine ⟨fun empty => full.flushing _ _ phase (List.map_eq_nil_iff.mp empty),
        fun owner step resumption mem => ?_⟩
      obtain ⟨parked, -, same⟩ := List.mem_map.mp mem
      cases same
  | @polled bucket place line phase =>
      obtain ⟨there, answered⟩ := full.awaiting _ _ phase
      obtain ⟨bucket', line', phase', size, among⟩ := schedule.pollAt_phase bucket place line
      refine ⟨by rw [buckets_pollAt]; exact full.buckets, fun _ _ other => ?_, fun _ _ same => ?_⟩
      · cases phase'.symm.trans other
      · cases phase'.symm.trans same
        refine ⟨fun empty => there ?_, fun owner step resumption mem => ?_⟩
        · rw [empty] at size
          exact List.length_eq_zero_iff.mp size.symm
        · rw [(keeps_step turn).length]
          rcases among _ _ _ mem with before | ⟨parked, waits, rfl⟩
          · exact answered _ _ _ before
          · exact owned parked (mem_parkedSteps phase waits)
  | linedUp phase =>
      refine ⟨full.buckets, fun _ _ other => (by cases other), fun _ _ same => ?_⟩
      cases same
      exact full.awaiting _ _ phase
  | resumed phase found resumes =>
      obtain ⟨-, phase', buckets, -⟩ := resumeAll_eq _ resumes
      exact .draining (buckets ▸ full.buckets) phase'

/-- What holds of a schedule that requests have begun, whatever it has come to. -/
structure Regular (schedule : Schedule σ) : Prop where
  quiet : schedule.Quiet
  attentive : schedule.Attentive
  lined : schedule.Lined
  secure : ∀ watched, schedule.Secure watched
  owned : schedule.Owned
  full : schedule.Full
  stocked : ∀ parked ∈ schedule.parkedSteps, ∀ job run,
    schedule.runs[parked.owner]? = some (job, run) → ∀ key, parked.wait = .arguments key →
      ∃ bag, run.arguments.get? key = some bag

end Schedule

namespace Schema

variable {schema : Schema σ} {config : Config} {requests : List Request} {app : σ}
  {observe : Event → σ → σ} {first now : Schedule σ}

theorem Begins.stocked {world : World σ} (begins : schema.Begins config requests world first)
    (visits : first.Visits now) {parked : ParkedStep σ} (mem : parked ∈ now.parkedSteps) {run : Run σ}
    (here : now.runs[parked.owner]? = some (job, run)) {key : ArgumentKey}
    (waits : parked.wait = .arguments key) : ∃ bag, run.arguments.get? key = some bag := by
  obtain ⟨place, -⟩ := begins.job visits here
  obtain ⟨type, weave, -, path, shares⟩ := begins.path place visits
  obtain ⟨-, rfl⟩ := shares.same_run here
  refine path.stocked (fun _ _ none_waits => absurd none_waits List.not_mem_nil) parked.step key ?_
  refine shares.asleep.mem_iff.mpr (List.mem_filterMap.mpr ⟨parked, mem, ?_⟩)
  rw [ParkedStep.of?, if_pos rfl, waits]

theorem Begins.regular (begins : schema.Begins config requests ⟨app, observe, []⟩ first)
    (visits : first.Visits now) : now.Regular := by
  have all : now.Quiet ∧ now.Attentive ∧ now.Lined ∧ (∀ watched, now.Secure watched) ∧ now.Owned ∧
      now.Full := by
    induction visits with
    | start =>
        obtain ⟨runs, -, same⟩ := id begins
        have phase : first.phase = .draining 0 := by rw [same]; rfl
        have buckets : first.buckets = [] := by rw [same]; rfl
        have none_parked : first.parkedSteps = [] := by
          rw [Schedule.parkedSteps, phase, buckets]
          rfl
        have accounts := begins.accounts
        have unpolled := (accounts ⟨0, ""⟩).1.unpolled phase
        refine ⟨(accounts ⟨0, ""⟩).1, unpolled.attentive, Schedule.lined_of_not_awaiting ?_, ?_, ?_,
          .draining ?_ phase⟩
        · intro bucket line other
          cases phase.symm.trans other
        · exact fun watched => ⟨_, _, (accounts watched).2, fun future mem => unpolled.secured mem⟩
        · intro parked mem
          rw [none_parked] at mem
          cases mem
        · intro entry mem
          rw [buckets] at mem
          cases mem
    | step visits turn ih =>
        obtain ⟨quiet, attentive, lined, secure, owned, full⟩ := ih
        obtain ⟨attentive', lined'⟩ := attentive.step lined quiet turn
        exact ⟨quiet.step turn, attentive', lined',
          fun watched => (secure watched).step quiet attentive lined turn,
          (Schedule.keeps_step turn).owned owned, full.step owned turn⟩
  obtain ⟨quiet, attentive, lined, secure, owned, full⟩ := all
  exact ⟨quiet, attentive, lined, secure, owned, full,
    fun _ mem _ _ here _ waits => begins.stocked visits mem here waits⟩

end Schema

end GraphExec
