import GraphExec.Proofs.Run.Forcing

/-!
# Chains of lazies in a run

From where a step takes up a result for its position, as long as the position is wanted, all that is
done there is to force a chain of lazies, one after the other, and then to take up what is no lazy.
-/

namespace GraphExec

open Engine

variable {σ : Type} {job : Job σ} {position : Position σ} {depth : Nat} {first last : Step σ}
  {feats : List (Feat σ)} {lazies : List (Lazy σ (FieldResult σ))}

/-! ### Chains -/

/-- Where something is done. -/
def Feat.spot : Feat σ → Spot
  | advances step _ => step.spot
  | drives step _ _ => step.spot

/-- What a transition waits for, and at which depth, if it waits for a value. -/
def Feat.parks? (job : Job σ) : Feat σ → Option (Nat × Lazy σ (FieldResult σ))
  | advances step s =>
    match (step.advance job).runAt s with
    | (.ok (.parked _ depth (.value (.start lazy))), _) => some (depth, lazy)
    | _ => none
  | drives _ _ _ => none

/-- What is done at a spot, in order. -/
def featsAt (feats : List (Feat σ)) (spot : Spot) : List (Feat σ) :=
  feats.filter fun feat => feat.spot = spot

/-- What the polls of a waiting step have left of a lazy. -/
inductive LazyLeft (waiter : Step σ) (lazy : Lazy σ (FieldResult σ)) :
    List (Feat σ) → Pending σ (FieldResult σ) → Prop
  | start : LazyLeft waiter lazy [] (.start lazy)
  | polled {feats : List (Feat σ)} {rest next : Pending σ (FieldResult σ)} {s : Stage σ}
      (left : LazyLeft waiter lazy feats rest) (goes_on : (rest.poll.run s.world).1 = .pending next) :
      LazyLeft waiter lazy (feats ++ [.drives waiter (.value rest) s]) next

/-- The polls of a waiting step have driven a lazy to its answer. -/
inductive LazyAnswers (waiter : Step σ) (lazy : Lazy σ (FieldResult σ)) :
    List (Feat σ) → FieldResult σ → Prop
  | polled {feats : List (Feat σ)} {rest : Pending σ (FieldResult σ)} {answer : FieldResult σ}
      {s : Stage σ} (left : LazyLeft waiter lazy feats rest)
      (answers : (rest.poll.run s.world).1 = .ready answer) :
      LazyAnswers waiter lazy (feats ++ [.drives waiter (.value rest) s]) answer

/-- A step forces lazies for its position, one after the other: it parks for the first one, which is
driven forward until it answers, then for the one that it has answered with, and so on. The last
answer is left to be taken up. -/
inductive Forces (job : Job σ) (position : Position σ) (depth : Nat) (first : Step σ) :
    List (Feat σ) → List (Lazy σ (FieldResult σ)) → Step σ → Prop
  | start : Forces job position depth first [] [] first
  | link {feats polls : List (Feat σ)} {lazies : List (Lazy σ (FieldResult σ))} {last : Step σ}
      {lazy : Lazy σ (FieldResult σ)} {answer : FieldResult σ} {s : Stage σ}
      (forces : Forces job position depth first feats lazies last)
      (takes : last.TakesUp position (.ok (.lazy lazy)))
      (parks : (last.advance job).Gives s (.parked last.waiter depth (.value (.start lazy))) s)
      (answers : LazyAnswers last.waiter lazy polls answer) :
      Forces job position depth first (feats ++ .advances last s :: polls) (lazies ++ [lazy])
        (last.offered answer)

/-- How far the last step of a chain has got, and what is done at its spot then. -/
inductive Stands (job : Job σ) (position : Position σ) (depth : Nat) (last : Step σ)
    (tasks : List (Task σ)) : List (Feat σ) → Prop
  | awake (among : .awake last ∈ tasks) : Stands job position depth last tasks []
  | called {waiter : Step σ} {answer : FieldResult σ}
      (resumes : waiter.resume (.value answer) = .ok last)
      (among : .called waiter (.value answer) ∈ tasks) : Stands job position depth last tasks []
  | asleep {lazy : Lazy σ (FieldResult σ)} {polls : List (Feat σ)}
      {rest : Pending σ (FieldResult σ)} {s : Stage σ}
      (takes : last.TakesUp position (.ok (.lazy lazy)))
      (parks : (last.advance job).Gives s (.parked last.waiter depth (.value (.start lazy))) s)
      (left : LazyLeft last.waiter lazy polls rest)
      (among : .asleep last.waiter (.value rest) ∈ tasks) :
      Stands job position depth last tasks (.advances last s :: polls)
  | onward {outcome : FieldResult σ} {s t : Stage σ} {progress : Progress σ}
      (takes : last.TakesUp position outcome) (no_lazy : ∀ lazy, outcome ≠ .ok (.lazy lazy))
      (gives : (last.advance job).Gives s progress t)
      (proceeds : Step.Proceeds job position outcome last s progress t) (more : List (Feat σ)) :
      Stands job position depth last tasks (.advances last s :: more)

/-- The last step of a chain is the first one, with what is in the middle of the chain to take up.
-/
theorem Forces.offered (forces : Forces job position depth first feats lazies last) :
    last = first ∧ lazies = [] ∨ ∃ outcome, last = first.offered outcome := by
  induction forces with
  | start => exact .inl ⟨rfl, rfl⟩
  | @link _ _ _ _ _ answer _ _ _ _ _ ih =>
      rcases ih with ⟨rfl, -⟩ | ⟨outcome, rfl⟩
      · exact .inr ⟨answer, rfl⟩
      · exact .inr ⟨answer, Step.offered_offered⟩

theorem Forces.takes {result : FieldResult σ} (takes : first.TakesUp position result)
    (forces : Forces job position depth first feats lazies last) :
    ∃ outcome, last.TakesUp position outcome := by
  rcases forces.offered with ⟨rfl, -⟩ | ⟨outcome, rfl⟩
  · exact ⟨result, takes⟩
  · exact ⟨outcome, takes.offered outcome⟩

theorem LazyLeft.no_parks {waiter : Step σ} {lazy : Lazy σ (FieldResult σ)}
    {rest : Pending σ (FieldResult σ)} (left : LazyLeft waiter lazy feats rest) :
    feats.filterMap (Feat.parks? job) = [] := by
  induction left with
  | start => rfl
  | polled _ _ ih => rw [List.filterMap_append, ih]; rfl

theorem LazyAnswers.no_parks {waiter : Step σ} {lazy : Lazy σ (FieldResult σ)}
    {answer : FieldResult σ} (answers : LazyAnswers waiter lazy feats answer) :
    feats.filterMap (Feat.parks? job) = [] := by
  cases answers with
  | polled left => rw [List.filterMap_append, left.no_parks]; rfl

/-- What a step that forces lazies parks for are the lazies, each once, at one depth. -/
theorem Forces.parks (forces : Forces job position depth first feats lazies last) :
    feats.filterMap (Feat.parks? job) = lazies.map fun lazy => (depth, lazy) := by
  induction forces with
  | start => rfl
  | @link _ _ _ last lazy _ s _ _ parks answers ih =>
      have parked : Feat.parks? job (.advances last s) = some (depth, lazy) := by
        have ran : (last.advance job).runAt s = _ := parks
        simp only [Feat.parks?, ran]
      rw [List.filterMap_append, List.filterMap_cons_some parked, answers.no_parks, ih,
        List.map_append]
      rfl

/-- A step that goes on with what it has taken up does not park for a value. -/
theorem no_parks_of_proceeds {outcome : FieldResult σ} {s t : Stage σ} {progress : Progress σ}
    (gives : (last.advance job).Gives s progress t)
    (proceeds : Step.Proceeds job position outcome last s progress t) :
    Feat.parks? job (.advances last s) = none := by
  have ran : (last.advance job).runAt s = _ := gives
  cases proceeds <;> simp only [Feat.parks?, ran]

/-- A chain stands as it does when other things are left to be done elsewhere. -/
theorem Stands.mono {outcome : FieldResult σ} {tasks others : List (Task σ)} {rest : List (Feat σ)}
    (stands : Stands job position depth last tasks rest) (takes : last.TakesUp position outcome)
    (kept : ∀ task ∈ tasks, task.spot = .slot position.parent position.key → task ∈ others) :
    Stands job position depth last others rest := by
  cases stands with
  | awake among => exact .awake (kept _ among takes.spot)
  | called resumes among =>
      have stays : Step.Stays job _ last := Step.resume_stays resumes
      exact .called resumes (kept _ among (stays.spot.symm.trans takes.spot))
  | asleep takes' parks left among =>
      exact .asleep takes' parks left (kept _ among (takes'.spot_waiter.trans takes'.spot))
  | onward takes' no_lazy gives proceeds more => exact .onward takes' no_lazy gives proceeds more

/-! ### Polls -/

namespace Wait

variable {rest : Pending σ (FieldResult σ)} {s : Stage σ}

theorem poll_value_pending {wait : Wait σ} (polled : ((Wait.value rest).poll s).1 = .pending wait) :
    ∃ next, wait = .value next ∧ (rest.poll.run s.world).1 = .pending next := by
  change (pollBy rest .value .value s).1 = _ at polled
  unfold pollBy at polled
  split at polled
  · cases polled
  · rename_i next world left
    exact ⟨next, (Polled.pending.inj polled).symm, by rw [left]⟩

theorem poll_value_ready {resumption : Resumption σ}
    (polled : ((Wait.value rest).poll s).1 = .ready resumption) :
    ∃ answer, resumption = .value answer ∧ (rest.poll.run s.world).1 = .ready answer := by
  change (pollBy rest .value .value s).1 = _ at polled
  unfold pollBy at polled
  split at polled
  · rename_i answer world ready
    exact ⟨answer, (Polled.ready.inj polled).symm, by rw [ready]⟩
  · cases polled

end Wait

/-! ### Spots -/

section FeatsAt

variable {spot : Spot} {step : Step σ} {wait : Wait σ} {s : Stage σ}

theorem featsAt_here (feat : Feat σ) (here : feat.spot = spot) :
    featsAt (feats ++ [feat]) spot = featsAt feats spot ++ [feat] := by
  simp [featsAt, here]

theorem featsAt_elsewhere (feat : Feat σ) (elsewhere : feat.spot ≠ spot) :
    featsAt (feats ++ [feat]) spot = featsAt feats spot := by
  simp [featsAt, elsewhere]

end FeatsAt

/-! ### Runs -/

namespace Weave

variable {before after : Weave σ} {seen : Sight σ → Prop}

/-- The draft of a run is written by operations, and a node stays where it is. -/
theorem Leads.stays (leads : Leads job seen before after) (settled : before.Settled) :
    Draft.Written before.run.draft after.run.draft ∧
      ∀ id : NodeId, id < before.run.draft.nodes.size →
        id < after.run.draft.nodes.size ∧ after.run.draft.path id = before.run.draft.path id ∧
          (after.run.draft.Alive id → before.run.draft.Alive id) := by
  refine ⟨leads.1.written settled.tidy, fun id known => ⟨?_, ?_, fun alive => ?_⟩⟩
  · exact Nat.lt_of_lt_of_le known leads.1.grows.size
  · exact leads.1.grows.path settled.tidy.wf_draft.rooted leads.2.tidy.wf_draft.rooted id known
  · by_contra dead
    have was_dead : before.run.draft.isDead id = true := by simpa [Draft.Alive] using dead
    exact absurd (alive.symm.trans (leads.1.stays_dead known was_dead)) (by decide)

/-- What has been done at a position since a step took up a result there, and what is left to be
done. -/
structure Forced (job : Job σ) (position : Position σ) (depth : Nat) (first : Step σ)
    (feats : List (Feat σ)) (weave : Weave σ) : Prop where
  known : position.parent < weave.run.draft.nodes.size
  lawful : weave.run.draft.Lawful
  place : (weave.run.draft.path position.parent).length + 1 = depth
  forces : weave.run.draft.Alive position.parent → ∃ chain lazies last rest,
    featsAt feats (.slot position.parent position.key) = chain ++ rest ∧
      Forces job position depth first chain lazies last ∧
      Stands job position depth last weave.tasks rest

/-- A move keeps what it does not say otherwise. -/
theorem Forced.of_leads (forced : before.Forced job position depth first feats)
    (leads : Leads job seen before after) (settled : before.Settled) {feats' : List (Feat σ)}
    (forces : before.run.draft.Alive position.parent → after.run.draft.Alive position.parent →
      ∀ chain lazies last rest,
        featsAt feats (.slot position.parent position.key) = chain ++ rest →
        Forces job position depth first chain lazies last →
        Stands job position depth last before.tasks rest →
        ∃ chain lazies last rest,
          featsAt feats' (.slot position.parent position.key) = chain ++ rest ∧
            Forces job position depth first chain lazies last ∧
            Stands job position depth last after.tasks rest) :
    after.Forced job position depth first feats' := by
  obtain ⟨written, stays⟩ := leads.stays settled
  obtain ⟨known, place, lived⟩ := stays position.parent forced.known
  refine ⟨known, written.lawful forced.lawful, by rw [place, forced.place], fun alive => ?_⟩
  obtain ⟨chain, lazies, last, rest, split, forcing, stands⟩ := forced.forces (lived alive)
  exact forces (lived alive) alive _ _ _ _ split forcing stands

/-- A step whose wait is driven forward waits for what is left of it, or has been answered. -/
theorem Drives.swaps {step : Step σ} {wait : Wait σ} (drives : before.Drives step wait after) :
    ∃ other, Swaps before after (.asleep step wait) other ∧
      ((∃ rest, other = .asleep step rest ∧ (wait.poll before.stage).1 = .pending rest) ∨
        ∃ resumption, other = .called step resumption ∧
          (wait.poll before.stage).1 = .ready resumption) := by
  have same := wait.sameTree_poll before.stage
  cases drives with
  | waits picked polled =>
      exact ⟨_, swaps_wait picked (by rwa [polled] at same), .inl ⟨_, rfl, by rw [polled]⟩⟩
  | answers picked polled =>
      exact ⟨_, swaps_answer picked (by rwa [polled] at same), .inr ⟨_, rfl, by rw [polled]⟩⟩

/-- When no step goes on and nothing is polled, a step may be resumed at most. -/
theorem Forced.aside {result : FieldResult σ} {sight : Sight σ}
    (takes : first.TakesUp position result) (forced : before.Forced job position depth first feats)
    (settled : before.Settled) (away : sight.Aside) (move : Move job before sight after) :
    after.Forced job position depth first feats := by
  have leads : Leads job (fun _ => True) before after := move.leads trivial settled
  refine forced.of_leads leads settled
    fun _ _ chain lazies last rest split forces stands => ⟨chain, lazies, last, rest, split, forces, ?_⟩
  obtain ⟨outcome, takes_last⟩ := forces.takes takes
  cases move with
  | advance picked advanced => exact away.elim
  | wait picked polled => exact away.elim
  | answer picked polled => exact away.elim
  | change world => exact stands.mono takes_last fun _ mem _ => mem
  | @release step held idle top none_parked =>
      refine stands.mono takes_last fun task mem _ => ?_
      rwa [tasks_release idle top]
  | @resume step next resumption others picked resumes =>
      have swaps : Swaps before _ _ (.awake next) := swaps_resume picked
      cases stands with
      | awake among => exact .awake (swaps.kept among (by intro same; cases same))
      | @called waiter answer resumes' among =>
          by_cases same : Task.called waiter (.value answer) = .called step resumption
          · injection same with same_step same_answer
            subst same_step same_answer
            obtain rfl : last = next := Except.ok.inj (resumes'.symm.trans resumes)
            exact .awake swaps.mem.2
          · exact .called resumes' (swaps.kept among same)
      | asleep takes' parks left among =>
          exact .asleep takes' parks left (swaps.kept among (by intro same; cases same))
      | onward takes' no_lazy gives proceeds more =>
          exact .onward takes' no_lazy gives proceeds more

/-- A poll of the lazy that is waited for leaves something of it, or an answer to take up. -/
theorem Forced.drives {result : FieldResult σ} {step : Step σ} {wait : Wait σ}
    (takes : first.TakesUp position result) (forced : before.Forced job position depth first feats)
    (settled : before.Settled) (drives : before.Drives step wait after) :
    after.Forced job position depth first (feats ++ [.drives step wait before.stage]) := by
  have leads : Leads job (fun _ => True) before after := drives.move.leads trivial settled
  refine forced.of_leads leads settled
    fun alive _ chain lazies last rest split forces stands => ?_
  obtain ⟨outcome, takes_last⟩ := forces.takes takes
  obtain ⟨other, swaps, leaves⟩ := drives.swaps
  by_cases here : step.spot = .slot position.parent position.key
  · rw [featsAt_here (.drives step wait before.stage) here, split]
    have only {task : Task σ} (mem : task ∈ before.tasks)
        (there : task.spot = .slot position.parent position.key) : task = .asleep step wait :=
      settled.unique swaps.mem.1 mem (by rw [Task.spot, here]; exact alive) (there.trans here.symm)
    cases stands with
    | awake among => cases only among takes_last.spot
    | called resumes among =>
        have stays : Step.Stays job _ last := Step.resume_stays resumes
        cases only among (stays.spot.symm.trans takes_last.spot)
    | @asleep lazy polls rest s takes' parks left among =>
        obtain ⟨rfl, rfl⟩ := Task.asleep.inj (only among (takes'.spot_waiter.trans takes'.spot))
        rw [List.append_assoc]
        rcases leaves with ⟨next, rfl, goes_on⟩ | ⟨resumption, rfl, answers⟩
        · obtain ⟨next, rfl, waits⟩ := Wait.poll_value_pending goes_on
          exact ⟨chain, lazies, last, _, rfl, forces,
            .asleep takes' parks (left.polled waits) swaps.mem.2⟩
        · obtain ⟨answer, rfl, ready⟩ := Wait.poll_value_ready answers
          exact ⟨_, _, _, [], (List.append_nil _).symm,
            forces.link takes' parks (.polled left ready),
            .called Step.resume_waiter swaps.mem.2⟩
    | onward takes' no_lazy gives proceeds more =>
        exact ⟨chain, lazies, last, _, List.append_assoc _ _ _, forces,
          .onward takes' no_lazy gives proceeds (more ++ [_])⟩
  · rw [featsAt_elsewhere (.drives step wait before.stage) here]
    refine ⟨chain, lazies, last, rest, split, forces, stands.mono takes_last fun task mem there => ?_⟩
    refine swaps.kept mem ?_
    rintro rfl
    exact here there

/-- The transition of the last step of a chain parks for one more lazy, or ends the chain. -/
theorem Forced.advance {result : FieldResult σ} {step : Step σ} {ready : List (Step σ)}
    {progress : Progress σ} {s : Stage σ} (takes : first.TakesUp position result)
    (forced : before.Forced job position depth first feats) (settled : before.Settled)
    (picked : before.run.ready.Perm (step :: ready))
    (gives : (step.advance job).Gives ⟨{ before.run with ready }, before.world⟩ progress s) :
    (Weave.place { before with run := s.run, world := s.world } progress).Forced job position depth
      first (feats ++ [.advances step ⟨{ before.run with ready }, before.world⟩]) := by
  let stage : Stage σ := ⟨{ before.run with ready }, before.world⟩
  let after := Weave.place { before with run := s.run, world := s.world } progress
  have leads : Leads job (fun _ => True) before after := leads_advance settled picked trivial gives
  have was := tasks_picked picked
  obtain ⟨steps, added, -⟩ := Step.advance_begets gives
  have left := tasks_place added progress
  have mem : Task.awake step ∈ before.tasks := was.mem_iff.mpr List.mem_cons_self
  refine forced.of_leads leads settled
    fun alive _ chain lazies last rest split forces stands => ?_
  obtain ⟨outcome, takes_last⟩ := forces.takes takes
  by_cases here : step.spot = .slot position.parent position.key
  · rw [featsAt_here (.advances step stage) here, split]
    have only {task : Task σ} (among : task ∈ before.tasks)
        (there : task.spot = .slot position.parent position.key) : task = .awake step :=
      settled.unique mem among (by rw [Task.spot, here]; exact alive) (there.trans here.symm)
    cases stands with
    | awake among =>
        obtain rfl : last = step := Task.awake.inj (only among takes_last.spot)
        rw [List.append_nil]
        refine ⟨chain, lazies, last, _, rfl, forces, ?_⟩
        by_cases lazy : ∃ lazy, outcome = .ok (.lazy lazy)
        · obtain ⟨lazy, rfl⟩ := lazy
          have deep : stage.run.draft.depth position.parent + 1 = depth := by
            rw [← forced.place, Draft.path, List.length_reverse, List.length_map]
            exact congrArg (· + 1) (forced.lawful.depth_eq _ forced.known)
          have parks : (last.advance job).Gives stage
              (.parked last.waiter depth (.value (.start lazy))) stage :=
            deep ▸ takes_last.parks alive
          obtain ⟨rfl, rfl⟩ := gives.unique parks
          have waits : Task.asleep last.waiter (.value (.start lazy)) ∈ after.tasks :=
            left.mem_iff.mpr (List.mem_append_left _ List.mem_cons_self)
          exact .asleep takes_last parks .start waits
        · rw [not_exists] at lazy
          exact .onward takes_last lazy gives (takes_last.proceeds lazy alive gives) []
    | called resumes among =>
        have stays : Step.Stays job _ last := Step.resume_stays resumes
        cases only among (stays.spot.symm.trans takes_last.spot)
    | asleep takes' parks left among =>
        cases only among (takes'.spot_waiter.trans takes'.spot)
    | onward takes' no_lazy gives' proceeds more =>
        exact ⟨chain, lazies, last, _, List.append_assoc _ _ _, forces,
          .onward takes' no_lazy gives' proceeds (more ++ [_])⟩
  · rw [featsAt_elsewhere (.advances step stage) here]
    refine ⟨chain, lazies, last, rest, split, forces, stands.mono takes_last fun task among there => ?_⟩
    rcases List.mem_cons.mp (was.mem_iff.mp among) with rfl | kept
    · exact absurd there here
    · exact left.mem_iff.mpr (List.mem_append_right _ kept)

end Weave

end GraphExec
