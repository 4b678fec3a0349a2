import Mathlib
import GraphExec.Proofs.Beginning
import GraphExec.Proofs.Run.Buckets
import GraphExec.Proofs.Run.Forced
import GraphExec.Schema.Builder

/-!
# Chains of lazies

Whatever else goes on in an execution, the value of a field, an item of a list, or what replaces an
object that is refused may be a lazy that answers with a lazy, and so on. Its position is parked for
each of them in turn, at its own depth, and goes on with what is in the middle as if it had been
there at once.
-/

namespace GraphExec

open Engine

variable {σ : Type} {job : Job σ} {position : Position σ} {first : Step σ} {s : Stage σ}

namespace Schedule

variable {middle now : Schedule σ} {owner : Nat} {weave : Weave σ} {feats : List (Feat σ)}
  {result : FieldResult σ}

/-- From where a step takes up a result, all that is done at its position is as it should be. -/
theorem Does.forced (does : middle.Does owner now feats) (shares : middle.Shares owner job weave)
    (settled : weave.Settled) (lawful : weave.run.draft.Lawful)
    (next : middle.deed? owner = some (first, s)) (takes : first.TakesUp position result) :
    ∃ after, now.Shares owner job after ∧
      after.Forced job position (position.path s.run.draft).length first feats := by
  obtain ⟨job', run, ready, phase, here, top, rfl⟩ := deed?_eq_some.mp next
  obtain ⟨rfl, rfl⟩ := shares.same_run here
  let depth := (position.path weave.run.draft).length
  have mem : Task.awake first ∈ weave.tasks :=
    (Weave.tasks_picked (.of_eq top)).mem_iff.mpr List.mem_cons_self
  have known : (Task.awake first).spot.id < weave.run.draft.nodes.size := settled.tidy.known _ mem
  have begun : weave.Forced job position depth first [] := by
    refine ⟨?_, lawful, ?_, fun _ => ⟨[], [], first, [], rfl, .start, .awake mem⟩⟩
    · rw [Task.spot, takes.spot] at known
      exact known
    · simp [depth, Position.path, Draft.pathTo]
  have advances (feats : List (Feat σ)) (before after : Weave σ) (step : Step σ) (s : Stage σ)
      (forced : before.Forced job position depth first feats) (settled : before.Settled)
      (move : Weave.Move job before (.advanced step s) after) :
      after.Forced job position depth first (feats ++ [.advances step s]) := by
    cases move with
    | advance picked advanced => exact forced.advance takes settled picked advanced
  obtain ⟨after, shares', -, forced⟩ := does.carries shares settled begun advances
    (fun _ _ _ _ _ forced settled drives => forced.drives takes settled drives)
    fun _ _ _ _ forced settled away move => forced.aside takes settled away move
  exact ⟨after, shares', forced⟩

end Schedule

/-! ### Executions -/

namespace Schema

variable {schema : Schema σ} {config : Config} {requests : List Request} {start : Schedule σ}

/-- The draft of a run is lawful, whatever an execution has come to. -/
theorem Begins.settled {owner : Nat} {run : Run σ} {world : World σ} {now : Schedule σ}
    (begins : schema.Begins config requests world start) (visits : start.Visits now)
    (here : now.runs[owner]? = some (job, run)) :
    ∃ weave, now.Shares owner job weave ∧ weave.run = run ∧ weave.Settled ∧
      weave.run.draft.Lawful := by
  obtain ⟨place, -⟩ := begins.job visits here
  obtain ⟨type, weave, -, path, shares⟩ := begins.path place visits
  have leads := path.leads (Weave.settled_start job type _)
  have blank : (Weave.start job type (schema.prepared requests world).2).run.draft =
      .new job.root := rfl
  have written := leads.1.written (Weave.settled_start job type _).tidy
  exact ⟨weave, shares, (shares.same_run here).2, leads.2, Draft.Written.lawful (Draft.lawful_new job.root) written⟩

/-- In every run, whatever waits and for however long: from where a step takes up a result for its
position, as long as the position is wanted, what is done there is to force a chain of lazies from
the outside in, each of them once. The step parks for each of them and for nothing else, always at
the depth of the position, and has then the last answer to take up and nothing else changed. What is
no lazy it settles, and completes the position with; a failure ends the chain and is what is
settled. When the run has ended, there has been such an end. -/
theorem lazies_forced {owner : Nat} {run : Run σ} {world : World σ} {middle now : Schedule σ}
    {feats : List (Feat σ)} {result : FieldResult σ}
    (begins : schema.Begins config requests world start) (visits : start.Visits middle)
    (does : middle.Does owner now feats) (here : now.runs[owner]? = some (job, run))
    (next : middle.deed? owner = some (first, s)) (takes : first.TakesUp position result)
    (alive : run.draft.Alive position.parent) :
    ∃ depth chain lazies last rest weave, depth = (position.path s.run.draft).length ∧
      featsAt feats (.slot position.parent position.key) = chain ++ rest ∧
      Forces job position depth first chain lazies last ∧
      chain.filterMap (Feat.parks? job) = lazies.map (fun lazy => (depth, lazy)) ∧
      (last = first ∧ lazies = [] ∨ ∃ outcome, last = first.offered outcome) ∧
      now.Shares owner job weave ∧ Stands job position depth last weave.tasks rest ∧
      (∀ final, now.step = .finished final → ∃ outcome s' t progress more,
        rest = .advances last s' :: more ∧ last.TakesUp position outcome ∧
          (∀ lazy, outcome ≠ .ok (.lazy lazy)) ∧ (last.advance job).Gives s' progress t ∧
          Step.Proceeds job position outcome last s' progress t) ∧
      (∀ error, last.TakesUp position (.error error) → ∀ s progress t,
        s.run.draft.Alive position.parent → (last.advance job).Gives s progress t →
        Step.Settles job position error last s progress t) ∧
      ∀ item value, last = .item item → item.state = .resolved (.ok value) →
        (∀ lazy, value ≠ .lazy lazy) → ∀ s, s.run.draft.Alive position.parent →
        (last.advance job).Gives s (.again (.item { item with state := .settled value })) s := by
  obtain ⟨job', run', ready, phase, there, top, same⟩ := Schedule.deed?_eq_some.mp next
  obtain rfl : job' = job := Option.some.inj
    ((begins.job visits there).1.symm.trans (begins.job (visits.trans does.visits) here).1)
  -- From the result that is taken up the chain grows by one lazy for each that is forced.
  obtain ⟨weave, shares, -, settled, lawful⟩ := begins.settled visits there
  obtain ⟨after, shares', forced⟩ := does.forced shares settled lawful next takes
  obtain ⟨-, rfl⟩ := shares'.same_run here
  obtain ⟨chain, lazies, last, rest, split, forces, stands⟩ := forced.forces alive
  refine ⟨_, chain, lazies, last, rest, after, rfl, split, forces, forces.parks, forces.offered,
    shares', stands, fun final turn => ?_, fun error fails s progress t alive gives => ?_,
    fun item value same state no_lazy s alive => ?_⟩
  -- Were the chain not ended, a task would be left that stands at its last lazy.
  · obtain ⟨finished, -⟩ := shares'.finished turn
    rw [finished.tasks_eq] at stands
    cases stands with
    | awake among => cases among
    | called resumes among => cases among
    | asleep takes parks left among => cases among
    | onward takes no_lazy gives proceeds more =>
        exact ⟨_, _, _, _, more, rfl, takes, no_lazy, gives, proceeds⟩
  -- A failure is no lazy, so the step that takes it up goes on, and what it goes on with is
  -- settled.
  · have no_lazy (lazy : Lazy σ (FieldResult σ)) :
        (.error error : FieldResult σ) ≠ .ok (.lazy lazy) := by
      intro same
      cases same
    exact (fails.proceeds no_lazy alive gives).settles
  -- An item takes up what it is resolved to and nothing else, so the value is what it settles.
  · subst same
    obtain ⟨outcome, takes_last⟩ := forces.takes takes
    have own : Step.TakesUp (.item item) item.position (.ok value) := .item state
    obtain ⟨rfl, -⟩ := takes_last.unique own
    exact Step.TakesUp.item_settles state no_lazy alive

/-- A schema with a field whose value is a lazy that answers with another lazy. -/
def nesting : SchemaBuilder Unit :=
  (SchemaBuilder.new "Query").register (.object
    { name := "Query"
      fields := [("egg",
        { name := "egg", type := .named "Int"
          resolve? := some fun _ => pure
            { result := .ok (.lazy (.pause (.done (.ok (.lazy (.done (.ok (.value (.int 1))))))))) }
        })] })

/-- The request `{ egg }`. -/
def nestingRequest : Request :=
  { document :=
      { operations := .single
          { name? := none
            kind := .query
            definitions := []
            selections := [.field ⟨none, "egg", [], [], [], ⟨1, 3⟩, 2⟩]
            location := ⟨1, 1⟩ }
        fragments := [] } }

/-- Whether a step goes on, and whether it parks for a value then. -/
def shapeOf (job : Job σ) (feat : Feat σ) : Bool × Bool :=
  (feat.deed?.isSome, (feat.parks? job).isSome)

/-- In some transitions a field comes to take up a lazy, and in some more the schedule has finished;
until then the field parks two times, and goes on for another time. -/
def nests (before after : Nat) (start : Schedule Unit) : Bool :=
  match start.goesOn? before with
  | some middle =>
    match middle.deed? 0, middle.doing? 0 after with
    | some (.field step, _), some (now, feats) =>
      match step.state, now.runs[0]?, now.step with
      | .resolved (.ok (.lazy _)), some (job, run), .finished _ =>
        !run.draft.isDead step.parent &&
          (featsAt feats (.slot step.parent (.field step.key))).map (shapeOf job) ==
            [(true, true), (false, false), (false, false), (true, true), (false, false),
              (true, false)]
      | _, _, _ => false
    | _, _ => false
  | none => false

theorem until_onward {before after : List (Bool × Bool)}
    (split : before ++ (true, false) :: after =
      [(true, true), (false, false), (false, false), (true, true), (false, false), (true, false)]) :
    before = [(true, true), (false, false), (false, false), (true, true), (false, false)] := by
  rcases before with _ | ⟨_, _ | ⟨_, _ | ⟨_, _ | ⟨_, _ | ⟨_, _ | ⟨_, _⟩⟩⟩⟩⟩⟩ <;> simp_all

theorem lazies_forced_nesting : ∃ schema start middle now deed feats job run position result,
    nesting.finish = .ok schema ∧
      schema.Begins {} [nestingRequest] ⟨(), fun _ state => state, []⟩ start ∧
      start.Visits middle ∧ middle.deed? 0 = some deed ∧ middle.Does 0 now feats ∧
      now.runs[0]? = some (job, run) ∧ deed.1.TakesUp position result ∧
      run.draft.Alive position.parent ∧
      ∃ depth chain lazies last outcome, Forces job position depth deed.1 chain lazies last ∧
        lazies.length = 2 ∧ last = deed.1.offered outcome ∧
        ∀ lazy, outcome ≠ .ok (.lazy lazy) := by
  have ran : nesting.comesTo {} [nestingRequest] ⟨(), fun _ state => state, []⟩ 0 (nests 7 18) =
      true := by cbv
  obtain ⟨schema, start, finish, begins, holds⟩ := SchemaBuilder.begins_of_comesTo ran
  unfold nests at holds
  split at holds
  · rename_i middle gone
    split at holds
    · rename_i step s now feats next doing
      split at holds
      · rename_i lazy job run final state here turn
        rw [Bool.and_eq_true, beq_iff_eq] at holds
        obtain ⟨lives, shapes⟩ := holds
        have visits := Schedule.visits_of_goesOn? .start gone
        have does := Schedule.does_of_doing? doing
        have takes : (Step.field step).TakesUp step.position (.ok (.lazy lazy)) := .field state
        have alive : run.draft.Alive step.position.parent := by
          have living : run.draft.isDead step.parent = false := by simpa using lives
          exact living
        obtain ⟨depth, chain, lazies, last, rest, weave, -, split, forces, parks, offered, -, -, ends,
          -, -⟩ := lazies_forced begins visits does here next takes alive
        obtain ⟨outcome, s', t, progress, more, rfl, takes_last, no_lazy, gives, proceeds⟩ :=
          ends final turn
        have shape : shapeOf job (.advances last s') = (true, false) := by
          simp only [shapeOf, no_parks_of_proceeds gives proceeds]
          rfl
        have same : featsAt feats (.slot step.parent (.field step.key)) =
            chain ++ .advances last s' :: more := split
        rw [same, List.map_append, List.map_cons, shape] at shapes
        have first_five : chain.map (shapeOf job) =
            [(true, true), (false, false), (false, false), (true, true), (false, false)] :=
          until_onward shapes
        have two : lazies.length = 2 := by
          have counted := congrArg List.length parks
          rw [List.length_map, List.length_filterMap_eq_countP] at counted
          rw [← counted]
          have := congrArg (List.countP Prod.snd) first_five
          rw [List.countP_map] at this
          exact this
        refine ⟨schema, start, middle, now, _, feats, job, run, step.position, _, finish, begins,
          visits, next, does, here, takes, alive, depth, chain, lazies, last, outcome, ?_, two, ?_,
          no_lazy⟩
        · assumption
        · rcases offered with ⟨-, rfl⟩ | ⟨answer, rfl⟩
          · cases two
          · obtain ⟨-, rfl⟩ := takes_last.unique (takes.offered answer)
            rfl
      · cases holds
    · cases holds
  · cases holds

end Schema

end GraphExec
