import GraphExec.Proofs.Draft.Nulled
import GraphExec.Proofs.Run.Course
import GraphExec.Proofs.Run.Reports

/-!
# The log of a run

A run is kept as the list of the transitions that its steps have made, each with what it reported.
The errors of the run are what its log reports, in order, and nothing else. A position that a failure
was reported of is null from then on, unless what holds it has died.
-/

namespace GraphExec

variable {σ : Type} {job : Job σ} {seen : Sight σ → Prop}

/-- A transition that a step has made, and what it has reported. -/
structure Transition (σ : Type) where
  step : Step σ
  before : Stage σ
  progress : Progress σ
  after : Stage σ
  reports : List Report

/-- The step has made the transition, and reported just that. -/
structure Transition.Holds (job : Job σ) (transition : Transition σ) : Prop where
  gives : (transition.step.advance job).Gives transition.before transition.progress transition.after
  reports : transition.step.Reports job transition.before transition.progress transition.after
    transition.reports
  errors : transition.after.run.errors = transition.before.run.errors ++
    transition.reports.map (·.entry transition.after.run.draft)

/-! ### What lasts -/

/-- What a report says of a draft from then on: its position is there, and null if it has failed. -/
def Report.Upheld (draft : Draft) : Report → Prop
  | failed failure =>
    failure.node < draft.nodes.size ∧ draft.Nulled failure.node failure.key
  | noted failure => failure.node < draft.nodes.size
  | gathered node _ => node < draft.nodes.size
  | refused _ => True

/-- Reports stay what they are as a draft grows. -/
theorem Report.Upheld.entry_eq {report : Report} {before after : Draft}
    (upheld : report.Upheld before) (grows : before.Grows after) (rooted : before.Rooted)
    (rooted' : after.Rooted) : report.entry after = report.entry before := by
  have path : ∀ failure : Failure, failure.node < before.nodes.size →
      failure.entry after = failure.entry before := by
    intro failure known
    unfold Failure.entry Draft.pathTo
    rw [grows.path rooted rooted' failure.node known]
  cases report with
  | failed failure => exact path failure upheld.1
  | noted failure => exact path failure upheld
  | gathered node error => rfl
  | refused error => rfl

theorem Report.Upheld.reaches {report : Report} {first last : Plan (Task σ)}
    (upheld : report.Upheld first.draft)
    (reaches : Plan.Reaches Task.spot (Comes job seen) first last)
    (tidy : Plan.Tidy Task.spot first) : report.Upheld last.draft := by
  have size := reaches.grows.size
  cases report with
  | failed failure =>
      exact ⟨Nat.lt_of_lt_of_le upheld.1 size, reaches.nulled tidy upheld.1 upheld.2⟩
  | noted failure => exact Nat.lt_of_lt_of_le upheld size
  | gathered node error => exact Nat.lt_of_lt_of_le upheld size
  | refused error => trivial

/-- The nulls among values that are written stand, unless they replace what holds them. -/
theorem Task.nulled_writes (job : Job σ) :
    ∀ (below : List (Task σ)) (draft : Draft) (rest : List (Task σ)), (∀ t ∈ below, t.Fresh) →
      Plan.Tidy Task.spot ⟨draft, below ++ rest⟩ →
      ∀ node key nonNull, Task.written node key .null nonNull ∈ below →
        (Task.writes below draft).Nulled node key := by
  intro below
  induction below with
  | nil => exact fun _ _ _ _ _ _ _ mem => absurd mem List.not_mem_nil
  | cons task below ih =>
      intro draft rest fresh tidy node key nonNull mem
      have behind := fun t mem => fresh t (List.mem_cons_of_mem task mem)
      cases task with
      | written node' key' value nonNull' =>
          have here : (Task.written node' key' value nonNull' : Task σ).spot = .slot node' key' := rfl
          have after : Plan.Tidy Task.spot ⟨draft.setLeaf node' key' value nonNull', below ++ rest⟩ :=
            Plan.Tidy.write here tidy
          rcases List.mem_cons.mp mem with same | mem
          · cases same
            have known : node < draft.nodes.size := tidy.known _ List.mem_cons_self
            have stands := Draft.nulled_setLeaf tidy.wf_draft (tidy.vacant here) nonNull
            have reaches : Plan.Reaches Task.spot (Comes job fun _ => True) _ _ :=
              reaches_writes below (draft.setLeaf node key .null nonNull) rest behind
            exact reaches.nulled after
              (Nat.lt_of_lt_of_le known (Draft.grows_setLeaf _ _ _ _ _).size) stands
          · exact ih _ rest behind after node key nonNull mem
      | awake step =>
          rcases List.mem_cons.mp mem with same | mem
          · cases same
          · exact ih draft rest behind tidy.tail node key nonNull mem
      | asleep step wait => exact (fresh _ List.mem_cons_self).elim
      | called step resumption => exact (fresh _ List.mem_cons_self).elim

/-- What is complete without a failure does not give way. -/
def Outcome.Mild (nonNull : Bool) : Outcome σ → Prop
  | .leaf value checked => value = .null → (checked && nonNull) = false
  | .refusals _ _ => False
  | _ => True

namespace Position

variable {position : Position σ} {u t : Stage σ} {value : ResolvedValue σ}
  {failures : List Failure} {task : Task σ} {rest : List (Task σ)}

/-- A value that is written as a null, and a null that is reported, are written so. -/
theorem Completes.null_eq {outcome : Outcome σ}
    (completes : position.Completes job u (.value .null) outcome) : outcome = .leaf .null true := by
  cases completes with
  | null => rfl
  | leaf other => exact absurd rfl other
  | items other | misfit other | object other => exact absurd trivial other

theorem Completes.error_eq {error : ExecutionError} {outcome : Outcome σ}
    (completes : position.Completes job u (.error error) outcome) :
    outcome = .leaf .null true := by
  cases completes with
  | error _ => rfl
  | items other | misfit other | object other => exact absurd trivial other

theorem Completes.skip_eq {outcome : Outcome σ} (completes : position.Completes job u .skip outcome) :
    outcome = .omitted := by
  cases completes with
  | skip => rfl
  | items other | misfit other | object other => exact absurd trivial other

theorem Completes.raw_eq {v : Value} {outcome : Outcome σ}
    (completes : position.Completes job u (.raw v) outcome) : outcome = .leaf v false := by
  cases completes with
  | raw _ => rfl
  | items other | misfit other | object other => exact absurd trivial other

/-- A list of errors is written as a list of nulls, if a list may be there. -/
theorem Completes.refusals_eq {items : List (ResolvedValue σ)} {itemType : TypeRef}
    {outcome : Outcome σ} (completes : position.Completes job u (.list items) outcome)
    (some_item : items ≠ []) (errors : items.all (·.isError) = true)
    (type : position.type.nullable = .list itemType) :
    outcome = .refusals itemType items.length := by
  cases completes with
  | refusals _ _ type' =>
      cases type.symm.trans type'
      rfl
  | refused _ _ other => exact absurd type (other _)
  | items other | misfit other | object other => exact absurd ⟨some_item, errors⟩ other

theorem Completes.refused_eq {items : List (ResolvedValue σ)} {outcome : Outcome σ}
    (completes : position.Completes job u (.list items) outcome) (some_item : items ≠ [])
    (errors : items.all (·.isError) = true)
    (type : ∀ itemType, position.type.nullable ≠ .list itemType) : outcome = .leaf .null true := by
  cases completes with
  | refusals _ _ type' => exact absurd type' (type _)
  | refused _ _ _ => rfl
  | items other | misfit other | object other => exact absurd ⟨some_item, errors⟩ other

/-- What a leaf of a type is written as. -/
theorem Completes.leaf_eq {name : String} {type : TypeDefinition σ}
    {coerce : Value → Action σ (Except String Value)} {outcome : Outcome σ}
    (completes : position.Completes job u value outcome) (other : ¬ value.Anywhere)
    (named : position.type.nullable = .named name) (known : job.schema.type? name = some type)
    (leaf : type.leafCoercion? = some coerce) :
    (∃ v, value = .value v ∧ outcome = .leaf (coercedLeaf ((coerce v).run u.world).1) true) ∨
      (value.isLeafLike = false ∧ outcome = .leaf .null true) := by
  cases completes with
  | null | error | skip | raw => exact absurd trivial other
  | refusals some_item errors | refused some_item errors => exact absurd ⟨some_item, errors⟩ other
  | items _ type _ => cases named.symm.trans type
  | leaf _ named' known' leaf' answer =>
      cases named.symm.trans named'
      cases known.symm.trans known'
      cases leaf.symm.trans leaf'
      exact .inl ⟨_, rfl, answer ▸ rfl⟩
  | misfit _ not_plain _ _ _ => exact .inr ⟨not_plain, rfl⟩
  | object _ named' known' composite _ _ _ =>
      cases named.symm.trans named'
      cases known.symm.trans known'
      cases leaf.symm.trans composite

/-- A value that is no null and no error is complete without a failure. -/
theorem Completes.items_mild {itemType : TypeRef} {outcome : Outcome σ}
    (completes : position.Completes job u value outcome) (other : ¬ value.Anywhere)
    (type : position.type.nullable = .list itemType) : outcome.Mild position.nonNull := by
  cases completes with
  | null | error | skip | raw => exact absurd trivial other
  | refusals some_item errors | refused some_item errors => exact absurd ⟨some_item, errors⟩ other
  | items _ _ _ => trivial
  | leaf _ named _ _ _ => cases named.symm.trans type
  | misfit _ _ named _ _ => cases named.symm.trans type
  | object _ named _ _ _ _ _ => cases named.symm.trans type

theorem Completes.object_mild {name : String} {type : TypeDefinition σ} {outcome : Outcome σ}
    (completes : position.Completes job u value outcome) (other : ¬ value.Anywhere)
    (named : position.type.nullable = .named name) (known : job.schema.type? name = some type)
    (composite : type.leafCoercion? = none) : outcome.Mild position.nonNull := by
  cases completes with
  | null | error | skip | raw => exact absurd trivial other
  | refusals some_item errors | refused some_item errors => exact absurd ⟨some_item, errors⟩ other
  | items _ type _ => cases named.symm.trans type
  | leaf _ named' known' leaf _ =>
      cases named.symm.trans named'
      cases known.symm.trans known'
      cases leaf.symm.trans composite
  | misfit _ _ named' known' leaf =>
      cases named.symm.trans named'
      cases known.symm.trans known'
      rw [composite] at leaf
      cases leaf
  | object _ _ _ _ _ _ _ => trivial

/-- What is written at a position that failures are reported of. -/
inductive Written (job : Job σ) (position : Position σ) (u : Stage σ) (value : ResolvedValue σ)
    (failures : List Failure) : Prop
  /-- None are, and the position does not give way. -/
  | mild (none_failed : failures = [])
      (mild : ∀ outcome, position.Completes job u value outcome → outcome.Mild position.nonNull)
  /-- They are of the position itself, which is written a null. -/
  | null (some_failed : failures ≠ [])
      (here : ∀ failure ∈ failures, failure.node = position.parent ∧ failure.key = position.key)
      (only : ∀ outcome, position.Completes job u value outcome → outcome = .leaf .null true)
  /-- They are of the places of a list that is new there, which are written nulls. -/
  | places (some_failed : failures ≠ []) (itemType : TypeRef) (size : Nat)
      (there : ∀ failure ∈ failures, failure.node = u.run.draft.nodes.size ∧
        ∃ n < size, failure.key = .index n)
      (only : ∀ outcome, position.Completes job u value outcome → outcome = .refusals itemType size)

/-- One failure of the position is reported of a null. -/
theorem Written.of_one {error : ExecutionError}
    (only : ∀ outcome, position.Completes job u value outcome → outcome = .leaf .null true) :
    Written job position u value [position.failure error] := by
  refine .null (List.cons_ne_nil _ _) (fun failure mem => ?_) only
  rw [List.mem_singleton.mp mem]
  exact ⟨rfl, rfl⟩

/-- A position that failures are reported of is written a null, or nulls at the places of a list; and
one that none are reported of does not give way. -/
theorem Fails.written (fails : position.Fails job u value failures) :
    Written job position u value failures := by
  have plain : ∀ {v : Value}, v ≠ .null → ¬ (ResolvedValue.value v : ResolvedValue σ).Anywhere := by
    intro v other
    cases v with
    | null => exact absurd rfl other
    | _ => exact id
  have several : ∀ {items : List (ResolvedValue σ)}, items ≠ [] → items.all (·.isError) = true →
      ResolvedValue.errors items ≠ [] := by
    intro items some_item errors none_left
    have length := length_errors errors
    rw [none_left] at length
    exact some_item (List.length_eq_zero_iff.mp length.symm)
  induction fails with
  | null allowed =>
      refine .mild rfl fun outcome completes => ?_
      rw [completes.null_eq]
      exact fun _ => allowed
  | skip =>
      refine .mild rfl fun outcome completes => ?_
      rw [completes.skip_eq]
      trivial
  | raw _ =>
      refine .mild rfl fun outcome completes => ?_
      rw [completes.raw_eq]
      exact fun _ => rfl
  | coerced other named known leaf answer fine =>
      refine .mild rfl fun outcome completes => ?_
      rcases completes.leaf_eq (plain other) named known leaf with ⟨v, same, rfl⟩ | ⟨not_plain, -⟩
      · cases same
        rw [answer]
        exact fun null => absurd null fine
      · cases not_plain
  | items completes =>
      cases completes with
      | items other type list => exact .mild rfl fun _ completes => completes.items_mild other type
  | object completes =>
      cases completes with
      | object other named known composite _ _ _ =>
          exact .mild rfl fun _ completes => completes.object_mild other named known composite
  | ruledOut _ => exact .of_one fun _ completes => completes.null_eq
  | error error => exact .of_one fun _ completes => completes.error_eq
  | @refusals items itemType some_item errors type =>
      refine .places ?_ itemType items.length ?_ fun outcome completes =>
        completes.refusals_eq some_item errors type
      · simpa using several some_item errors
      · intro failure mem
        obtain ⟨n, bound, rfl⟩ := List.mem_mapIdx.mp mem
        rw [length_errors errors] at bound
        exact ⟨rfl, n, bound, rfl⟩
  | refused some_item errors type =>
      refine .null ?_ ?_ fun outcome completes => completes.refused_eq some_item errors type
      · simpa using several some_item errors
      · intro failure mem
        obtain ⟨error, -, rfl⟩ := List.mem_map.mp mem
        exact ⟨rfl, rfl⟩
  | @coercedNull value name type coerce failures other named known leaf answer null ih =>
      have written : ∀ outcome, position.Completes job u (.value value) outcome →
          outcome = .leaf .null true := by
        intro outcome completes
        rcases completes.leaf_eq (plain other) named known leaf with ⟨v, same, rfl⟩ | ⟨-, rfl⟩
        · cases same
          rw [answer]
          rfl
        · rfl
      -- What is reported of the null is reported of the value, and the same is written.
      cases ih with
      | mild none_failed mild =>
          refine .mild none_failed fun outcome completes => ?_
          rw [written outcome completes]
          exact mild _ .null
      | null some_failed here _ => exact .null some_failed here written
      | places _ itemType size _ only => cases only _ .null
  | uncoerced other named known leaf answer =>
      refine .of_one fun outcome completes => ?_
      rcases completes.leaf_eq (plain other) named known leaf with ⟨v, same, rfl⟩ | ⟨-, rfl⟩
      · cases same
        rw [answer]
        rfl
      · rfl
  | misfit other not_plain named known leaf =>
      obtain ⟨coerce, leaf⟩ := Option.isSome_iff_exists.mp leaf
      refine .of_one fun outcome completes => ?_
      rcases completes.leaf_eq other named known leaf with ⟨v, rfl, -⟩ | ⟨-, rfl⟩
      · cases not_plain
      · rfl

/-- A position that has failed is null from then on, unless what holds it has died. -/
theorem Fails.nulled (fails : position.Fails job u value failures)
    (finishes : position.Finishes job u value t)
    (tidy : Plan.Tidy Task.spot ⟨u.run.draft, task :: rest⟩)
    (here : task.spot = .slot position.parent position.key)
    (alive : u.run.draft.Alive position.parent) :
    ∀ failure ∈ failures, failure.node < t.run.draft.nodes.size ∧
      t.run.draft.Nulled failure.node failure.key := by
  obtain ⟨outcome, completes, enters⟩ := finishes
  intro failure mem
  cases fails.written with
  | mild none_failed _ =>
      subst none_failed
      cases mem
  | null _ here_failed only =>
      obtain ⟨node, key⟩ := here_failed failure mem
      obtain rfl := only outcome completes
      rw [enters.draft, node, key]
      have known : position.parent < u.run.draft.nodes.size := by
        have bound := tidy.known task List.mem_cons_self
        rwa [here] at bound
      exact ⟨Nat.lt_of_lt_of_le known (Draft.grows_setLeaf _ _ _ _ _).size,
        Draft.nulled_setLeaf tidy.wf_draft (tidy.vacant here) _⟩
  | places _ itemType size there only =>
      -- The nulls at the places are written after the list is opened, one after the other.
      obtain ⟨node, n, bound, key⟩ := there failure mem
      obtain rfl := only outcome completes
      have sized : (Outcome.refusals itemType size : Outcome σ).size? = some size := rfl
      obtain ⟨draft_eq, -⟩ := Outcome.draft_eq position sized u.run.draft
      let list := u.run.draft.nodes.size
      let opened := (u.run.draft.newList position.parent position.key size position.nonNull).2
      let below := (Outcome.refusals itemType size : Outcome σ).below position list
      have tidy' : Plan.Tidy Task.spot ⟨opened, below ++ rest⟩ :=
        tidy.openList here alive (Outcome.spots_below sized)
      have member : Task.written list (.index n) .null itemType.isNonNull ∈ below :=
        Outcome.written_below bound
      have fresh : ∀ task ∈ below, task.Fresh := Outcome.fresh_below
      have written : Plan.Reaches Task.spot (Comes job fun _ => True) _ _ :=
        reaches_writes below opened rest fresh
      have known : list < opened.nodes.size :=
        tidy'.known _ (List.mem_append_left rest member)
      rw [enters.draft, draft_eq, node, key]
      exact ⟨Nat.lt_of_lt_of_le known written.grows.size,
        Task.nulled_writes job below opened rest fresh tidy' _ _ _ member⟩

end Position

theorem ObjectStep.spot_of_node {step : ObjectStep σ} {node : NodeId}
    (here : step.state.node? = some node) : (Task.awake (.object step)).spot = .node node := by
  show step.spot = _
  unfold ObjectStep.spot
  rw [here]

/-- Where a transition has reported a failure, a null stands, unless what holds it has died. -/
theorem Step.Reports.upheld {step : Step σ} {s t : Stage σ} {progress : Progress σ}
    {reports : List Report} {rest : List (Task σ)}
    (reported : step.Reports job s progress t reports)
    (gives : (step.advance job).Gives s progress t)
    (orderly : Orderly s.run.draft (.awake step :: rest)) :
    ∀ report ∈ reports, report.Upheld t.run.draft := by
  have realized : Realized job (fun _ => True) step s t progress rest :=
    Step.realized gives trivial orderly
  obtain ⟨steps, -, reaches, -⟩ := realized
  have size := reaches.grows.size
  intro report mem
  cases reported with
  | dropped dead => cases mem
  | skipped skips => cases mem
  | goes goes other => cases mem
  | settled alive due same finishes fails =>
      obtain ⟨failure, failed, rfl⟩ := List.mem_map.mp mem
      rw [← same.draft] at alive
      have tidy : Plan.Tidy Task.spot ⟨_, .awake step :: rest⟩ := same.draft ▸ orderly.tidy
      exact fails.nulled finishes tidy due.spot alive failure failed
  | @collected step s u t type node asked alive state passes =>
      obtain ⟨error, -, rfl⟩ := List.mem_map.mp mem
      have known := orderly.tidy.known _ List.mem_cons_self
      rw [ObjectStep.spot_of_node (by rw [state]; rfl : step.state.node? = some node)] at known
      exact Nat.lt_of_lt_of_le known size
  | refused target fails tells =>
      obtain ⟨error, -, rfl⟩ := List.mem_map.mp mem
      trivial
  | @resolved step next s t arguments noted alive state notes =>
      obtain ⟨error, -, rfl⟩ := List.mem_map.mp mem
      exact Nat.lt_of_lt_of_le (orderly.tidy.known _ List.mem_cons_self) size

/-- To drive forward what is waited for reports nothing. -/
theorem Wait.errors_poll (s : Stage σ) (wait : Wait σ) :
    (wait.poll s).2.run.errors = s.run.errors := by
  have by_kind : ∀ {α : Type} (rest : Pending σ α) (answer : α → Resumption σ)
      (wait : Pending σ α → Wait σ), (pollBy rest answer wait s).2.run.errors = s.run.errors := by
    intro α rest answer wait
    unfold pollBy
    split <;> rfl
  cases wait with
  | value rest => exact by_kind rest _ _
  | type rest => exact by_kind rest _ _
  | authorization rest => exact by_kind rest _ _
  | directive rest => exact by_kind rest _ _
  | arguments key =>
      show (pollBag key s).2.run.errors = s.run.errors
      unfold pollBag
      split
      · rfl
      · rename_i bag _
        rcases bag.poll.run s.world with ⟨bag, world⟩
        cases bag with
        | ready result => rfl
        | pending rest => rfl

namespace Weave

/-- A run has come about by moves of a kind, among them the transitions of a log. -/
inductive Logs (job : Job σ) (seen : Sight σ → Prop) (first : Weave σ) :
    List (Transition σ) → Weave σ → Prop
  | refl : Logs job seen first [] first
  | advance {log : List (Transition σ)} {second : Weave σ} {ready : List (Step σ)}
      {transition : Transition σ} (logs : Logs job seen first log second)
      (picked : second.run.ready.Perm (transition.step :: ready))
      (here : transition.before = ⟨{ second.run with ready }, second.world⟩)
      (allowed : seen (.advanced transition.step transition.before))
      (holds : transition.Holds job) :
      Logs job seen first (log ++ [transition])
        (place { second with run := transition.after.run, world := transition.after.world }
          transition.progress)
  | aside {log : List (Transition σ)} {second last : Weave σ} {sight : Sight σ}
      (logs : Logs job seen first log second) (allowed : seen sight)
      (move : Move job second sight last) (other : ∀ step s, sight ≠ .advanced step s) :
      Logs job seen first log last

variable {first second last : Weave σ} {log : List (Transition σ)}

theorem Logs.path (logs : Logs job seen first log last) : Path job seen first last := by
  induction logs with
  | refl => exact .refl _
  | @advance log second ready transition logs picked here allowed holds ih =>
      obtain ⟨step, before, progress, after, reports⟩ := transition
      subst here
      exact .step ih allowed (.advance picked holds.gives)
  | aside logs allowed move other ih => exact .step ih allowed move

/-- Every run has a log. -/
theorem Path.logs (path : Path job seen first last) : ∃ log, Logs job seen first log last := by
  induction path with
  | refl => exact ⟨[], .refl⟩
  | @step second last sight path allowed move ih =>
      obtain ⟨log, logs⟩ := ih
      cases move with
      | @advance step ready progress s picked advanced =>
          obtain ⟨reports, reported, errors⟩ := Step.advance_tells advanced
          exact ⟨_, .advance logs picked rfl allowed (⟨advanced, reported, errors⟩ :
            Transition.Holds job ⟨step, _, progress, s, reports⟩)⟩
      | release idle top none_parked =>
          exact ⟨log, .aside logs allowed (.release idle top none_parked)
            (by intro _ _ same; cases same)⟩
      | wait picked polled =>
          exact ⟨log, .aside logs allowed (.wait picked polled) (by intro _ _ same; cases same)⟩
      | answer picked polled =>
          exact ⟨log, .aside logs allowed (.answer picked polled) (by intro _ _ same; cases same)⟩
      | resume picked resumes =>
          exact ⟨log, .aside logs allowed (.resume picked resumes) (by intro _ _ same; cases same)⟩
      | change world =>
          exact ⟨log, .aside logs allowed (.change world) (by intro _ _ same; cases same)⟩

/-- What the steps of a run have reported, in order. -/
def reports (log : List (Transition σ)) : List Report := log.flatMap (·.reports)

theorem reports_append (log : List (Transition σ)) (transition : Transition σ) :
    reports (log ++ [transition]) = reports log ++ transition.reports := by
  simp [reports]

theorem Settled.awake {weave : Weave σ} (settled : weave.Settled) {step : Step σ}
    {ready : List (Step σ)} (picked : weave.run.ready.Perm (step :: ready)) :
    ∃ rest, Orderly weave.run.draft (.awake step :: rest) :=
  ⟨_, settled.perm (((picked.append_right weave.run.held).map _).append_right _)⟩

theorem errors_place (weave : Weave σ) (progress : Progress σ) :
    (weave.place progress).run.errors = weave.run.errors := by
  cases progress <;> rfl

/-- Only steps report. -/
theorem Move.errors_eq {first last : Weave σ} {sight : Sight σ} (move : Move job first sight last)
    (other : ∀ step s, sight ≠ .advanced step s) : last.run.errors = first.run.errors := by
  cases move with
  | advance picked advanced => exact absurd rfl (other _ _)
  | release idle top none_parked => rfl
  | @wait step wait rest others s picked polled
  | @answer step wait resumption others s picked polled =>
      have errors := wait.errors_poll first.stage
      rw [polled] at errors
      exact errors
  | resume picked resumes => rfl
  | change world => rfl

/-- Reports last as a run goes on. -/
theorem Leads.upheld (leads : Leads job seen second last) (settled : second.Settled)
    {reports : List Report} (upheld : ∀ report ∈ reports, report.Upheld second.run.draft) :
    (∀ report ∈ reports, report.Upheld last.run.draft) ∧
      reports.map (·.entry last.run.draft) = reports.map (·.entry second.run.draft) := by
  obtain ⟨reaches, orderly⟩ := leads
  constructor
  · exact fun report mem => (upheld report mem).reaches reaches settled.tidy
  · exact List.map_congr_left fun report mem => (upheld report mem).entry_eq reaches.grows
      settled.tidy.wf.rooted orderly.tidy.wf.rooted

/-- A run has the errors that its log reports, each as it stands in the end, and what failed is null
from then on. -/
theorem Logs.accounts (logs : Logs job seen first log last) (settled : first.Settled) :
    last.run.errors = first.run.errors ++ (reports log).map (·.entry last.run.draft) ∧
      ∀ report ∈ reports log, report.Upheld last.run.draft := by
  induction logs with
  | refl => exact ⟨(List.append_nil _).symm, fun _ mem => absurd mem List.not_mem_nil⟩
  | @advance log second ready transition logs picked here allowed holds ih =>
      obtain ⟨errors, upheld⟩ := ih
      obtain ⟨gives, reported, told⟩ := holds
      rw [here] at allowed gives reported told
      have between := (logs.path.leads settled).2
      obtain ⟨upheld', same⟩ := (leads_advance between picked allowed gives).upheld between upheld
      obtain ⟨rest, orderly⟩ := between.awake picked
      have told_upheld := reported.upheld gives orderly
      rw [reports_append, draft_place]
      rw [draft_place] at upheld' same
      constructor
      · rw [errors_place, List.map_append, same, ← List.append_assoc, ← errors]
        exact told
      · intro report mem
        rcases List.mem_append.mp mem with mem | mem
        · exact upheld' report mem
        · exact told_upheld report mem
  | aside logs allowed move other ih =>
      obtain ⟨errors, upheld⟩ := ih
      have between := (logs.path.leads settled).2
      obtain ⟨upheld', same⟩ := (move.leads allowed between).upheld between upheld
      exact ⟨by rw [move.errors_eq other, errors, same], upheld'⟩

end Weave

end GraphExec
