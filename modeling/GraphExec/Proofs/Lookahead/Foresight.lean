import GraphExec.Proofs.Lookahead.Inclusion
import GraphExec.Proofs.Lookahead.Walks
import GraphExec.Proofs.Run.Written

/-!
# Foresight

A look ahead sees the field nodes that a gathering would find if every type condition were
satisfied, and if every directive with hooks for its arguments kept its node. What a gathering finds
is among them; if the gathering has asked no such directive, and has missed no condition, it is all
of them.
-/

namespace GraphExec

variable {σ : Type} {loads : Loads}

/-! ### Field nodes that are seen -/

section Gathers

variable {keeps : List Directive → Bool → Prop} {satisfies : Option String → Bool}
  {available : Fields Fragment}

/-- What is gathered is gathered from one selection after another. -/
theorem Gathers.split {selection : Selection} {rest : List Selection} {nodes : List FieldNode}
    (gathers : Gathers keeps satisfies available (selection :: rest) nodes) :
    ∃ front back, nodes = front ++ back ∧ Gathers keeps satisfies available [selection] front ∧
      Gathers keeps satisfies available rest back := by
  cases gathers with
  | left no behind => exact ⟨[], _, rfl, .left no (.nil _), behind⟩
  | field yes behind => exact ⟨[_], _, rfl, .field yes (.nil _), behind⟩
  | inline yes satisfied inside behind =>
      exact ⟨_, _, rfl, by simpa using Gathers.inline yes satisfied inside (.nil _), behind⟩
  | missed yes missed behind => exact ⟨[], _, rfl, .missed yes missed (.nil _), behind⟩
  | spread yes known satisfied inside behind =>
      exact ⟨_, _, rfl, by simpa using Gathers.spread yes known satisfied inside (.nil _), behind⟩
  | unspread yes missed behind => exact ⟨[], _, rfl, .unspread yes missed (.nil _), behind⟩

/-- What is gathered from a selection is gathered wherever it stands. -/
theorem Gathers.of_mem {selections : List Selection} :
    ∀ {nodes : List FieldNode}, Gathers keeps satisfies available selections nodes →
      ∀ selection ∈ selections, ∃ front, Gathers keeps satisfies available [selection] front ∧
        front ⊆ nodes := by
  induction selections with
  | nil => exact fun _ _ mem => absurd mem List.not_mem_nil
  | cons first rest ih =>
      intro nodes gathers selection mem
      obtain ⟨front, back, rfl, here, behind⟩ := gathers.split
      rcases List.mem_cons.mp mem with rfl | mem
      · exact ⟨front, here, List.subset_append_left _ _⟩
      · obtain ⟨part, there, among⟩ := ih behind selection mem
        exact ⟨part, there, List.Subset.trans among (List.subset_append_right _ _)⟩

/-- Whatever is gathered is gathered from one of the selections. -/
theorem Gathers.from_mem {selections : List Selection} {node : FieldNode} :
    ∀ {nodes : List FieldNode}, Gathers keeps satisfies available selections nodes → node ∈ nodes →
      ∃ selection ∈ selections, ∃ front, Gathers keeps satisfies available [selection] front ∧
        node ∈ front := by
  induction selections with
  | nil =>
      intro nodes gathers mem
      cases gathers
      cases mem
  | cons first rest ih =>
      intro nodes gathers mem
      obtain ⟨front, back, rfl, here, behind⟩ := gathers.split
      rcases List.mem_append.mp mem with mem | mem
      · exact ⟨first, List.mem_cons_self, front, here, mem⟩
      · obtain ⟨selection, there, part⟩ := ih behind mem
        exact ⟨selection, List.mem_cons_of_mem _ there, part⟩

/-- If each of some selections is among others, what is gathered from them is gathered from the
others. -/
theorem Gathers.subset (one : ∀ directives a b, keeps directives a → keeps directives b → a = b)
    {selections others : List Selection} {nodes seen : List FieldNode}
    (gathers : Gathers keeps satisfies available selections nodes)
    (gathers' : Gathers keeps satisfies available others seen) (among : selections ⊆ others) :
    nodes ⊆ seen := by
  intro node mem
  obtain ⟨selection, there, front, here, member⟩ := gathers.from_mem mem
  obtain ⟨part, here', part_of⟩ := gathers'.of_mem selection (among there)
  exact part_of (Gathers.unique one here here' ▸ member)

end Gathers

namespace Lookahead

variable (view : Lookahead σ)

/-- The field nodes that are seen among selections: those that would be gathered if every type
condition were satisfied. -/
def Sees (view : Lookahead σ) (loads : Loads) (available : Fields Fragment)
    (selections : List Selection) (nodes : List FieldNode) : Prop :=
  Gathers (fun directives kept => (view.included directives).Answers loads kept) (fun _ => true)
    available selections nodes

/-- Pure code answers the field nodes that are seen. -/
theorem fieldsWithin_answers
    (settled : ∀ directives, (view.included directives).Settled loads fun _ => True)
    (available : Fields Fragment) (selections : List Selection) :
    ∃ nodes, (view.fieldsWithin available selections).Answers loads nodes ∧
      view.Sees loads available selections nodes := by
  induction available, selections using Selection.descent with
  | nil available =>
      unfold fieldsWithin
      exact ⟨[], rfl, .nil _⟩
  | cons available selection rest tail inside fragments =>
      obtain ⟨nodes, answers, behind⟩ := tail
      obtain ⟨kept, included, -⟩ := settled selection.directives
      unfold fieldsWithin
      cases kept with
      | false => exact ⟨nodes, included.bind answers, .left included behind⟩
      | true =>
          cases selection with
          | field node =>
              exact ⟨node :: nodes, included.bind (answers.bind rfl), .field included behind⟩
          | inline condition directives inner =>
              obtain ⟨within, found, below⟩ := inside _ _ _ rfl
              exact ⟨within ++ nodes, included.bind (found.bind (answers.bind rfl)),
                .inline included rfl below behind⟩
          | spread name directives =>
              cases known : Fields.get? available name with
              | none =>
                  refine ⟨nodes, included.bind ?_, .unspread included ?_ behind⟩
                  · simp only [if_true]
                    split
                    · exact answers
                    · rename_i fragment found
                      cases known.symm.trans found
                  · intro fragment found
                    cases known.symm.trans found
              | some fragment =>
                  obtain ⟨within, found, below⟩ := fragments name fragment known
                  refine ⟨within ++ nodes, included.bind ?_, .spread included known rfl below behind⟩
                  simp only [if_true]
                  split
                  · rename_i absent
                    cases known.symm.trans absent
                  · rename_i other found_other
                    obtain rfl := Option.some.inj (known.symm.trans found_other)
                    exact found.bind (answers.bind rfl)

end Lookahead

/-! ### What directives say to a gathering -/

/-- None of the directive's arguments is prepared or loads an object. -/
def Directive.Plain (schema : Schema σ) (directive : Directive) : Prop :=
  ∀ definition, schema.directive? directive.name = some definition → definition.hasHooks = false

open Engine

namespace Grouper

variable {grouper : Grouper σ} {s t : Stage σ}

/-- A look ahead is given the arguments of a directive that a gathering finds, unless one of them
has a hook. -/
theorem lookUp_foreseen (pure : grouper.job.schema.PureInclusion loads) (apart : grouper.job.Apart)
    {selection : Selection} (has : grouper.job.Has selection) {directive : Directive}
    (written : directive ∈ selection.directives) {definition : DirectiveDefinition σ}
    (known : grouper.job.schema.directive? directive.name = some definition)
    (faithful : s.Faithful grouper.job) {key : ArgumentKey} {found : Option ArgumentsResult}
    (looked : (directive.lookUp grouper.job definition grouper.identity).Gives s (key, found) t) :
    t.Faithful grouper.job ∧ ∀ result, found = some result → definition.hasHooks = false →
      (grouper.job.coercion (.directive definition.name) definition.arguments
        directive.arguments).Answers loads (.ready result) := by
  obtain ⟨made, -⟩ := Directive.consults looked
  have asks : Consultation.Asks grouper.job
      ⟨directive.inquiry definition grouper.identity, s, found, t⟩ :=
    .directive has written known grouper.identity
  refine ⟨faithful.consult made fun _ _ => asks, fun result same plain => ?_⟩
  have coerced : (grouper.job.coercion (.directive definition.name) definition.arguments
      directive.arguments).Settled loads fun coercion => ∃ own, coercion = .ready own :=
    pure.coerceArguments plain _ _
  obtain ⟨coercion, answers, own, rfl⟩ := coerced
  rw [faithful.found_eq apart made asks rfl same answers]
  exact answers

/-- What a directive says to a gathering that has its arguments, it says to a look ahead, unless it
leaves the node out and has a hook for an argument. -/
theorem answer_foreseen (pure : grouper.job.schema.PureInclusion loads) {directive : Directive}
    {definition : DirectiveDefinition σ} {keeps : Arguments → QueryContext → Action σ Bool}
    (known : grouper.job.schema.directive? directive.name = some definition)
    (found : definition.include? = some keeps) {arguments : Arguments}
    (told : definition.hasHooks = false →
      (grouper.job.coercion (.directive definition.name) definition.arguments
        directive.arguments).Answers loads (.ready (.ok arguments)))
    {kept : Bool}
    (answered : (Engine.call (keeps arguments grouper.job.query)).Gives s kept t)
    (why : kept = true ∨ directive.Plain grouper.job.schema) :
    (grouper.job.schema.admits grouper.job.query directive).Answers loads kept := by
  cases hooks : definition.hasHooks with
  | true =>
      obtain rfl : kept = true := by
        rcases why with rfl | plain
        · rfl
        · cases hooks.symm.trans (plain definition known)
      exact Schema.admits_hooked known hooks
  | false =>
      obtain ⟨own, answers, -⟩ := pure.includes _ _ known keeps found arguments grouper.job.query
      obtain ⟨same, -⟩ := Engine.gives_call.mp answered
      obtain rfl : own = kept := (answers.told s.world).symm.trans same
      refine Schema.admits_plain known found hooks (told hooks) (fun other same => ?_) fun _ wrong => ?_
      · injection same with same
        exact same ▸ answers
      · cases wrong

/-- What the directives of a node say to a gathering, a look ahead is told too: that the node counts
anyhow, and that it does not if none of the directives that are asked has a hook for an argument. -/
theorem Says.foreseen (pure : grouper.job.schema.PureInclusion loads) (apart : grouper.job.Apart)
    {selection : Selection} (has : grouper.job.Has selection) {directives : List Directive}
    {asked : List Asked} {inclusion : Inclusion}
    (heard : grouper.Says directives s asked inclusion t) :
    (∀ directive ∈ directives, directive ∈ selection.directives) → s.Faithful grouper.job →
    t.Faithful grouper.job ∧ ∀ kept,
      (kept = true ∧ inclusion = .included ∨
        kept = inclusion.counts ∧ (∀ key, inclusion ≠ .waiting key) ∧
          ∀ ask ∈ asked, ask.1.Plain grouper.job.schema) →
      (grouper.job.schema.admitsAll grouper.job.query directives).Answers loads kept := by
  induction heard with
  | included s =>
      refine fun _ faithful => ⟨faithful, fun kept why => ?_⟩
      rcases why with ⟨rfl, -⟩ | ⟨rfl, -⟩ <;> rfl
  | @other directive rest s t asked inclusion no_guard behind ih =>
      intro written faithful
      obtain ⟨faithful', told⟩ := ih (fun other mem => written other (List.mem_cons_of_mem _ mem))
        faithful
      refine ⟨faithful', fun kept why => Schema.admitsAll_kept ?_ (told kept why)⟩
      exact Schema.admits_unguarded (Directive.guard?_eq_none.mp no_guard)
  | @kept directive rest definition keeps arguments key s t u v asked inclusion guard looked answered
      behind ih =>
      intro written faithful
      obtain ⟨known, found⟩ := Directive.guard?_eq_some.mp guard
      obtain ⟨faithful', arguments_told⟩ := lookUp_foreseen pure apart has
        (written directive List.mem_cons_self) known faithful looked
      obtain ⟨-, after⟩ := gives_call.mp answered
      obtain ⟨faithful'', told⟩ := ih (fun other mem => written other (List.mem_cons_of_mem _ mem))
        (faithful'.of_bags (after ▸ rfl))
      have first := answer_foreseen pure known found (arguments_told _ rfl) answered (.inl rfl)
      refine ⟨faithful'', fun kept why => Schema.admitsAll_kept first (told kept ?_)⟩
      rcases why with why | ⟨same, complete, plain⟩
      · exact .inl why
      · exact .inr ⟨same, complete, fun ask mem => plain ask (List.mem_cons_of_mem _ mem)⟩
  | @excluded directive rest definition keeps arguments key s t u guard looked answered =>
      intro written faithful
      obtain ⟨known, found⟩ := Directive.guard?_eq_some.mp guard
      obtain ⟨faithful', arguments_told⟩ := lookUp_foreseen pure apart has
        (written directive List.mem_cons_self) known faithful looked
      obtain ⟨-, after⟩ := gives_call.mp answered
      refine ⟨faithful'.of_bags (after ▸ rfl), fun kept why => ?_⟩
      rcases why with ⟨-, wrong⟩ | ⟨rfl, -, plain⟩
      · cases wrong
      · exact Schema.admitsAll_left rest (answer_foreseen pure known found (arguments_told _ rfl)
          answered (.inr (plain _ (List.mem_singleton_self _))))
  | @failed directive rest definition keeps wrong error key s t u guard looked told =>
      intro written faithful
      obtain ⟨known, found⟩ := Directive.guard?_eq_some.mp guard
      obtain ⟨faithful', arguments_told⟩ := lookUp_foreseen pure apart has
        (written directive List.mem_cons_self) known faithful looked
      have same : SameBags u t := keeps_argumentError grouper _ _ _ _ told
      refine ⟨faithful'.of_bags same, fun kept why => ?_⟩
      rcases why with ⟨-, wrong⟩ | ⟨rfl, -, plain⟩
      · cases wrong
      · have no_hooks := plain _ (List.mem_singleton_self _) definition known
        refine Schema.admitsAll_left rest (Schema.admits_plain known found no_hooks
          (arguments_told _ rfl no_hooks) (fun other wrong => ?_) fun _ _ => rfl)
        cases wrong
  | @waiting directive rest definition keeps key s t guard looked =>
      intro written faithful
      obtain ⟨known, found⟩ := Directive.guard?_eq_some.mp guard
      obtain ⟨faithful', -⟩ := lookUp_foreseen pure apart has
        (written directive List.mem_cons_self) known faithful looked
      refine ⟨faithful', fun kept why => ?_⟩
      rcases why with ⟨-, wrong⟩ | ⟨-, complete, -⟩
      · cases wrong
      · exact absurd rfl (complete key)

/-- What is inside a node that counts, a look ahead sees at the node. -/
theorem sees_inside {available inner : Fields Fragment} {selection : Selection}
    {selections : List Selection} {keeps : List Directive → Bool → Prop} {seen : List FieldNode}
    (inside : grouper.inside? available selection = some (inner, selections))
    (counts : ¬ keeps selection.directives false)
    (gathers : Gathers keeps (fun _ => true) available [selection] seen) :
    Gathers keeps (fun _ => true) inner selections seen := by
  rcases inside_cases inside with ⟨condition, directives, rfl, -, rfl⟩ |
    ⟨name, directives, fragment, rfl, known, -, rfl, rfl⟩
  · cases gathers with
    | left no _ => exact absurd no counts
    | inline _ _ below behind =>
        cases behind
        rwa [List.append_nil]
    | missed _ missed _ => cases missed
  · cases gathers with
    | left no _ => exact absurd no counts
    | spread _ known' _ below behind =>
        cases behind
        obtain rfl := Option.some.inj (known.symm.trans known')
        rwa [List.append_nil]
    | unspread _ missed _ => cases missed fragment known

/-- A look ahead sees nothing at a fragment that a gathering passes over, if the condition that the
fragment has is satisfied. -/
theorem sees_nothing {available : Fields Fragment} {selection : Selection}
    {keeps : List Directive → Bool → Prop} {seen : List FieldNode}
    (fragment : ∀ node, selection ≠ .field node)
    (nothing : grouper.inside? available selection = none)
    (satisfied : ∀ condition, condition? available selection = some condition →
      grouper.satisfies (some condition) = true)
    (gathers : Gathers keeps (fun _ => true) available [selection] seen) : seen = [] := by
  rcases nothing_inside nothing fragment with ⟨condition, directives, within, rfl, missed⟩ |
    ⟨name, directives, rfl, missed⟩
  · cases condition with
    | none => cases missed
    | some condition => cases missed.symm.trans (satisfied condition rfl)
  · cases gathers with
    | left _ behind => cases behind; rfl
    | @spread _ _ _ found _ _ _ _ known _ below behind =>
        have met := satisfied found.condition (by simp [condition?, known])
        cases (missed found known).symm.trans met
    | unspread _ _ behind => cases behind; rfl

/-- What a gathering finds is among what a look ahead sees, in the same order. It is all of it if the
gathering has asked plain directives only, and all type conditions that it has met are satisfied. -/
theorem Walks.foreseen (pure : grouper.job.schema.PureInclusion loads) (apart : grouper.job.Apart)
    {available : Fields Fragment} {selections : List Selection} {asked : List Asked}
    {conditions : List String} {nodes : List FieldNode}
    (walks : grouper.Walks available selections s asked conditions nodes t) :
    (∀ selection ∈ selections, grouper.job.Has selection) →
    (∀ fragment ∈ available.values, fragment ∈ grouper.job.fragments.values) →
    s.Faithful grouper.job → ∀ {seen : List FieldNode},
    Gathers (fun directives kept =>
      (grouper.job.schema.admitsAll grouper.job.query directives).Answers loads kept)
      (fun _ => true) available selections seen →
    t.Faithful grouper.job ∧ nodes.Sublist seen ∧
      ((∀ ask ∈ asked, ask.1.Plain grouper.job.schema) →
        (∀ condition ∈ conditions, grouper.satisfies (some condition) = true) → seen = nodes) := by
  have behind {selection : Selection} {rest : List Selection}
      (has : ∀ other ∈ selection :: rest, grouper.job.Has other) :
      ∀ other ∈ rest, grouper.job.Has other := fun other mem =>
    has other (List.mem_cons_of_mem _ mem)
  have differ {directives : List Directive} (world : World σ)
      (yes : (grouper.job.schema.admitsAll grouper.job.query directives).Answers loads true) :
      ¬ (grouper.job.schema.admitsAll grouper.job.query directives).Answers loads false :=
    fun no => by cases (yes.told world).symm.trans (no.told world)
  induction walks with
  | nil available s =>
      intro _ _ faithful seen gathers
      cases gathers
      exact ⟨faithful, .slnil, fun _ _ => rfl⟩
  | @left available selection rest s t u asked behind_asked conditions nodes inclusion heard out
      complete after ih =>
      intro has fewer faithful seen gathers
      obtain ⟨front, back, rfl, here, rear⟩ := gathers.split
      obtain ⟨faithful_u, told⟩ := heard.foreseen pure apart (has _ List.mem_cons_self)
        (fun _ mem => mem) faithful
      obtain ⟨faithful_t, among, all⟩ := ih (behind has) fewer faithful_u rear
      refine ⟨faithful_t, among.trans (List.sublist_append_right _ _), fun plain met => ?_⟩
      -- The look ahead is told the same, so it does not see the node either.
      have no := told false (.inr ⟨out.symm, complete,
        fun ask mem => plain ask (List.mem_append_left _ mem)⟩)
      rw [all (fun ask mem => plain ask (List.mem_append_right _ mem)) met]
      cases here with
      | left _ nothing => cases nothing; rfl
      | field yes | inline yes | missed yes | spread yes | unspread yes =>
          exact absurd no (differ s.world yes)
  | @field available node rest s t u asked behind_asked conditions nodes heard after ih =>
      intro has fewer faithful seen gathers
      obtain ⟨front, back, rfl, here, rear⟩ := gathers.split
      obtain ⟨faithful_u, told⟩ := heard.foreseen pure apart (has _ List.mem_cons_self)
        (fun _ mem => mem) faithful
      obtain ⟨faithful_t, among, all⟩ := ih (behind has) fewer faithful_u rear
      -- The node counts for the look ahead too, so it sees it first.
      have yes := told true (.inl ⟨rfl, rfl⟩)
      obtain rfl : front = [node] := by
        cases here with
        | left no _ => exact absurd no (differ s.world yes)
        | field _ nothing => cases nothing; rfl
      refine ⟨faithful_t, among.cons_cons node, fun plain met => ?_⟩
      exact congrArg (node :: ·) (all (fun ask mem => plain ask (List.mem_append_right _ mem)) met)
  | @enters available inner selection rest selections s t u v asked within behind_asked conditions
      others found nodes heard inside below after ih_below ih =>
      intro has fewer faithful seen gathers
      obtain ⟨front, back, rfl, here, rear⟩ := gathers.split
      have own := has _ List.mem_cons_self
      obtain ⟨faithful_u, told⟩ := heard.foreseen pure apart own (fun _ mem => mem) faithful
      obtain ⟨has_inside, fewer_inside⟩ := has_inside own fewer inside
      -- What is inside is gathered, so the look ahead sees it at the node.
      have here := sees_inside inside (differ s.world (told true (.inl ⟨rfl, rfl⟩))) here
      obtain ⟨faithful_v, among_below, all_below⟩ := ih_below has_inside fewer_inside faithful_u here
      obtain ⟨faithful_t, among, all⟩ := ih (behind has) fewer faithful_v rear
      refine ⟨faithful_t, among_below.append among, fun plain met => ?_⟩
      simp only [List.mem_append] at plain met
      rw [all_below (fun ask mem => plain ask (.inr (.inl mem)))
          fun condition mem => met condition (.inr (.inl mem)),
        all (fun ask mem => plain ask (.inr (.inr mem)))
          fun condition mem => met condition (.inr (.inr mem))]
  | @past available selection rest s t u asked behind_asked conditions nodes heard fragment nothing
      after ih =>
      intro has fewer faithful seen gathers
      obtain ⟨front, back, rfl, here, rear⟩ := gathers.split
      obtain ⟨faithful_u, told⟩ := heard.foreseen pure apart (has _ List.mem_cons_self)
        (fun _ mem => mem) faithful
      obtain ⟨faithful_t, among, all⟩ := ih (behind has) fewer faithful_u rear
      refine ⟨faithful_t, among.trans (List.sublist_append_right _ _), fun plain met => ?_⟩
      rw [all (fun ask mem => plain ask (List.mem_append_right _ mem))
        fun condition mem => met condition (List.mem_append_right _ mem)]
      have none_seen : front = [] := sees_nothing fragment nothing
        (fun condition there => met condition (List.mem_append_left _ (by simp [there]))) here
      rw [none_seen]
      rfl

end Grouper

end GraphExec
