import GraphExec.Proofs.Pure.Bags
import GraphExec.Proofs.Run.Ways

/-!
# What a run asks for is written in its document

Steps stand for nodes of the document, and the directives that they run are written at these nodes.
Whatever the code of the application does, a run asks for the arguments of no other directives. So
the bag under the key of a directive has come of the arguments that are written there.
-/

namespace GraphExec

variable {σ : Type} {job : Job σ} {s t : Stage σ}

/-! ### Steps -/

/-- A directive of the document, with its definition. -/
structure DirectiveUse.Written (job : Job σ) (use : DirectiveUse σ) : Prop where
  written : ∃ selection, job.Has selection ∧ use.directive ∈ selection.directives
  found : job.schema.directive? use.directive.name = some use.definition

/-- The field that an object is built for. -/
def ObjectTarget.site? : ObjectTarget σ → Option (FieldSite σ)
  | root => none
  | child position => some position.site

/-- The field that a step is there for. -/
def Step.site? : Step σ → Option (FieldSite σ)
  | .object step => step.target.site?
  | .field step => some step.site
  | .item step => some step.position.site

/-- The directives that are run for a field. -/
def FieldState.cursor? : FieldState σ → Option (DirectiveCursor σ)
  | runDirectives cursor => some cursor
  | _ => none

/-- The directives that are run for an item. -/
def ItemState.cursor? : ItemState σ → Option (DirectiveCursor σ)
  | runDirectives cursor _ => some cursor
  | _ => none

/-- The directives that a step runs. -/
def Step.cursor? : Step σ → Option (DirectiveCursor σ)
  | .field step => step.state.cursor?
  | .item step => step.state.cursor?
  | .object _ => none

/-- What a step gathers from. -/
def Step.gathered : Step σ → List Selection
  | .object step => step.selections
  | _ => []

/-- Whatever a step works on is written in the document. -/
structure Step.Written (job : Job σ) (step : Step σ) : Prop where
  nodes : ∀ site, step.site? = some site → ∀ node ∈ site.group.nodes, job.Has (.field node)
  uses : ∀ cursor, step.cursor? = some cursor → ∀ use ∈ cursor.uses, use.Written job
  selections : ∀ selection ∈ step.gathered, job.Has selection

/-- The directives of nodes of the document, those that have a hook of a kind. -/
theorem DirectiveCursor.written_new {site : FieldSite σ}
    (nodes : ∀ node ∈ site.group.nodes, job.Has (.field node))
    (hook? : DirectiveDefinition σ → Option (DirectiveHook σ)) :
    ∀ use ∈ (DirectiveCursor.new job.schema hook? site.directives).uses, use.Written job := by
  intro use mem
  obtain ⟨directive, member, made⟩ := List.mem_filterMap.mp mem
  obtain ⟨definition, found, made⟩ := Option.bind_eq_some_iff.mp made
  obtain ⟨hook, -, made⟩ := Option.bind_eq_some_iff.mp made
  injection made with made
  subst made
  obtain ⟨node, there, written⟩ := List.mem_flatMap.mp member
  exact ⟨⟨.field node, nodes node there, written⟩, found⟩

/-- What is selected below nodes of the document is in the document. -/
theorem Job.has_below {nodes : List FieldNode} (has : ∀ node ∈ nodes, job.Has (.field node)) :
    ∀ selection ∈ nodes.flatMap (·.selections), job.Has selection := by
  intro selection mem
  obtain ⟨node, there, written⟩ := List.mem_flatMap.mp mem
  exact .field (has node there) written

/-- What is gathered from selections of the document are nodes of it. -/
theorem Gathers.has {keeps : List Directive → Bool → Prop} {satisfies : Option String → Bool}
    {available : Fields Fragment} {selections : List Selection} {nodes : List FieldNode}
    (gathers : Gathers keeps satisfies available selections nodes) :
    (∀ selection ∈ selections, job.Has selection) →
    (∀ fragment ∈ available.values, fragment ∈ job.fragments.values) →
    ∀ node ∈ nodes, job.Has (.field node) := by
  have behind {selection : Selection} {rest : List Selection}
      (has : ∀ other ∈ selection :: rest, job.Has other) : ∀ other ∈ rest, job.Has other :=
    fun other mem => has other (List.mem_cons_of_mem _ mem)
  induction gathers with
  | nil _ => exact fun _ _ _ mem => absurd mem List.not_mem_nil
  | left _ _ ih => exact fun has fewer => ih (behind has) fewer
  | field _ _ ih =>
      intro has fewer node mem
      rcases List.mem_cons.mp mem with rfl | mem
      · exact has _ List.mem_cons_self
      · exact ih (behind has) fewer node mem
  | inline _ _ _ _ inside ih =>
      intro has fewer node mem
      rcases List.mem_append.mp mem with mem | mem
      · exact inside (fun _ member => .inline (has _ List.mem_cons_self) member) fewer node mem
      · exact ih (behind has) fewer node mem
  | missed _ _ _ ih => exact fun has fewer => ih (behind has) fewer
  | spread _ known _ _ _ inside ih =>
      intro has fewer node mem
      rcases List.mem_append.mp mem with mem | mem
      · exact inside (fun _ member => .fragment (fewer _ (Fields.mem_values_of_get? known)) member)
          (fun _ member => fewer _ (Fields.mem_of_mem_erase member)) node mem
      · exact ih (behind has) fewer node mem
  | unspread _ _ _ ih => exact fun has fewer => ih (behind has) fewer

/-- Groups of nodes of the document are made of these. -/
theorem Groups.known_of {nodes : List FieldNode} (has : ∀ node ∈ nodes, job.Has (.field node)) :
    (Groups.of nodes).Known job := by
  have onward (nodes : List FieldNode) : ∀ groups : Groups, groups.Known job →
      (∀ node ∈ nodes, job.Has (.field node)) → (nodes.foldl Groups.add groups).Known job := by
    induction nodes with
    | nil => exact fun _ known _ => known
    | cons node rest ih =>
        exact fun groups known has => ih _ (known.add (has node List.mem_cons_self))
          fun other mem => has other (List.mem_cons_of_mem _ mem)
  exact onward nodes [] (fun _ mem => absurd mem List.not_mem_nil) has

open Engine

/-! ### Directives that are run -/

/-- The cursor that goes on. -/
def CursorProgress.next? : CursorProgress σ → Option (DirectiveCursor σ)
  | again cursor => some cursor
  | waiting cursor _ => some cursor
  | _ => none

/-- A cursor goes on with directives that it had. -/
theorem DirectiveCursor.Way.uses {cursor next : DirectiveCursor σ} {owner : Subject} {path : Path}
    {progress : CursorProgress σ} (way : cursor.Way job owner path s progress t)
    (goes : progress.next? = some next) : next.uses ⊆ cursor.uses := by
  cases way with
  | finds | asks | answers | waits | raises =>
      cases goes
      exact List.Subset.refl _
  | proceeds =>
      cases goes
      exact List.subset_cons_self _ _
  | _ => cases goes

theorem DirectiveCursor.Resumed.uses {cursor next : DirectiveCursor σ} {resumption : Resumption σ}
    (resumed : cursor.Resumed resumption next) : next.uses = cursor.uses := by
  cases resumed <;> rfl

/-- Of the directives that were run, if any were, some are left, or none. -/
def Left (before? after? : Option (DirectiveCursor σ)) : Prop :=
  ∀ after, after? = some after → ∃ before, before? = some before ∧ after.uses ⊆ before.uses

theorem left_none (before? : Option (DirectiveCursor σ)) : Left before? none := by
  intro after same
  cases same

theorem left_some {before after : DirectiveCursor σ} (fewer : after.uses ⊆ before.uses) :
    Left (some before) (some after) := by
  intro other same
  injection same with same
  exact ⟨before, rfl, same ▸ fewer⟩

variable {progress : Progress σ}

/-- A field runs directives only as long as it has some left. -/
theorem FieldStep.Way.left {step : FieldStep σ} {next : Step σ} (way : step.Way job s progress t)
    (goes : progress.next? = some next) : Left step.state.cursor? next.cursor? := by
  cases way with
  | directs state directed | awaits state directed =>
      cases goes
      rw [state]
      exact left_some (DirectiveCursor.Way.uses (DirectiveCursor.way directed) rfl)
  | skips | completes => cases goes
  | _ =>
      cases goes
      exact left_none _

/-- An item runs directives only as long as it has some left. -/
theorem ItemStep.Way.left {step : ItemStep σ} {next : Step σ} (way : step.Way job s progress t)
    (goes : progress.next? = some next) : Left step.state.cursor? next.cursor? := by
  cases way with
  | directs state directed | awaits state directed =>
      cases goes
      rw [state]
      exact left_some (DirectiveCursor.Way.uses (DirectiveCursor.way directed) rfl)
  | skips | completes => cases goes
  | _ =>
      cases goes
      exact left_none _

theorem FieldStep.Resumed.left {step next : FieldStep σ} {resumption : Resumption σ}
    (resumed : step.Resumed resumption next) : Left step.state.cursor? next.state.cursor? := by
  cases resumed with
  | directs state resumed =>
      rw [state]
      exact left_some (resumed.uses ▸ List.Subset.refl _)
  | arguments | value => exact left_none _

theorem ItemStep.Resumed.left {step next : ItemStep σ} {resumption : Resumption σ}
    (resumed : step.Resumed resumption next) : Left step.state.cursor? next.state.cursor? := by
  cases resumed with
  | directs state resumed =>
      rw [state]
      exact left_some (resumed.uses ▸ List.Subset.refl _)
  | value => exact left_none _

/-! ### Transitions -/

namespace Step

variable {step next : Step σ}

theorem advance_left (gives : (step.advance job).Gives s progress t)
    (goes : progress.next? = some next) : Left step.cursor? next.cursor? := by
  cases Step.way gives with
  | dropped => cases goes
  | field _ way => exact way.left goes
  | item _ way => exact way.left goes
  | @object step =>
      rcases advance_cases gives with ⟨-, rfl, -⟩ | ⟨-, moves⟩
      · cases goes
      · cases moves with
        | passes goes' stays =>
            obtain rfl := Option.some.inj (goes.symm.trans goes')
            cases stays with
            | object | root => exact left_none _
        | allocates =>
            cases goes
            exact left_none _
        | _ => cases goes

theorem resume_left {resumption : Resumption σ} (resumes : step.resume resumption = .ok next) :
    Left step.cursor? next.cursor? := by
  cases Step.resumed resumes with
  | object => exact left_none _
  | field resumed => exact resumed.left
  | item resumed => exact resumed.left

theorem Stays.site (stays : step.Stays job next) : next.site? = step.site? := by
  cases stays <;> rfl

theorem Stays.gathered (stays : step.Stays job next) : next.gathered = step.gathered := by
  cases stays <;> rfl

/-- A step that goes on works on what it has worked on. -/
theorem Stays.written (stays : step.Stays job next) (left : Left step.cursor? next.cursor?)
    (written : step.Written job) : next.Written job where
  nodes site here := written.nodes site (stays.site ▸ here)
  uses cursor here use mem := by
    obtain ⟨before, there, fewer⟩ := left cursor here
    exact written.uses before there use (fewer mem)
  selections selection mem := written.selections selection (stays.gathered ▸ mem)

/-- The steps of a completed position work on what its step has worked on. -/
theorem written_finishes {position : Position σ} {value : ResolvedValue σ} {u : Stage σ}
    {outcome : Outcome σ} {draft : Draft}
    (nodes : ∀ node ∈ position.site.group.nodes, job.Has (.field node))
    (completes : position.Completes job u value outcome) :
    ∀ next ∈ outcome.steps position draft, next.Written job := by
  have site (other : FieldSite σ) (same : some position.site = some other) :
      ∀ node ∈ other.group.nodes, job.Has (.field node) := by
    injection same with same
    exact same ▸ nodes
  intro next mem
  cases completes with
  | items _ _ _ =>
      obtain ⟨n, bound, rfl⟩ := (position.mem_itemSteps _ 0).mp mem
      refine ⟨site, fun cursor same => ?_, fun _ mem => absurd mem List.not_mem_nil⟩
      injection same with same
      exact same ▸ DirectiveCursor.written_new nodes _
  | object _ _ _ _ _ _ _ =>
      obtain rfl := List.mem_singleton.mp mem
      refine ⟨site, fun cursor same => ?_, Job.has_below nodes⟩
      cases same
  | _ => cases mem

/-- The fields that are launched for an object are selected by nodes of the document. -/
theorem written_launched {step : ObjectStep σ} {type : ObjectType σ} {node : NodeId}
    {groups : Groups} {below : List (Task σ)} (known : groups.Known job)
    (launched : step.Launched job type node groups below) :
    ∀ next ∈ below.filterMap Task.step?, next.Written job := by
  intro next mem
  obtain ⟨task, there, found⟩ := List.mem_filterMap.mp mem
  obtain ⟨entry, member, made⟩ := (ObjectStep.launched_iff launched).2 task there
  rcases ObjectStep.launched?_eq made with ⟨-, rfl⟩ | ⟨-, field, -, rfl⟩
  · cases found
  · obtain rfl := Option.some.inj found
    refine ⟨fun site same => ?_, fun cursor same => ?_, fun _ mem => absurd mem List.not_mem_nil⟩
    · injection same with same
      exact same ▸ known entry member
    · injection same with same
      exact same ▸ DirectiveCursor.written_new (known entry member) _

theorem Due.nodes {position : Position σ} {value : ResolvedValue σ}
    (due : step.Due job s position value t) (written : step.Written job) :
    ∀ node ∈ position.site.group.nodes, job.Has (.field node) := by
  cases due with
  | field _ _ => exact written.nodes _ rfl
  | item _ => exact written.nodes _ rfl
  | object target _ => exact written.nodes _ (congrArg ObjectTarget.site? target)

/-- The transition of a step may leave another one to be done besides: an item or an object of a
position that it completes, or a field that it gathers. -/
inductive Begets (job : Job σ) : Step σ → Step σ → Prop
  | completes {step new : Step σ} {s u : Stage σ} {position : Position σ}
      {value : ResolvedValue σ} {outcome : Outcome σ} {draft : Draft}
      (due : step.Due job s position value u) (completes : position.Completes job u value outcome)
      (mem : new ∈ outcome.steps position draft) : Begets job step new
  | collects {step : ObjectStep σ} {new : Step σ} {type : ObjectType σ} {node : NodeId}
      {keeps : List Directive → Bool → Prop} {satisfies : Option String → Bool}
      {nodes : List FieldNode} {launched : List (Task σ)} (state : step.state = .collect type node)
      (gathers : Gathers keeps satisfies job.fragments step.selections nodes)
      (launches : step.Launched job type node (Groups.of nodes) launched)
      (mem : new ∈ launched.filterMap Task.step?) : Begets job (.object step) new

theorem advance_begets (gives : (step.advance job).Gives s progress t) :
    ∃ steps, (t.run.ready ++ t.run.held).Perm (steps ++ (s.run.ready ++ s.run.held)) ∧
      ∀ new ∈ steps, step.Begets job new := by
  have none_new {u : Stage σ} {draft : Draft} (same : SameTree s u) (enters : Enters u t draft []) :
      ∃ steps, (t.run.ready ++ t.run.held).Perm (steps ++ (s.run.ready ++ s.run.held)) ∧
        ∀ new ∈ steps, step.Begets job new :=
    ⟨[], (Leaves.after_same same (.of_enters enters)).steps_perm,
      fun _ mem => absurd mem List.not_mem_nil⟩
  rcases step.advance_cases gives with ⟨-, -, rfl⟩ | ⟨-, moves⟩
  · exact ⟨[], .refl _, fun _ mem => absurd mem List.not_mem_nil⟩
  cases moves with
  | passes _ _ same => exact none_new same (.of_same (.refl t))
  | completes due same finishes =>
      obtain ⟨outcome, completes, enters⟩ := finishes
      exact ⟨_, (Leaves.after_same same (.of_enters enters)).steps_perm,
        fun new mem => .completes due completes mem⟩
  | skips _ same enters => exact none_new same enters
  | allocates _ _ enters => exact none_new (.refl s) enters
  | collects state grouped same launched leaves =>
      have any (grouper : Grouper σ) (directives : List Directive) (s : Stage σ)
          (inclusion : Inclusion) (t : Stage σ) : True →
          (grouper.inclusion directives).Gives s inclusion t → True := fun _ _ => trivial
      obtain ⟨nodes, gathers, groups⟩ := Grouper.group_gathers (any _) trivial grouped
      exact ⟨_, (Leaves.after_same same leaves).steps_perm,
        fun new mem => .collects state gathers (groups ▸ launched) mem⟩
  | fails _ _ _ enters => exact none_new (.refl s) enters

theorem Begets.written {new : Step σ} (begets : step.Begets job new) (written : step.Written job) :
    new.Written job := by
  cases begets with
  | completes due completes mem =>
      exact written_finishes (due.nodes written) completes new mem
  | collects state gathers launches mem =>
      exact written_launched (Groups.known_of
        (gathers.has written.selections fun _ known => known)) launches new mem

/-- A transition leaves steps that work on what is written in the document. -/
theorem advance_written (gives : (step.advance job).Gives s progress t)
    (written : step.Written job) :
    (∀ next, progress.next? = some next → next.Written job) ∧
      ∃ steps, (t.run.ready ++ t.run.held).Perm (steps ++ (s.run.ready ++ s.run.held)) ∧
        ∀ next ∈ steps, next.Written job := by
  obtain ⟨steps, added, begets⟩ := advance_begets gives
  refine ⟨fun next goes => ?_, steps, added, fun next mem => (begets next mem).written written⟩
  rcases step.advance_cases gives with ⟨-, rfl, -⟩ | ⟨-, moves⟩
  · cases goes
  cases moves with
  | passes goes' stays same =>
      obtain rfl := Option.some.inj (goes'.symm.trans goes)
      exact stays.written (advance_left gives goes') written
  | allocates state target enters =>
      injection goes with goes
      subst goes
      refine ⟨written.nodes, fun cursor same => ?_, written.selections⟩
      cases same
  | _ => cases goes

end Step

/-! ### Inquiries -/

/-- If it is for the arguments of a directive, a consultation is for what is written in the
document. -/
def Consultation.Written (job : Job σ) (c : Consultation σ) : Prop :=
  ∀ name, c.inquiry.owner = .directive name → c.Asks job

theorem DirectiveUse.Written.asks {use : DirectiveUse σ} (written : use.Written job)
    {parent : Identity} {c : Consultation σ}
    (asks : use.directive.inquiry use.definition parent = c.inquiry) : c.Asks job := by
  obtain ⟨selection, has, there⟩ := written.written
  unfold Consultation.Asks
  rw [← asks]
  exact .directive has there written.found parent

theorem DirectiveCursor.asks_written {cursor : DirectiveCursor σ} {owner : Subject}
    {c : Consultation σ} (written : ∀ use ∈ cursor.uses, use.Written job)
    (asks : cursor.inquiry? owner = some c.inquiry) : c.Asks job := by
  unfold inquiry? at asks
  split at asks
  · rename_i use rest uses stage
    injection asks with asks
    exact (written use (uses ▸ List.mem_cons_self)).asks asks
  · cases asks

namespace Step

variable {step : Step σ}

theorem Written.asks (written : step.Written job) {c : Consultation σ}
    (asks : step.inquiry? = some c.inquiry) : c.Written job := by
  intro name owner
  cases step with
  | object step => cases asks
  | field step =>
      obtain ⟨parent, key, site, state⟩ := step
      cases state with
      | runDirectives cursor => exact DirectiveCursor.asks_written (written.uses cursor rfl) asks
      | loadArguments =>
          simp only [inquiry?] at asks
          split at asks
          · cases asks
          · injection asks with asks
            rw [← asks] at owner
            cases owner
      | _ => cases asks
  | item step =>
      obtain ⟨position, state⟩ := step
      cases state with
      | runDirectives cursor value =>
          exact DirectiveCursor.asks_written (written.uses cursor rfl) asks
      | _ => cases asks

theorem Consults.written {cs : List (Consultation σ)} (consults : step.Consults job s cs progress t)
    (written : step.Written job) : ∀ c ∈ cs, c.Written job := by
  cases consults with
  | quiet _ _ _ => exact fun _ mem => absurd mem List.not_mem_nil
  | found _ asks _ _ _ => exact fun c mem => List.mem_singleton.mp mem ▸ written.asks asks
  | waits _ asks _ _ _ => exact fun c mem => List.mem_singleton.mp mem ▸ written.asks asks
  | gathered _ _ consults _ =>
      exact fun c mem _ _ => consults.asks written.selections c mem
  | stopped _ _ consults _ =>
      exact fun c mem _ _ => consults.asks written.selections c mem

end Step

/-! ### Runs -/

namespace Weave

/-- All steps of a run work on what is written in the document. -/
structure Written (job : Job σ) (weave : Weave σ) : Prop where
  ready : ∀ step ∈ weave.run.ready ++ weave.run.held, step.Written job
  asleep : ∀ entry ∈ weave.asleep, entry.1.Written job
  called : ∀ entry ∈ weave.called, entry.1.Written job

variable {seen : Sight σ → Prop} {first last : Weave σ}

/-- Whatever becomes of steps that work on what is written works on what is written. -/
theorem closed_written : Closed job (Step.Written job) (Step.Written job) where
  again written gives := (Step.advance_written gives written).1 _ rfl
  parked written gives := (Step.advance_written gives written).1 _ rfl
  left written gives := (Step.advance_written gives written).2
  resume written resumes :=
    have stays : Step.Stays job _ _ := Step.resume_stays resumes
    stays.written (Step.resume_left resumes) written

/-- Every move leaves a run to what is written in its document. -/
theorem Move.written {sight : Sight σ} (move : Move job first sight last)
    (written : first.Written job) :
    last.Written job ∧ ∀ step s, sight = .advanced step s → step.Written job := by
  obtain ⟨all, own⟩ := move.all closed_written ⟨written.ready, written.asleep, written.called⟩
  exact ⟨⟨all.ready, all.asleep, all.called⟩, own⟩

/-- A run that has not been begun is about the selections of its operation. -/
theorem written_start (job : Job σ) (type : ObjectType σ) (world : World σ) :
    (start job type world).Written job := by
  have step (subject : Subject) : (Step.object (.root job type subject)).Written job := by
    refine ⟨fun site same => ?_, fun cursor same => ?_, fun _ mem => .operation mem⟩
    · cases same
    · cases same
  have all : (start job type world).All (Step.Written job) (Step.Written job) := all_start step
  exact ⟨all.ready, all.asleep, all.called⟩

/-- Whatever a run asks for directives is written in its document. -/
theorem Consults.written {events : List (BagEvent σ)} (consults : Consults job seen first events last)
    (written : first.Written job) :
    last.Written job ∧ ∀ c ∈ consultations events, c.Written job := by
  induction consults with
  | refl => exact ⟨written, fun _ mem => absurd mem List.not_mem_nil⟩
  | @advance events second step ready cs progress s before picked allowed advanced consults ih =>
      obtain ⟨own, asks⟩ := ih
      obtain ⟨after, sight⟩ := (Move.advance picked advanced).written own
      refine ⟨after, fun c mem => ?_⟩
      rw [consultations_append] at mem
      rcases List.mem_append.mp mem with mem | mem
      · exact asks c mem
      · exact consults.written (sight _ _ rfl) c mem
  | @answer events second step key result others s before picked allowed polled ih =>
      obtain ⟨own, asks⟩ := ih
      refine ⟨((Move.answer picked polled).written own).1, fun c mem => asks c ?_⟩
      rw [consultations_append] at mem
      simpa [BagEvent.consultations] using mem
  | aside before allowed move other unanswered ih =>
      obtain ⟨own, asks⟩ := ih
      exact ⟨(move.written own).1, asks⟩

end Weave

/-! ### What is known of the bags of a run -/

/-- All bags of the arguments of directives come of what is written in the document. -/
def Stage.Faithful (job : Job σ) (s : Stage σ) : Prop :=
  ∃ cs given, Sharing job cs given s.run.arguments ∧ ∀ c ∈ cs, c.Written job

/-- A stage of a run of the job, in whatever order its moves are made and whatever surrounds it, at
which a step goes on. -/
def Job.Reaches (job : Job σ) (s : Stage σ) : Prop :=
  ∃ type world seen weave step last, job.schema.rootType? job.operation.kind = some type ∧
    Weave.Path job seen (.start job type world) weave ∧
    Weave.Move job weave (.advanced step s) last

/-- All bags of a run come of what is written in its document. -/
theorem Job.Reaches.faithful (reaches : job.Reaches s) : s.Faithful job := by
  obtain ⟨type, world, seen, weave, step, last, -, path, move⟩ := reaches
  obtain ⟨events, consults⟩ := path.consults
  have none_yet : (Weave.start job type world).run.arguments = [] := by
    unfold Weave.start Run.start
    split
    rfl
  have sharing := consults.sharing none_yet
  have written := (consults.written (Weave.written_start job type world)).2
  cases move with
  | advance picked advanced => exact ⟨_, _, sharing, written⟩

namespace Stage.Faithful

variable {c : Consultation σ}

theorem of_bags (faithful : s.Faithful job) (same : SameBags s t) : t.Faithful job := by
  obtain ⟨cs, given, sharing, written⟩ := faithful
  exact ⟨cs, given, (same : t.run.arguments = _) ▸ sharing, written⟩

/-- A consultation for what is written in the document leaves bags that are. -/
theorem consult (faithful : c.before.Faithful job) (made : c.Made job) (written : c.Written job) :
    c.after.Faithful job := by
  obtain ⟨cs, given, sharing, each⟩ := faithful
  refine ⟨_, _, sharing.consult rfl made, fun other mem => ?_⟩
  rcases List.mem_append.mp mem with mem | mem
  · exact each other mem
  · exact List.mem_singleton.mp mem ▸ written

/-- If the arguments of a directive are coerced to one result at once, this is what is found under
their key. -/
theorem found_eq (apart : job.Apart) (faithful : c.before.Faithful job) (made : c.Made job)
    (asks : c.Asks job) {name : String} (owner : c.inquiry.owner = .directive name)
    {result : ArgumentsResult} (found : c.found = some result) {loads : Loads}
    {own : ArgumentsResult} (coerced : (c.inquiry.coercion job).Answers loads (.ready own)) :
    result = own := by
  obtain ⟨cs, given, sharing, each⟩ := faithful
  have shares := sharing.consult rfl made
  have gave : (c.inquiry.key, result) ∈ given ++ c.given?.toList := by
    unfold Consultation.given?
    rw [found]
    exact List.mem_append_right _ (List.mem_singleton_self _)
  -- The bag has come of an inquiry under the same key, which is for the same arguments.
  obtain ⟨first, mem, same, -, became⟩ := shares.begun _ _ (shares.same _ _ gave)
  have first_asks : first.Asks job := by
    rcases List.mem_append.mp mem with mem | mem
    · exact each first mem name ((Inquiry.key_eq same).2.1.trans owner)
    · exact List.mem_singleton.mp mem ▸ asks
  have alike : first.inquiry.coercion job = c.inquiry.coercion job :=
    apart.asks (same ▸ first_asks) asks
  have begun : first.bag job = .ready own := by
    unfold Consultation.bag
    rw [alike, coerced.told]
    rfl
  rw [begun] at became
  injection became.of_ready

end Stage.Faithful

end GraphExec
