import GraphExec.Proofs.Lookahead.Foresight
import GraphExec.Proofs.Pure.Requests
import GraphExec.Proofs.Run.Flattening

/-!
# Looking ahead misses nothing

A look ahead goes through selections without knowing the objects that they will be gathered for, and
asks directives on its own. Whatever a run can gather below the nodes of a field, for objects of
whatever types, level by level, is seen by the view of the field, by the view that it has of what is
below, and so on. One level below, a look ahead names just what is gathered if nothing depends on the
object.
-/

namespace GraphExec

variable {σ : Type} {loads : Loads}

/-- At a stage of a run of the job at which a step goes on, the selections of nodes are gathered for
an object of some type, and make groups. -/
def Job.CanGather (job : Job σ) (nodes : List FieldNode) (groups : Groups) : Prop :=
  ∃ typeName identity path s grouping t, job.Reaches s ∧
    (Grouper.group ⟨job, typeName, identity, path⟩ (nodes.flatMap (·.selections))).Gives s
      (.complete grouping) t ∧ groups = grouping.groups

/-- Groups that can be gathered below nodes, each below the nodes of the one before it, all nodes of
each for the field of a name. -/
inductive Job.Descends (job : Job σ) : List FieldNode → List (String × FieldGroup) → Prop
  | stop (nodes : List FieldNode) : Descends job nodes []
  | deeper {nodes : List FieldNode} {groups : Groups} {key name : String} {group : FieldGroup}
      {rest : List (String × FieldGroup)} (gathered : job.CanGather nodes groups)
      (member : (key, group) ∈ groups) (named : ∀ node ∈ group.nodes, node.name = name)
      (onward : Descends job group.nodes rest) : Descends job nodes ((name, group) :: rest)

/-- The view of nodes that is given to a resolver. -/
def Job.view (job : Job σ) (nodes : List FieldNode) : Lookahead σ :=
  .of job.schema job.fragments job.query nodes

namespace Lookahead

/-- A view sees groups of nodes, each below the one before it, under the names of their fields. -/
def Foresees : Lookahead σ → List (String × FieldGroup) → Prop
  | _, [] => True
  | view, (name, group) :: rest => ∀ world : World σ,
    name ∈ (view.selectionNames.run world).1 ∧ ((view.selects name).run world).1 = true ∧
      ((view.selection name).run world).1.isPresent = true ∧
      group.nodes ⊆ ((view.selection name).run world).1.nodes ∧
      ((view.selection name).run world).1.Foresees rest

variable {view : Lookahead σ} {below : List FieldNode}

/-- The names of field nodes, each once, in the order of their first nodes. -/
theorem names_eq (below : List FieldNode) :
    below.foldl (fun names node => addName names node.name) [] =
      (below.map (·.name)).eraseDups := by
  have onward (below : List FieldNode) : ∀ front : List String,
      below.foldl (fun names node => addName names node.name) front.eraseDups =
        (front ++ below.map (·.name)).eraseDups := by
    induction below with
    | nil => exact fun front => by simp
    | cons node rest ih =>
        intro front
        rw [List.foldl_cons, addName_eraseDups, ih]
        simp
  exact onward below []

section Answers

variable (answers : view.children.Answers loads below)

include answers

theorem selection_answers (name : String) :
    (view.selection name).Answers loads
      { view with nodes := below.filter fun node => node.name = name } :=
  Action.Answers.bind answers rfl

theorem selects_answers (name : String) :
    (view.selects name).Answers loads
      (isPresent { view with nodes := below.filter fun node => node.name = name }) :=
  Action.Answers.bind (selection_answers answers name) rfl

theorem selectionNames_answers :
    view.selectionNames.Answers loads (below.map (·.name)).eraseDups :=
  Action.Answers.bind answers (names_eq below)

end Answers

end Lookahead

/-! ### Views of a run -/

namespace Job

variable {job : Job σ} (pure : job.schema.PureInclusion loads) (apart : job.Apart)

include pure

/-- A view of nodes sees one level below what is below each of them. -/
theorem view_children (nodes : List FieldNode) :
    ∃ seen, (job.view nodes).children.Answers loads seen ∧
      (job.view nodes).Sees loads job.fragments (nodes.flatMap (·.selections)) seen :=
  (job.view nodes).fieldsWithin_answers (pure.admitsAll job.query) _ _

include apart

/-- Whatever is gathered below nodes is seen by a view of these and others. -/
theorem CanGather.seen {nodes viewed : List FieldNode} {groups : Groups}
    (gathered : job.CanGather nodes groups) (has : ∀ node ∈ nodes, job.Has (.field node))
    (among : nodes ⊆ viewed) {below : List FieldNode}
    (sees : (job.view viewed).Sees loads job.fragments (viewed.flatMap (·.selections)) below) :
    ∀ key group, (key, group) ∈ groups →
      group.nodes ⊆ below ∧ ∀ node ∈ group.nodes, job.Has (.field node) := by
  obtain ⟨typeName, identity, path, s, grouping, t, reaches, grouped, rfl⟩ := gathered
  obtain ⟨asked, conditions, found, walks, groups⟩ := Grouper.walks_of_group grouped
  obtain ⟨seen, -, own⟩ := job.view_children pure nodes
  obtain ⟨-, sublist, -⟩ := walks.foreseen pure apart (has_below has) (fun _ known => known)
    reaches.faithful own
  have wider : seen ⊆ below := by
    refine Gathers.subset (fun directives a b told told' => ?_) own sees fun selection mem => ?_
    · exact (told.told s.world).symm.trans (told'.told s.world)
    · obtain ⟨node, there, written⟩ := List.mem_flatMap.mp mem
      exact List.mem_flatMap.mpr ⟨node, among there, written⟩
  intro key group member
  rw [groups] at member
  have subset : group.nodes ⊆ seen := fun node mem =>
    sublist.subset (Groups.nodes_subset member mem)
  exact ⟨fun node mem => wider (subset mem), fun node mem =>
    own.has (has_below has) (fun _ known => known) node (subset mem)⟩

/-- A view sees whatever can be gathered below its nodes, level by level. -/
theorem Descends.foreseen {nodes : List FieldNode} {chain : List (String × FieldGroup)}
    (descends : job.Descends nodes chain) :
    (∀ node ∈ nodes, job.Has (.field node)) → ∀ viewed, nodes ⊆ viewed →
      (job.view viewed).Foresees chain := by
  induction descends with
  | stop nodes => exact fun _ _ _ => trivial
  | @deeper nodes groups key name group rest gathered member named onward ih =>
      intro has viewed among world
      obtain ⟨below, answers, sees⟩ := job.view_children pure viewed
      obtain ⟨subset, has_group⟩ := gathered.seen pure apart has among sees key group member
      have first : group.first ∈ below := subset List.mem_cons_self
      have same : group.first.name = name := named _ List.mem_cons_self
      have viewed_group : group.nodes ⊆ below.filter fun node => node.name = name := fun node mem =>
        List.mem_filter.mpr ⟨subset mem, by simpa using named node mem⟩
      have names := (Lookahead.selectionNames_answers answers).told world
      have selects := (Lookahead.selects_answers answers name).told world
      have selection := (Lookahead.selection_answers answers name).told world
      have present : (below.filter fun node => node.name = name) ≠ [] :=
        List.ne_nil_of_mem (viewed_group List.mem_cons_self)
      refine ⟨?_, ?_, ?_⟩
      · rw [names, List.mem_eraseDups]
        exact List.mem_map.mpr ⟨_, first, same⟩
      · rw [selects]
        simpa [Lookahead.isPresent] using present
      · rw [selection]
        exact ⟨by simpa [Lookahead.isPresent] using present, viewed_group,
          ih has_group _ viewed_group⟩

/-- If nothing depends on the object, a view names just what is gathered below its nodes. -/
theorem view_exact {nodes found : List FieldNode} {grouper : Grouper σ} (own : grouper.job = job)
    {s t : Stage σ} {asked : List Asked} {conditions : List String}
    (walks : grouper.Walks job.fragments (nodes.flatMap (·.selections)) s asked conditions found t)
    (has : ∀ node ∈ nodes, job.Has (.field node)) (faithful : s.Faithful job)
    (plain : ∀ ask ∈ asked, ask.1.Plain job.schema)
    (met : ∀ condition ∈ conditions, grouper.satisfies (some condition) = true) :
    (job.view nodes).selectionNames.Answers loads (found.map (·.name)).eraseDups := by
  subst own
  obtain ⟨below, answers, sees⟩ := grouper.job.view_children pure nodes
  obtain ⟨-, -, all⟩ := walks.foreseen pure apart (has_below has) (fun _ known => known) faithful sees
  exact all plain met ▸ Lookahead.selectionNames_answers answers

end Job

namespace Schema

variable {schema : Schema σ}

/-- If the predicates of directives are pure, a view of the nodes of a field sees whatever a run can
gather below them for objects of some types, level by level: it has the name, the field is selected,
and the view below it has the gathered nodes. One level below, it has just the names of the nodes
that are gathered, in their order and each once, if all type conditions that were met let the object
in, and no directive that was asked has a hook for an argument. -/
theorem lookahead_foresees (pure : schema.PureInclusion loads) (requests : List Request)
    (apart : ∀ request ∈ requests, request.document.Apart) (world : World σ) (i : Nat)
    (job : Job σ) (place : (schema.prepared requests world).1[i]? = some (.ok job))
    (nodes : List FieldNode) (has : ∀ node ∈ nodes, job.Has (.field node)) :
    (∀ chain, job.Descends nodes chain → (job.view nodes).Foresees chain) ∧
    ∀ typeName identity path s grouping t, job.Reaches s →
      (Grouper.group ⟨job, typeName, identity, path⟩ (nodes.flatMap (·.selections))).Gives s
        (.complete grouping) t →
      ∃ asked conditions found,
        Grouper.Walks ⟨job, typeName, identity, path⟩ job.fragments
          (nodes.flatMap (·.selections)) s asked conditions found t ∧
        grouping.groups = Groups.of found ∧
        ((∀ ask ∈ asked, ask.1.Plain schema) →
          (∀ condition ∈ conditions, schema.isPossibleType condition typeName = true) →
          ∀ world, ((job.view nodes).selectionNames.run world).1 =
            (found.map (·.name)).eraseDups) := by
  obtain ⟨request, member, of_request⟩ := job_of_prepared place
  have same : job.schema = schema := of_request.same
  subst same
  have job_apart := (apart request (List.mem_of_getElem? member)).job of_request
  refine ⟨fun chain descends => descends.foreseen pure job_apart has nodes fun _ mem => mem, ?_⟩
  intro typeName identity path s grouping t reaches grouped
  obtain ⟨asked, conditions, found, walks, groups⟩ := Grouper.walks_of_group grouped
  exact ⟨asked, conditions, found, walks, groups, fun plain met world =>
    (Job.view_exact pure job_apart rfl walks has reaches.faithful plain met).told world⟩

/-- A schema with a type of books, and the directive that includes by a condition. -/
def library : Schema Unit :=
  { types :=
      [("Boolean", .scalar (Scalar.ofFunctions "Boolean" Scalar.boolean Scalar.boolean)),
        ("Query", .object { name := "Query" }), ("Book", .object { name := "Book" })]
    queryType := "Query"
    mutationType? := none
    subscriptionType? := none
    directives := [("include", .conditional "include" fun b => b)]
    possible := [("Book", ["Book"])]
    hooks := {} }

def titleNode : FieldNode :=
  ⟨none, "title", [], [], [], ⟨1, 42⟩, 41⟩

def bookNode : FieldNode :=
  ⟨none, "book", [], [],
    [.inline (some "Book") [⟨"include", [("if", .bool true)], ⟨1, 22⟩, 21⟩] [.field titleNode]],
    ⟨1, 3⟩, 2⟩

/-- The operation `{ book { ... on Book @include(if: true) { title } } }`. -/
def libraryOperation : Operation where
  name? := none
  kind := .query
  definitions := []
  selections := [.field bookNode]
  location := ⟨1, 1⟩

def libraryRequest : Request :=
  { document := ⟨.single libraryOperation, []⟩ }

def libraryJob : Job Unit :=
  { schema := library
    operation := libraryOperation
    fragments := []
    query := { bindings := [], operationName? := none, data? := none }
    root := .data .null }

theorem libraryRequest_apart : libraryRequest.document.Apart := by
  have title : Spans 22 [.field titleNode] 50 :=
    .cons (.cons (by decide) (Nat.lt_succ_self 41) (.nil le_rfl)) (.nil le_rfl) (.nil (by decide))
  have condition : Spans 3 bookNode.selections 50 :=
    .cons (.cons (by decide) (Nat.lt_succ_self 21) (.nil le_rfl)) title (.nil le_rfl)
  have outer : Spans 0 libraryOperation.selections 50 :=
    .cons (.cons (Nat.zero_le _) (Nat.lt_succ_self 2) (.nil le_rfl)) condition (.nil le_rfl)
  have spans : Spans 0 ([Definition.operation libraryOperation].map Definition.asOne) 50 :=
    .cons (.nil le_rfl) outer (.nil le_rfl)
  exact Document.apart_of_spans spans rfl

theorem directive_of_library {name : String} {definition : DirectiveDefinition Unit}
    (known : library.directive? name = some definition) :
    definition = .conditional "include" fun b => b := by
  rcases Fields.mem_of_get? known with _ | ⟨_, none⟩
  · rfl
  · cases none

theorem library_pure : library.PureInclusion loads where
  includes name definition known keeps found arguments query := by
    obtain rfl := directive_of_library known
    obtain rfl := Option.some.inj found
    exact ⟨_, rfl, trivial⟩
  scalars name t known value := by
    rcases Fields.mem_of_get? known with _ | ⟨_, _ | ⟨_, _ | ⟨_, none⟩⟩⟩
    · exact ⟨_, rfl, trivial⟩
    · cases none

theorem libraryJob_prepared :
    (library.prepared [libraryRequest] ⟨(), fun _ state => state, []⟩).1[0]? =
      some (.ok libraryJob) := by
  rfl

/-- The run in which the query is begun. -/
def libraryWeave : Weave Unit :=
  .start libraryJob { name := "Query" } ⟨(), fun _ state => state, []⟩

/-- The stage at which its first step goes on. -/
def libraryStage : Stage Unit :=
  ⟨{ libraryWeave.run with ready := [] }, libraryWeave.world⟩

theorem reaches_libraryStage : libraryJob.Reaches libraryStage := by
  have fine : (((Step.object (.root libraryJob { name := "Query" }
      ⟨libraryJob.root, .data 0⟩)).advance libraryJob).runAt libraryStage).1.toBool = true := by cbv
  cases ran : ((Step.object (.root libraryJob { name := "Query" }
      ⟨libraryJob.root, .data 0⟩)).advance libraryJob).runAt libraryStage with
  | mk answer after =>
      rw [ran] at fine
      cases answer with
      | error error => cases fine
      | ok progress =>
          exact ⟨_, _, fun _ => True, libraryWeave, _, _, rfl, .refl _, .advance (.refl _) ran⟩

theorem library_gathered : ∃ t,
    (Grouper.group ⟨libraryJob, "Book", .data 0, []⟩ ([bookNode].flatMap (·.selections))).Gives
      libraryStage (.complete ⟨[("title", ⟨titleNode, []⟩)], []⟩) t := by
  refine ⟨_, Prod.ext ?_ rfl⟩
  cbv

/-- Below the book, a gathering meets one type condition at most, and finds one field node at
most. -/
theorem library_walks {grouper : Grouper Unit} {s t : Stage Unit} {asked : List Asked}
    {conditions : List String} {found : List FieldNode}
    (walks : grouper.Walks [] ([bookNode].flatMap (·.selections)) s asked conditions found t) :
    (∀ condition ∈ conditions, condition = "Book") ∧ (found = [] ∨ found = [titleNode]) := by
  have inner {u v : Stage Unit} {asked : List Asked} {conditions : List String}
      {found : List FieldNode}
      (walks : grouper.Walks [] [.field titleNode] u asked conditions found v) :
      conditions = [] ∧ (found = [] ∨ found = [titleNode]) := by
    cases walks with
    | left _ _ _ after => cases after; exact ⟨rfl, .inl rfl⟩
    | field _ after => cases after; exact ⟨rfl, .inr rfl⟩
    | enters _ inside _ _ => cases inside
    | past _ fragment _ _ => exact absurd rfl (fragment titleNode)
  cases walks with
  | left _ _ _ after => cases after; exact ⟨fun _ mem => absurd mem List.not_mem_nil, .inl rfl⟩
  | enters _ inside below after =>
      rcases Grouper.inside_cases inside with ⟨_, _, same, -, rfl⟩ | ⟨_, _, _, same, -⟩
      · injection same with _ _ same
        subst same
        cases after
        obtain ⟨rfl, found⟩ := inner below
        exact ⟨fun condition mem => List.mem_singleton.mp mem, by simpa using found⟩
      · cases same
  | past _ _ _ after =>
      cases after
      exact ⟨fun condition mem => List.mem_singleton.mp mem, .inl rfl⟩

/-- The title is seen below the book, and nothing else. -/
theorem lookahead_foresees_library :
    (library.prepared [libraryRequest] ⟨(), fun _ state => state, []⟩).1[0]? =
        some (.ok libraryJob) ∧
      libraryJob.Descends [bookNode] [("title", ⟨titleNode, []⟩)] ∧
      (libraryJob.view [bookNode]).Foresees [("title", ⟨titleNode, []⟩)] ∧
      libraryJob.Reaches libraryStage ∧
      ∀ world, ((libraryJob.view [bookNode]).selectionNames.run world).1 = ["title"] := by
  have apart : ∀ request ∈ [libraryRequest], request.document.Apart := by
    intro request mem
    obtain rfl := List.mem_singleton.mp mem
    exact libraryRequest_apart
  have has : ∀ node ∈ [bookNode], libraryJob.Has (.field node) := by
    intro node mem
    obtain rfl := List.mem_singleton.mp mem
    exact .operation List.mem_cons_self
  obtain ⟨t, grouped⟩ := library_gathered
  have descends : libraryJob.Descends [bookNode] [("title", ⟨titleNode, []⟩)] := by
    have member : ("title", ⟨titleNode, []⟩) ∈ ([("title", ⟨titleNode, []⟩)] : Groups) :=
      List.mem_cons_self
    refine .deeper ⟨_, _, _, _, _, _, reaches_libraryStage, grouped, rfl⟩ member
      (fun node mem => ?_) (.stop _)
    rw [List.mem_singleton.mp mem]
    rfl
  have pure : library.PureInclusion fun _ _ => .null := library_pure
  obtain ⟨seen, exactly⟩ := lookahead_foresees pure [libraryRequest] apart
    ⟨(), fun _ state => state, []⟩ 0 libraryJob libraryJob_prepared [bookNode] has
  obtain ⟨asked, conditions, found, walks, groups, names⟩ :=
    exactly _ _ _ _ _ _ reaches_libraryStage grouped
  obtain ⟨met, rfl | rfl⟩ := library_walks walks
  · cases groups
  · refine ⟨libraryJob_prepared, descends, seen _ descends, reaches_libraryStage, fun world => ?_⟩
    refine names (fun ask _ definition known => ?_) (fun condition mem => ?_) world
    · obtain rfl := directive_of_library known
      rfl
    · rw [met condition mem]
      rfl

end Schema

end GraphExec
