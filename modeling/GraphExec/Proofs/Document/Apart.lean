import GraphExec.Proofs.Document.Offsets
import GraphExec.Proofs.Fields
import GraphExec.Proofs.Success
import Mathlib.Order.Nat

/-!
# Offsets tell nodes apart

The field nodes and directives of a document that has been read from a text are told apart by their
offsets: in the order of the text these ascend.
-/

namespace GraphExec

/-! ### Marks -/

/-- What has an offset: a field node, or a directive. -/
inductive Mark where
  | node (node : FieldNode)
  | directive (directive : Directive)

def Mark.offset : Mark → Nat
  | .node n => n.offset
  | .directive d => d.offset

namespace Selection

/-- What is selected below a selection. -/
def inner : Selection → List Selection
  | field node => node.selections
  | spread _ _ => []
  | inline _ _ selections => selections

/-- The marks of a selection itself, in the order of the text. -/
def marks : Selection → List Mark
  | field node => .node node :: node.directives.map .directive
  | spread _ directives => directives.map .directive
  | inline _ directives _ => directives.map .directive

theorem directive_mem_marks {selection : Selection} {directive : Directive}
    (mem : directive ∈ selection.directives) : .directive directive ∈ selection.marks := by
  cases selection with
  | field node => exact List.mem_cons_of_mem _ (List.mem_map_of_mem mem)
  | spread fragment directives => exact List.mem_map_of_mem mem
  | inline condition directives selections => exact List.mem_map_of_mem mem

end Selection

/-- The marks of selections, at any depth. -/
inductive Marked : List Selection → Mark → Prop
  | own {selection : Selection} {rest : List Selection} {mark : Mark}
      (mem : mark ∈ selection.marks) : Marked (selection :: rest) mark
  | inner {selection : Selection} {rest : List Selection} {mark : Mark}
      (marked : Marked selection.inner mark) : Marked (selection :: rest) mark
  | later {selection : Selection} {rest : List Selection} {mark : Mark}
      (marked : Marked rest mark) : Marked (selection :: rest) mark

/-- A mark of one of the selections, or below it. -/
theorem Marked.of_mem {selections : List Selection} {selection : Selection} {mark : Mark}
    (mem : selection ∈ selections)
    (marked : mark ∈ selection.marks ∨ Marked selection.inner mark) : Marked selections mark := by
  induction selections with
  | nil => cases mem
  | cons first rest ih =>
      rcases List.mem_cons.mp mem with rfl | mem
      · exact marked.elim .own .inner
      · exact .later (ih mem)

/-! ### Stretches of a text -/

/-- Marks whose offsets ascend in a stretch of a text. -/
structure Ascending (lo : Nat) (marks : List Mark) (hi : Nat) : Prop where
  le : lo ≤ hi
  sorted : marks.Pairwise (·.offset < ·.offset)
  within : ∀ mark ∈ marks, lo ≤ mark.offset ∧ mark.offset < hi

/-- Selections that are written in a stretch of a text. -/
inductive Spans : Nat → List Selection → Nat → Prop
  | nil {lo hi : Nat} (le : lo ≤ hi) : Spans lo [] hi
  | cons {lo middle behind hi : Nat} {selection : Selection} {rest : List Selection}
      (own : Ascending lo selection.marks middle) (below : Spans middle selection.inner behind)
      (others : Spans behind rest hi) : Spans lo (selection :: rest) hi

section Stretches

variable {lo middle hi : Nat} {selections rest : List Selection} {selection : Selection}

namespace Ascending

theorem nil (le : lo ≤ hi) : Ascending lo [] hi :=
  ⟨le, .nil, nofun⟩

/-- Marks from an earlier place on. -/
theorem from_earlier {marks : List Mark} {earlier : Nat} (ascending : Ascending lo marks hi)
    (le : earlier ≤ lo) : Ascending earlier marks hi :=
  ⟨le.trans ascending.le, ascending.sorted,
    fun mark mem => ⟨le.trans (ascending.within mark mem).1, (ascending.within mark mem).2⟩⟩

/-- A mark before others. -/
theorem cons {mark : Mark} {marks : List Mark} (le : lo ≤ mark.offset)
    (lt : mark.offset < middle) (ascending : Ascending middle marks hi) :
    Ascending lo (mark :: marks) hi where
  le := by
    have := ascending.le
    omega
  sorted := List.pairwise_cons.mpr
    ⟨fun other mem => Nat.lt_of_lt_of_le lt (ascending.within other mem).1, ascending.sorted⟩
  within := by
    have := ascending.le
    intro other mem
    rcases List.mem_cons.mp mem with rfl | mem
    · exact ⟨le, by omega⟩
    · have := ascending.within other mem
      omega

/-- The offset of a mark tells which it is. -/
theorem unique {marks : List Mark} (ascending : Ascending lo marks hi) {mark other : Mark}
    (mem : mark ∈ marks) (mem' : other ∈ marks) (same : mark.offset = other.offset) :
    mark = other := by
  have sorted := ascending.sorted
  clear ascending
  induction sorted with
  | nil => cases mem
  | cons before _ ih =>
      rcases List.mem_cons.mp mem with rfl | mem
      · rcases List.mem_cons.mp mem' with rfl | mem'
        · rfl
        · exact absurd same (before other mem').ne
      · rcases List.mem_cons.mp mem' with rfl | mem'
        · exact absurd same (before mark ‹_›).ne'
        · exact ih mem mem'

end Ascending

namespace Spans

theorem le (spans : Spans lo selections hi) : lo ≤ hi := by
  induction spans with
  | nil le => exact le
  | cons own _ _ ih ih' => exact own.le.trans (ih.trans ih')

theorem widen {lo' hi' : Nat} (spans : Spans lo selections hi) (before : lo' ≤ lo)
    (behind : hi ≤ hi') : Spans lo' selections hi' := by
  induction spans generalizing lo' hi' with
  | nil le => exact .nil (before.trans (le.trans behind))
  | cons own below _ _ ih => exact .cons (own.from_earlier before) below (ih le_rfl behind)

/-- A selection before others. -/
theorem cons_of_one (one : Spans lo [selection] middle) (others : Spans middle rest hi) :
    Spans lo (selection :: rest) hi := by
  cases one with
  | cons own below none =>
      cases none with
      | nil le => exact .cons own below (others.widen le le_rfl)

theorem within (spans : Spans lo selections hi) {mark : Mark} (marked : Marked selections mark) :
    lo ≤ mark.offset ∧ mark.offset < hi := by
  induction spans with
  | nil => cases marked
  | cons own below rest ih ih' =>
      have := own.le
      have := below.le
      have := rest.le
      cases marked with
      | own mem =>
          have := own.within mark mem
          omega
      | inner marked =>
          have := ih marked
          omega
      | later marked =>
          have := ih' marked
          omega

/-- The offset of a mark tells which it is. -/
theorem unique (spans : Spans lo selections hi) {mark other : Mark}
    (marked : Marked selections mark) (marked' : Marked selections other)
    (same : mark.offset = other.offset) : mark = other := by
  induction spans with
  | nil => cases marked
  | cons own below rest ih ih' =>
      -- Marks of different parts stand in stretches that follow each other.
      have := below.le
      have owns := own.within
      have belows := fun mark => @within _ _ _ below mark
      have rests := fun mark => @within _ _ _ rest mark
      cases marked with
      | own mem =>
          have := owns mark mem
          cases marked' with
          | own mem' => exact own.unique mem mem' same
          | inner marked' => have := belows other marked'; omega
          | later marked' => have := rests other marked'; omega
      | inner marked =>
          have := belows mark marked
          cases marked' with
          | own mem' => have := owns other mem'; omega
          | inner marked' => exact ih marked marked'
          | later marked' => have := rests other marked'; omega
      | later marked =>
          have := rests mark marked
          cases marked' with
          | own mem' => have := owns other mem'; omega
          | inner marked' => have := belows other marked'; omega
          | later marked' => exact ih' marked marked'

end Spans

end Stretches

/-! ### Reading selections -/

namespace Document

theorem reads_directives : Reads (many directive) fun lo directives hi =>
    Ascending lo (directives.map .directive) hi :=
  reads_many reads_directive (fun _ => .nil le_rfl)
    fun here others => .cons here.1 here.2 others

section Selections

variable {set : Reader (List Selection)}

theorem reads_field (reads : Reads set Spans) :
    Reads (selectionSet.field set) fun lo selection hi => Spans lo [selection] hi := by
  intro cursor a after read
  obtain ⟨_, start, skipped, read⟩ := run_bind read
  obtain ⟨_, _, got, read⟩ := run_bind read
  obtain ⟨rfl, rfl⟩ := run_get got
  obtain ⟨alias?, _, aliased, read⟩ := run_bind read
  obtain ⟨fieldName, _, named, read⟩ := run_bind read
  obtain ⟨pairs, _, arguments, read⟩ := run_bind read
  obtain ⟨directives, _, directed, read⟩ := run_bind read
  obtain ⟨selections, _, selected, read⟩ := run_bind read
  obtain ⟨rfl, rfl⟩ := run_pure read
  have to_start := onward_skip _ _ _ skipped
  have past_alias := onward_optional (onward_name.bind fun _ => (onward_token _).bind fun _ =>
    onward_pure _) _ _ _ aliased
  have past_name := reads_name _ _ _ named
  have past_arguments := onward_optional onward_arguments _ _ _ arguments
  have ascending := (reads_directives _ _ _ directed).from_earlier past_arguments
  refine .cons (.cons to_start (Nat.lt_of_le_of_lt past_alias past_name) ascending) ?_ (.nil le_rfl)
  rcases run_optional selected with ⟨found, rfl, below⟩ | ⟨rfl, rfl⟩
  · exact reads _ _ _ below
  · exact .nil le_rfl

theorem reads_inlineFragment (reads : Reads set Spans) :
    Reads (selectionSet.inlineFragment set) fun lo selection hi => Spans lo [selection] hi := by
  intro cursor a after read
  obtain ⟨_, _, dots, read⟩ := run_bind read
  obtain ⟨condition?, _, conditioned, read⟩ := run_bind read
  obtain ⟨directives, _, directed, read⟩ := run_bind read
  obtain ⟨selections, _, below, read⟩ := run_bind read
  obtain ⟨rfl, rfl⟩ := run_pure read
  have past_dots := onward_token _ _ _ _ dots
  have past_condition := onward_optional onward_typeCondition _ _ _ conditioned
  exact .cons ((reads_directives _ _ _ directed).from_earlier (past_dots.trans past_condition))
    (reads _ _ _ below) (.nil le_rfl)

theorem reads_spread : Reads selectionSet.spread fun lo selection hi =>
    Spans lo [selection] hi := by
  intro cursor a after read
  obtain ⟨_, _, dots, read⟩ := run_bind read
  obtain ⟨condition?, _, conditioned, read⟩ := run_bind read
  have past_dots := onward_token _ _ _ _ dots
  have past_condition := onward_optional onward_typeCondition _ _ _ conditioned
  cases condition? with
  | some condition => exact absurd read run_failure
  | none =>
      obtain ⟨fragment, _, named, read⟩ := run_bind read
      obtain ⟨directives, _, directed, read⟩ := run_bind read
      obtain ⟨rfl, rfl⟩ := run_pure read
      have past_name := onward_name _ _ _ named
      exact .cons ((reads_directives _ _ _ directed).from_earlier
        (past_dots.trans (past_condition.trans past_name))) (.nil le_rfl) (.nil le_rfl)

end Selections

theorem reads_selectionSet : ∀ fuel depth, Reads (selectionSet depth fuel) Spans := by
  intro fuel
  induction fuel with
  | zero => exact fun _ => reads_failure
  | succ fuel ih =>
      intro depth cursor a after read
      have reads := ih (depth + 1)
      have items := reads_oneOrMore <| reads_many
        (reads_field reads |>.orElse <| reads_inlineFragment reads |>.orElse <| reads_spread)
        (fun _ => Spans.nil le_rfl) Spans.cons_of_one
      obtain ⟨_, _, opened, read⟩ := run_bind read
      have past_brace := onward_token _ _ _ _ opened
      have closes : Reads (do
          let selections ← oneOrMore (selectionSet.field (selectionSet (depth + 1) fuel) <|>
            selectionSet.inlineFragment (selectionSet (depth + 1) fuel) <|> selectionSet.spread)
          token "\x7d"
          pure selections) Spans := by
        intro cursor a after read
        obtain ⟨found, _, chosen, read⟩ := run_bind read
        obtain ⟨_, _, closed, read⟩ := run_bind read
        obtain ⟨rfl, rfl⟩ := run_pure read
        exact (items _ _ _ chosen).widen le_rfl (onward_token _ _ _ _ closed)
      dsimp only at read
      split at read
      · obtain ⟨_, _, reported, read⟩ := run_bind read
        have past_report := onward_report _ _ _ _ reported
        exact (closes _ _ _ read).widen (past_brace.trans past_report) le_rfl
      · exact (closes _ _ _ read).widen past_brace le_rfl

theorem reads_topSelections : Reads topSelections Spans := by
  intro cursor a after read
  obtain ⟨here, _, got, read⟩ := run_bind read
  obtain ⟨rfl, rfl⟩ := run_get got
  exact reads_selectionSet _ _ _ _ _ read

/-! ### Reading definitions -/

end Document

/-- The selections of a definition. -/
def Definition.selections : Definition → List Selection
  | .operation o => o.selections
  | .fragment f => f.selections

/-- The selections of a definition, as one selection. -/
def Definition.asOne (definition : Definition) : Selection :=
  .inline none [] definition.selections

namespace Document

/-- A reader of selections that goes on from a reader that goes onward. -/
theorem reads_then {α β : Type} {first : Reader α} {f : α → Reader β}
    {selections : β → List Selection} (onward : Onward first)
    (then_ : ∀ a, Reads (f a) fun lo b hi => Spans lo (selections b) hi) :
    Reads (first >>= f) fun lo b hi => Spans lo (selections b) hi := by
  intro cursor b after read
  obtain ⟨a, _, one, two⟩ := run_bind read
  exact (then_ a _ _ _ two).widen (onward _ _ _ one) le_rfl

theorem reads_made {β : Type} {selections : β → List Selection} {make : List Selection → β}
    (same : ∀ found, selections (make found) = found) :
    Reads (do
      let found ← topSelections
      pure (make found)) fun lo b hi => Spans lo (selections b) hi := by
  intro cursor b after read
  obtain ⟨found, _, one, two⟩ := run_bind read
  obtain ⟨rfl, rfl⟩ := run_pure two
  rw [same]
  exact reads_topSelections _ _ _ one

theorem onward_variableDefinition : Onward variableDefinition := by
  have default : Onward (do
      token "="
      anyLiteral true) := (onward_token _).bind fun _ => onward_anyLiteral _
  have directives : Onward (many directive) := fun _ _ _ read => (reads_directives _ _ _ read).le
  refine (onward_token _).bind fun _ => onward_name.bind fun _ => (onward_token _).bind fun _ =>
    onward_skip.bind fun _ => onward_get fun here => ?_
  exact Onward.bind (onward_typeHere _) (fun _ => directives.bind fun _ =>
    (onward_optional default).bind fun _ => onward_pure _) here

theorem reads_keywordOperation (location : Location) :
    Reads (keywordOperation location) fun lo operation hi => Spans lo operation.selections hi := by
  have onward_kind : Onward operationKind :=
    (onward_keyword _).orElse <| (onward_keyword _).orElse (onward_keyword _)
  have definitions : Onward (do
      token "("
      let definitions ← many variableDefinition
      token ")"
      pure definitions) :=
    (onward_token _).bind fun _ => (onward_many onward_variableDefinition).bind fun _ =>
      (onward_token _).bind fun _ => onward_pure _
  exact reads_then onward_kind fun _ => reads_then (onward_optional onward_name) fun _ =>
    reads_then (onward_optional definitions) fun _ =>
    reads_then (fun _ _ _ read => (reads_directives _ _ _ read).le) fun _ =>
    reads_made fun _ => rfl

theorem reads_bareOperation (location : Location) :
    Reads (bareOperation location) fun lo operation hi => Spans lo operation.selections hi :=
  reads_made fun _ => rfl

theorem reads_fragmentDefinition (location : Location) :
    Reads (fragmentDefinition location) fun lo fragment hi => Spans lo fragment.selections hi :=
  reads_then (onward_token _) fun _ => reads_then onward_name fun _ =>
    reads_then onward_typeCondition fun _ =>
    reads_then (fun _ _ _ read => (reads_directives _ _ _ read).le) fun _ =>
    reads_made fun _ => rfl

theorem reads_definition : Reads definition fun lo definition hi =>
    Spans lo definition.selections hi := by
  intro cursor a after read
  obtain ⟨_, start, skipped, read⟩ := run_bind read
  obtain ⟨_, _, got, read⟩ := run_bind read
  obtain ⟨rfl, rfl⟩ := run_get got
  have past := onward_skip _ _ _ skipped
  rcases run_orElse read with read | read
  · obtain ⟨operation, one, rfl⟩ := run_map read
    exact ((reads_keywordOperation _).orElse (reads_bareOperation _) _ _ _ one).widen past le_rfl
  · obtain ⟨fragment, one, rfl⟩ := run_map read
    exact (reads_fragmentDefinition _ _ _ _ one).widen past le_rfl

theorem reads_definitions : Reads definitions fun lo found hi =>
    Spans lo (found.map Definition.asOne) hi := by
  intro cursor a after read
  have all : Reads (oneOrMore definition) fun lo found hi =>
      Spans lo (found.map Definition.asOne) hi :=
    reads_oneOrMore <| reads_many reads_definition (fun _ => .nil le_rfl)
      fun here others => .cons (.nil le_rfl) here others
  obtain ⟨found, _, one, read⟩ := run_bind read
  obtain ⟨_, _, skipped, read⟩ := run_bind read
  obtain ⟨here, _, got, read⟩ := run_bind read
  obtain ⟨rfl, rfl⟩ := run_get got
  have past := onward_skip _ _ _ skipped
  split at read
  · obtain ⟨rfl, rfl⟩ := run_pure read
    exact (all _ _ _ one).widen le_rfl past
  · exact absurd read run_failure

end Document

/-! ### Documents -/

/-- The operations of a document. -/
def Operations.all : Operations → List Operation
  | single operation => [operation]
  | multiple operations => operations.values

namespace Document

/-- The selections of a document, at any depth. -/
inductive Has (document : Document) : Selection → Prop
  | operation {operation : Operation} {selection : Selection}
      (known : operation ∈ document.operations.all) (mem : selection ∈ operation.selections) :
      Has document selection
  | fragment {fragment : Fragment} {selection : Selection}
      (known : fragment ∈ document.fragments.values) (mem : selection ∈ fragment.selections) :
      Has document selection
  | field {node : FieldNode} {selection : Selection} (above : Has document (.field node))
      (mem : selection ∈ node.selections) : Has document selection
  | inline {condition : Option String} {directives : List Directive} {inner : List Selection}
      {selection : Selection} (above : Has document (.inline condition directives inner))
      (mem : selection ∈ inner) : Has document selection

/-- Offsets tell the field nodes of a document apart, and its directives. -/
structure Apart (document : Document) : Prop where
  nodes : ∀ node other, document.Has (.field node) → document.Has (.field other) →
    node.offset = other.offset → node = other
  directives : ∀ selection directive other_selection other, document.Has selection →
    directive ∈ selection.directives → document.Has other_selection →
    other ∈ other_selection.directives → directive.offset = other.offset → directive = other

theorem addOperation_all {known? : Option Operations} {operation : Operation}
    {operations : Operations} (added : addOperation known? operation = .ok operations) :
    ∀ other ∈ operations.all, other = operation ∨ ∃ known, known? = some known ∧ other ∈ known.all := by
  intro other mem
  unfold addOperation at added
  split at added
  · injection added with added
    subst added
    exact .inl (List.mem_singleton.mp mem)
  · cases added
  · rename_i name others
    split at added
    · cases added
    · injection added with added
      subst added
      obtain ⟨⟨key, value⟩, member, rfl⟩ := List.mem_map.mp mem
      rcases Fields.mem_of_mem_insert member with before | same
      · exact .inr ⟨_, rfl, List.mem_map_of_mem before⟩
      · injection same with _ same
        exact .inl same
  · injection added with added
    subst added
    exact .inl (List.mem_singleton.mp mem)
  · cases added
  · split at added
    · injection added with added
      subst added
      exact .inl (List.mem_singleton.mp mem)
    · cases added

/-- A document consists of its definitions. -/
theorem collect_mem {found : List Definition} : ∀ {known? : Option Operations}
    {fragments : Fields Fragment} {document : Document},
    collect known? fragments found = .ok document →
    (∀ operation ∈ document.operations.all,
      (∃ known, known? = some known ∧ operation ∈ known.all) ∨ .operation operation ∈ found) ∧
    ∀ fragment ∈ document.fragments.values,
      fragment ∈ fragments.values ∨ .fragment fragment ∈ found := by
  induction found with
  | nil =>
      intro known? fragments document collected
      unfold collect at collected
      split at collected
      · injection collected with collected
        subst collected
        exact ⟨fun operation mem => .inl ⟨_, rfl, mem⟩, fun fragment mem => .inl mem⟩
      · cases collected
  | cons definition rest ih =>
      intro known? fragments document collected
      cases definition with
      | operation operation =>
          unfold collect at collected
          obtain ⟨operations, added, collected⟩ := Except.bind_eq_ok.mp collected
          obtain ⟨from_operations, from_fragments⟩ := ih collected
          refine ⟨fun other mem => ?_, fun fragment mem =>
            (from_fragments fragment mem).imp id (List.mem_cons_of_mem _)⟩
          rcases from_operations other mem with ⟨known, same, mem⟩ | mem
          · injection same with same
            subst same
            rcases addOperation_all added other mem with rfl | before
            · exact .inr List.mem_cons_self
            · exact .inl before
          · exact .inr (List.mem_cons_of_mem _ mem)
      | fragment fragment =>
          unfold collect at collected
          split at collected
          · cases collected
          · obtain ⟨from_operations, from_fragments⟩ := ih collected
            refine ⟨fun other mem => (from_operations other mem).imp id (List.mem_cons_of_mem _),
              fun other mem => ?_⟩
            rcases from_fragments other mem with mem | mem
            · obtain ⟨⟨key, value⟩, member, rfl⟩ := List.mem_map.mp mem
              rcases Fields.mem_of_mem_insert member with before | same
              · exact .inl (List.mem_map_of_mem before)
              · injection same with _ same
                exact .inr (same ▸ List.mem_cons_self)
            · exact .inr (List.mem_cons_of_mem _ mem)

/-- What a document has is marked where its definitions are. -/
theorem Has.marked {found : List Definition} {document : Document}
    (collected : ofDefinitions found = .ok document) {selection : Selection}
    (has : document.Has selection) : ∀ {mark : Mark},
      (mark ∈ selection.marks ∨ Marked selection.inner mark) →
      Marked (found.map Definition.asOne) mark := by
  obtain ⟨operations, fragments⟩ := collect_mem collected
  induction has with
  | operation known mem =>
      intro mark marked
      rcases operations _ known with ⟨_, none_yet, -⟩ | there
      · cases none_yet
      · exact .of_mem (List.mem_map_of_mem there) (.inr (.of_mem mem marked))
  | fragment known mem =>
      intro mark marked
      rcases fragments _ known with none_yet | there
      · cases none_yet
      · exact .of_mem (List.mem_map_of_mem there) (.inr (.of_mem mem marked))
  | field _ mem ih => exact fun marked => ih (.inr (.of_mem mem marked))
  | inline _ mem ih => exact fun marked => ih (.inr (.of_mem mem marked))

/-- Definitions that are written in a stretch of a text make a document whose offsets tell field
nodes and directives apart. -/
theorem apart_of_spans {found : List Definition} {document : Document} {lo hi : Nat}
    (spans : Spans lo (found.map Definition.asOne) hi)
    (collected : ofDefinitions found = .ok document) : document.Apart where
  nodes node other has has' same := by
    have marked := has.marked collected (.inl (List.mem_cons_self (a := Mark.node node)))
    have marked' := has'.marked collected (.inl (List.mem_cons_self (a := Mark.node other)))
    injection spans.unique marked marked' same
  directives selection directive selection' other has mem has' mem' same := by
    have marked := has.marked collected (.inl (Selection.directive_mem_marks mem))
    have marked' := has'.marked collected (.inl (Selection.directive_mem_marks mem'))
    injection spans.unique marked marked' same

theorem apart_of_parse {text : String} {document : Document}
    (parsed : parse text = .ok document) : document.Apart := by
  unfold parse at parsed
  split at parsed
  · cases parsed
  · rename_i found cursor read
    split at parsed
    · cases parsed
    · exact apart_of_spans (reads_definitions _ _ _ read) parsed

end Document

end GraphExec
