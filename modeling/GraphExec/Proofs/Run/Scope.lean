import GraphExec.Proofs.Run.Consultations

/-!
# What a gathering pass can come across

A pass goes through selections, through those of inline fragments, and through those of the
fragments that are spread. What is selected below a field is left to the objects of that field. So
the bags of arguments that a pass may ask for are known before it: they belong to the directives
that stand at the selections that it can reach.
-/

namespace GraphExec

variable {σ : Type}

/-! ### Selections -/

/-- A selection stands among others, perhaps within fragments. -/
inductive Selection.Reached (fragments : Fields Fragment) (selections : List Selection) :
    Selection → Prop
  | here {selection : Selection} (mem : selection ∈ selections) :
      Reached fragments selections selection
  | inline {condition : Option String} {directives : List Directive} {inner : List Selection}
      {selection : Selection}
      (above : Reached fragments selections (.inline condition directives inner))
      (mem : selection ∈ inner) : Reached fragments selections selection
  | spread {name : String} {directives : List Directive} {fragment : Fragment}
      {selection : Selection} (above : Reached fragments selections (.spread name directives))
      (known : (name, fragment) ∈ fragments) (mem : selection ∈ fragment.selections) :
      Reached fragments selections selection

/-- No fragment is spread among its own selections, be it through other fragments. -/
def Fragment.Acyclic (fragments : Fields Fragment) : Prop :=
  ∀ name fragment, (name, fragment) ∈ fragments →
    ∀ directives, ¬ Selection.Reached fragments fragment.selections (.spread name directives)

namespace Selection

variable {fragments : Fields Fragment} {selections inner rest : List Selection}
  {selection : Selection}

/-- What stands among selections that are reached is reached. -/
theorem Reached.within (below : ∀ other ∈ inner, Reached fragments selections other)
    (reached : Reached fragments inner selection) : Reached fragments selections selection := by
  induction reached with
  | here mem => exact below _ mem
  | inline _ mem ih => exact .inline ih mem
  | spread _ known mem ih => exact .spread ih known mem

theorem Reached.behind (reached : Reached fragments rest selection) :
    Reached fragments (selection' :: rest) selection :=
  reached.within fun _ mem => .here (List.mem_cons_of_mem _ mem)

theorem Reached.of_inline {condition : Option String} {directives : List Directive}
    (reached : Reached fragments inner selection) :
    Reached fragments (.inline condition directives inner :: rest) selection :=
  reached.within fun _ mem => .inline (.here List.mem_cons_self) mem

theorem Reached.of_spread {name : String} {directives : List Directive} {fragment : Fragment}
    (known : (name, fragment) ∈ fragments)
    (reached : Reached fragments fragment.selections selection) :
    Reached fragments (.spread name directives :: rest) selection :=
  reached.within fun _ mem => .spread (.here List.mem_cons_self) known mem

/-- What stands in place within a selection, be it kept or not. -/
def inPlace : Selection → List Selection
  | .inline _ _ inner => inner
  | _ => []

/-- Selections together with all that stands in place within them. -/
def nested : List Selection → List Selection
  | [] => []
  | selection :: rest => selection :: (nested selection.inPlace ++ nested rest)
termination_by selections => sizeOf selections
decreasing_by
  · cases selection <;> simp [inPlace] <;> omega
  · rw [List.cons.sizeOf_spec]
    omega

theorem mem_nested : ∀ {selections : List Selection}, ∀ selection ∈ selections,
    selection ∈ nested selections := by
  intro selections selection mem
  induction selections with
  | nil => cases mem
  | cons first rest ih =>
      rw [nested]
      rcases List.mem_cons.mp mem with rfl | mem
      · exact List.mem_cons_self
      · exact List.mem_cons_of_mem _ (List.mem_append_right _ (ih mem))

theorem nested_inPlace {selections : List Selection} :
    selection ∈ nested selections → ∀ other ∈ selection.inPlace, other ∈ nested selections := by
  induction selections using nested.induct with
  | case1 =>
      intro mem
      rw [nested] at mem
      cases mem
  | case2 first rest below behind =>
      intro mem other here
      rw [nested] at mem ⊢
      refine List.mem_cons_of_mem _ (List.mem_append.mpr ?_)
      rcases List.mem_cons.mp mem with rfl | mem
      · exact .inl (mem_nested _ here)
      · exact (List.mem_append.mp mem).imp (below · other here) (behind · other here)

/-- Whatever is reached stands among the selections or in a fragment. -/
theorem Reached.mem_nested (reached : Reached fragments selections selection) :
    selection ∈ nested selections ++ fragments.values.flatMap fun f => nested f.selections := by
  induction reached with
  | here mem => exact List.mem_append_left _ (Selection.mem_nested _ mem)
  | inline _ mem ih =>
      rcases List.mem_append.mp ih with ih | ih
      · exact List.mem_append_left _ (nested_inPlace ih _ mem)
      · obtain ⟨fragment, known, ih⟩ := List.mem_flatMap.mp ih
        refine List.mem_append_right _ (List.mem_flatMap.mpr ⟨fragment, known, ?_⟩)
        exact nested_inPlace ih _ mem
  | @spread _ _ fragment _ _ known mem _ =>
      refine List.mem_append_right _ (List.mem_flatMap.mpr ⟨fragment, ?_, ?_⟩)
      · exact List.mem_map_of_mem known
      · exact Selection.mem_nested _ mem

end Selection

/-! ### Inquiries -/

/-- The bag that is found under the key of an inquiry, or else the one that is started, is of a
kind. -/
def Inquiry.Finds (holds : SharedArguments σ → Prop) (inquiry : Inquiry σ) (job : Job σ)
    (s : Stage σ) : Prop :=
  match s.run.arguments.get? inquiry.key with
  | some bag => holds bag
  | none => ∀ world, holds (.ofCoercion ((inquiry.coercion job).run world).1)

/-- A consultation finds a bag of the kind. -/
theorem Inquiry.Finds.found {holds : SharedArguments σ → Prop} {job : Job σ} {c : Consultation σ}
    (finds : c.inquiry.Finds holds job c.before) (made : c.Made job) :
    ∃ bag, c.after.run.arguments.get? c.inquiry.key = some bag ∧ holds bag ∧
      c.found = bag.result? := by
  unfold Finds at finds
  split at finds
  · rename_i bag there
    obtain ⟨found, after⟩ := made.hit there
    exact ⟨bag, after ▸ there, finds, found⟩
  · rename_i missing
    obtain ⟨found, after⟩ := made.miss missing
    refine ⟨c.bag job, ?_, finds c.before.world, found⟩
    rw [after]
    exact (ArgumentStore.get?_insert _ _ _ _).trans (if_pos rfl)

/-- What a pass over selections may ask the store for: the arguments of every directive with a guard
that stands at a selection in reach. -/
inductive Grouper.Asks (grouper : Grouper σ) (selections : List Selection) : Inquiry σ → Prop
  | directive {selection : Selection} {directive : Directive}
      {definition : DirectiveDefinition σ} {keeps : Arguments → QueryContext → Action σ Bool}
      (reached : selection.Reached grouper.job.fragments selections)
      (written : directive ∈ selection.directives)
      (guard : directive.guard? grouper.job = some (definition, keeps)) :
      Asks grouper selections (directive.inquiry definition grouper.identity)

namespace Grouper

/-- The bags that a pass may ask for are of a kind, those that are there and those that it would
start. -/
def Finds (grouper : Grouper σ) (holds : ArgumentKey → SharedArguments σ → Prop)
    (selections : List Selection) (s : Stage σ) : Prop :=
  ∀ inquiry, grouper.Asks selections inquiry → inquiry.Finds (holds inquiry.key) grouper.job s

/-- Nothing that a pass may ask for has to be waited for. -/
def Prompt (grouper : Grouper σ) (selections : List Selection) (s : Stage σ) : Prop :=
  grouper.Finds (fun _ bag => ∃ result, bag = .ready result) selections s

variable {grouper : Grouper σ} {holds : ArgumentKey → SharedArguments σ → Prop}
  {scope : List Selection} {s t : Stage σ}

theorem Finds.of_same (finds : grouper.Finds holds scope s) (same : SameBags s t) :
    grouper.Finds holds scope t := by
  have same : t.run.arguments = s.run.arguments := same
  intro inquiry asks
  unfold Inquiry.Finds
  rw [same]
  exact finds inquiry asks

/-- A consultation by the pass leaves all bags of their kind. -/
theorem Finds.consult {c : Consultation σ} (finds : grouper.Finds holds scope c.before)
    (asks : grouper.Asks scope c.inquiry) (made : c.Made grouper.job) :
    grouper.Finds holds scope c.after := by
  intro inquiry asks'
  cases there : c.before.run.arguments.get? c.inquiry.key with
  | some bag =>
      rw [(made.hit there).2]
      exact finds inquiry asks'
  | none =>
      obtain ⟨bag, put, here, -⟩ := (finds _ asks).found made
      obtain ⟨-, after⟩ := made.miss there
      have others := finds inquiry asks'
      unfold Inquiry.Finds at others ⊢
      by_cases same : c.inquiry.key = inquiry.key
      · rw [← same, put]
        exact here
      · have untouched : c.after.run.arguments.get? inquiry.key =
            c.before.run.arguments.get? inquiry.key := by
          rw [after]
          exact (ArgumentStore.get?_insert _ _ _ _).trans (if_neg same)
        rw [untouched]
        exact others

/-- A directive in reach finds a bag of the kind under its key, and the bags stay of their kind. -/
theorem Finds.lookUp {directive : Directive} {definition : DirectiveDefinition σ}
    {key : ArgumentKey} {found : Option ArgumentsResult} (finds : grouper.Finds holds scope s)
    (asks : grouper.Asks scope (directive.inquiry definition grouper.identity))
    (looked : (directive.lookUp grouper.job definition grouper.identity).Gives s (key, found) t) :
    key = (directive.inquiry definition grouper.identity).key ∧
      grouper.Finds holds scope t ∧
      ∃ bag, t.run.arguments.get? key = some bag ∧ holds key bag ∧ found = bag.result? := by
  obtain ⟨made, same⟩ := Directive.consults looked
  have same : key = (directive.inquiry definition grouper.identity).key := same
  obtain ⟨bag, put, here, result⟩ := (finds _ asks).found made
  exact ⟨same, finds.consult asks made, bag, same ▸ put, same ▸ here, result⟩

/-- The directives of a selection in reach ask for what a pass may ask for. -/
theorem Hears.asked {selection : Selection} {scope : List Selection} {s t : Stage σ}
    {cs : List (Consultation σ)} {grouper : Grouper σ}
    (reached : selection.Reached grouper.job.fragments scope) {directives : List Directive}
    {inclusion : Inclusion} (hears : grouper.Hears directives s cs inclusion t) :
    (∀ directive ∈ directives, directive ∈ selection.directives) →
    ∀ c ∈ cs, grouper.Asks scope c.inquiry := by
  induction hears with
  | included s => exact fun _ _ mem => absurd mem List.not_mem_nil
  | other _ _ ih => exact fun written => ih fun _ mem => written _ (List.mem_cons_of_mem _ mem)
  | kept guard asks _ _ _ _ ih =>
      intro written c mem
      rcases List.mem_cons.mp mem with rfl | mem
      · exact asks ▸ .directive reached (written _ List.mem_cons_self) guard
      · exact ih (fun _ mem => written _ (List.mem_cons_of_mem _ mem)) c mem
  | ends guard asks _ _ =>
      intro written c mem
      obtain rfl := List.mem_singleton.mp mem
      exact asks ▸ .directive reached (written _ List.mem_cons_self) guard

/-- What is inside a selection in reach is in reach. -/
theorem reached_inside {grouper : Grouper σ} {available inner : Fields Fragment}
    {selection : Selection} {scope selections : List Selection}
    (reached : selection.Reached grouper.job.fragments scope)
    (fewer : available ⊆ grouper.job.fragments)
    (inside : grouper.inside? available selection = some (inner, selections)) :
    (∀ other ∈ selections, other.Reached grouper.job.fragments scope) ∧
      inner ⊆ grouper.job.fragments := by
  rcases inside_cases inside with ⟨condition, directives, rfl, -, rfl⟩ |
    ⟨name, directives, fragment, rfl, known, -, rfl, rfl⟩
  · exact ⟨fun _ mem => .inline reached mem, fewer⟩
  · have left := (Fields.erase_sublist available name).subset
    exact ⟨fun _ mem => .spread reached (fewer (Fields.mem_of_get? known)) mem,
      fun _ mem => fewer (left mem)⟩

/-- A pass asks for nothing but what it may ask for. -/
theorem Consults.asked {grouper : Grouper σ} {available : Fields Fragment}
    {scope selections : List Selection} {s t : Stage σ} {cs : List (Consultation σ)}
    {stop? : Option ArgumentKey} (consults : grouper.Consults available selections s cs stop? t) :
    (∀ selection ∈ selections, selection.Reached grouper.job.fragments scope) →
    available ⊆ grouper.job.fragments → ∀ c ∈ cs, grouper.Asks scope c.inquiry := by
  have behind {selection : Selection} {rest : List Selection}
      (reached : ∀ other ∈ selection :: rest, other.Reached grouper.job.fragments scope) :
      ∀ other ∈ rest, other.Reached grouper.job.fragments scope := fun other mem =>
    reached other (List.mem_cons_of_mem _ mem)
  induction consults with
  | nil available s => exact fun _ _ _ mem => absurd mem List.not_mem_nil
  | waits hears => exact fun reached _ => hears.asked (reached _ List.mem_cons_self) fun _ mem => mem
  | past hears _ _ _ ih =>
      intro reached fewer c mem
      rcases List.mem_append.mp mem with mem | mem
      · exact hears.asked (reached _ List.mem_cons_self) (fun _ mem => mem) c mem
      · exact ih (behind reached) fewer c mem
  | enters hears inside _ _ within after =>
      intro reached fewer c mem
      obtain ⟨reached', fewer'⟩ := reached_inside (reached _ List.mem_cons_self) fewer inside
      rcases List.mem_append.mp mem with mem | mem
      · exact hears.asked (reached _ List.mem_cons_self) (fun _ mem => mem) c mem
      · rcases List.mem_append.mp mem with mem | mem
        · exact within reached' fewer' c mem
        · exact after (behind reached) fewer c mem
  | stops hears inside _ within =>
      intro reached fewer c mem
      obtain ⟨reached', fewer'⟩ := reached_inside (reached _ List.mem_cons_self) fewer inside
      rcases List.mem_append.mp mem with mem | mem
      · exact hears.asked (reached _ List.mem_cons_self) (fun _ mem => mem) c mem
      · exact within reached' fewer' c mem

end Grouper

end GraphExec
