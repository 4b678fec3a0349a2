import Mathlib
import GraphExec.Proofs.Run.Lockstep
import GraphExec.Proofs.Run.Reports

/-!
# Gathering that starts anew

An object that comes across a directive whose arguments are waited for throws away what it has
gathered, waits, and gathers anew, while other steps may fill the store of bags. It waits under each
key at most once. The pass that ends does what a pass does that finds all bags there from the start:
it reports the same errors, puts the same keys in order, and leaves the same groups to the same
steps; or it ends in the same fatal error.
-/

namespace GraphExec

variable {σ : Type}

open Engine

/-! ### Keys that may be waited for -/

namespace Grouper

variable {grouper : Grouper σ} {selections : List Selection} {s : Stage σ}

/-- The keys that a pass may ask for. -/
def keys (grouper : Grouper σ) (selections : List Selection) : List ArgumentKey :=
  (Selection.nested selections ++
      grouper.job.fragments.values.flatMap fun f => Selection.nested f.selections).flatMap
    fun selection => selection.directives.filterMap fun directive =>
      (directive.guard? grouper.job).map fun guard =>
        (directive.inquiry guard.1 grouper.identity).key

/-- Those of them, each once, whose bags have no results yet. -/
def pendingKeys (grouper : Grouper σ) (selections : List Selection) (s : Stage σ) :
    List ArgumentKey :=
  (grouper.keys selections).eraseDups.filter fun key =>
    ((s.run.arguments.get? key).bind (·.result?)).isNone

theorem Asks.mem_keys {inquiry : Inquiry σ} (asks : grouper.Asks selections inquiry) :
    inquiry.key ∈ grouper.keys selections := by
  obtain ⟨reached, written, guard⟩ := asks
  refine List.mem_flatMap.mpr ⟨_, reached.mem_nested, ?_⟩
  refine List.mem_filterMap.mpr ⟨_, written, ?_⟩
  rw [guard]
  rfl

theorem mem_pendingKeys {inquiry : Inquiry σ} (asks : grouper.Asks selections inquiry)
    (missing : ∀ result, s.run.arguments.get? inquiry.key ≠ some (.ready result)) :
    inquiry.key ∈ grouper.pendingKeys selections s := by
  refine List.mem_filter.mpr ⟨List.mem_eraseDups.mpr asks.mem_keys, ?_⟩
  cases there : s.run.arguments.get? inquiry.key with
  | none => rfl
  | some bag =>
      cases bag with
      | ready result => exact absurd there (missing result)
      | pending rest => rfl

end Grouper

namespace ObjectStep

/-! ### One pass -/

/-- A pass has ended: its errors are reported, its keys are put in order, and each of its groups is
left to a step, or written if it is the name of the type. -/
structure Completed (job : Job σ) (step : ObjectStep σ) (type : ObjectType σ) (node : NodeId)
    (grouping : Grouping) (below : List (Task σ)) (s t : Stage σ) : Prop where
  errors : t.run.errors = s.run.errors ++ grouping.errors
  launched : step.Launched job type node grouping.groups below
  leaves : Leaves step.serial s t
    (Task.writes below (s.run.draft.setKeys node grouping.groups.keys))
    (below.filterMap Task.step?)

/-- A pass is suspended: the object waits under a key. -/
def Suspends (job : Job σ) (step : ObjectStep σ) (type : ObjectType σ) (node : NodeId)
    (key : ArgumentKey) (s t : Stage σ) : Prop :=
  ∃ depth, (step.collect job type node).Gives s
    (.parked (.object { step with state := .awaitingArguments type node }) depth (.arguments key)) t

variable {job : Job σ} {step : ObjectStep σ} {type : ObjectType σ} {node : NodeId} {s t : Stage σ}

theorem suspends_iff {key : ArgumentKey} :
    step.Suspends job type node key s t ↔
      ((step.grouper job type (s.run.draft.path node)).group step.selections).Gives s
        (.waiting key) t := by
  constructor
  · rintro ⟨depth, h⟩
    obtain ⟨draft, v, got, h⟩ := gives_bind.mp h
    obtain ⟨rfl, rfl⟩ := gives_draft.mp got
    obtain ⟨result, u, grouped, h⟩ := gives_bind.mp h
    cases result with
    | waiting other =>
        obtain ⟨draft, v, got, h⟩ := gives_bind.mp h
        obtain ⟨rfl, rfl⟩ := gives_draft.mp got
        obtain ⟨same, rfl⟩ := gives_pure.mp h
        injection same with _ _ same
        injection same with same
        exact same ▸ grouped
    | complete grouping =>
        obtain ⟨_, v, -, h⟩ := gives_bind.mp h
        obtain ⟨_, w, -, h⟩ := gives_bind.mp h
        obtain ⟨_, x, -, h⟩ := gives_bind.mp h
        obtain ⟨same, -⟩ := gives_pure.mp h
        cases same
  · intro grouped
    refine ⟨step.target.depth t.run.draft, gives_bind.mpr ⟨_, s, gives_draft.mpr ⟨rfl, rfl⟩,
      gives_bind.mpr ⟨_, t, grouped, ?_⟩⟩⟩
    exact gives_bind.mpr ⟨_, t, gives_draft.mpr ⟨rfl, rfl⟩, gives_pure.mpr ⟨rfl, rfl⟩⟩

/-- Groups are left to steps at every stage or at none. -/
theorem launchAll_cases (job : Job σ) (step : ObjectStep σ) (type : ObjectType σ) (node : NodeId)
    (groups : Groups) :
    (∃ below, step.Launched job type node groups below ∧
      ∀ s, ∃ t, (step.launchAll job type node groups).Gives s () t) ∨
    ∃ error, ∀ s, (step.launchAll job type node groups).Fails s error := by
  induction groups with
  | nil => exact .inl ⟨[], .nil, fun s => ⟨s, gives_pure.mpr ⟨rfl, rfl⟩⟩⟩
  | cons entry rest ih =>
      obtain ⟨key, group⟩ := entry
      have one : (∃ task, step.launched? job type node (key, group) = some task ∧
          ∀ s, ∃ t, (step.launch job type node key group).Gives s () t) ∨
          ∃ error, ∀ s, (step.launch job type node key group).Fails s error := by
        unfold launch launched?
        by_cases typename : group.first.name = "__typename"
        · simp only [if_pos typename]
          exact .inl ⟨_, rfl, fun s => ⟨_, gives_modifyDraft.mpr rfl⟩⟩
        · simp only [if_neg typename]
          cases known : Fields.get? type.fields group.first.name with
          | none => exact .inr ⟨_, fun s => fails_throw _ s⟩
          | some field =>
              refine .inl ⟨_, rfl, fun s => ?_⟩
              simp only
              by_cases serial : step.serial = true
              · simp only [if_pos serial]
                exact ⟨_, gives_hold.mpr rfl⟩
              · simp only [if_neg serial]
                exact ⟨_, gives_enqueue.mpr rfl⟩
      rcases one with ⟨task, found, first⟩ | ⟨error, fails⟩
      · rcases ih with ⟨below, all, behind⟩ | ⟨error, fails⟩
        · refine .inl ⟨task :: below, .cons found all, fun s => ?_⟩
          obtain ⟨t, launched⟩ := first s
          obtain ⟨u, others⟩ := behind t
          exact ⟨u, gives_bind.mpr ⟨(), t, launched, others⟩⟩
        · refine .inr ⟨error, fun s => ?_⟩
          obtain ⟨t, launched⟩ := first s
          exact fails_bind.mpr (.inr ⟨(), t, launched, fails t⟩)
      · exact .inr ⟨error, fun s => fails_bind.mpr (.inl (fails s))⟩

theorem Launched.unique {groups : Groups} {below below' : List (Task σ)}
    (one : step.Launched job type node groups below)
    (other : step.Launched job type node groups below') : below = below' := by
  unfold Launched at one other
  induction one generalizing below' with
  | nil =>
      cases other
      rfl
  | cons found _ ih =>
      cases other with
      | cons found' others =>
          rw [ih others, Option.some.inj (found.symm.trans found')]

/-- What a grouping that is complete comes to does not depend on the stage. -/
theorem collect_complete (job : Job σ) (step : ObjectStep σ) (type : ObjectType σ) (node : NodeId)
    (path : Path) (grouping : Grouping) :
    (∃ below, ∀ s u, s.run.draft.path node = path →
      ((step.grouper job type path).group step.selections).Gives s (.complete grouping) u →
      ∃ t, (step.collect job type node).Gives s .finished t ∧
        step.Completed job type node grouping below s t) ∨
    ∃ error, ∀ s u, s.run.draft.path node = path →
      ((step.grouper job type path).group step.selections).Gives s (.complete grouping) u →
      (step.collect job type node).Fails s error := by
  -- The stage at which the groups are launched.
  let prepared (u : Stage σ) : Stage σ :=
    ⟨{ u.run with
        errors := u.run.errors ++ grouping.errors
        draft := u.run.draft.setKeys node grouping.groups.keys }, u.world⟩
  rcases launchAll_cases job step type node grouping.groups with
    ⟨below, all, launches⟩ | ⟨error, fails⟩
  · refine .inl ⟨below, fun s u place grouped => ?_⟩
    subst place
    have same : SameTree s u := Grouper.keeps_group _ _ _ _ _ grouped
    have still : SameErrors s u := Grouper.keeps_group _ _ _ _ _ grouped
    obtain ⟨t, launched⟩ := launches (prepared u)
    refine ⟨t, ?_, ?_⟩
    · refine gives_bind.mpr ⟨_, s, gives_draft.mpr ⟨rfl, rfl⟩, gives_bind.mpr ⟨_, u, grouped, ?_⟩⟩
      refine gives_bind.mpr ⟨(), _, gives_modifyRun.mpr rfl, ?_⟩
      refine gives_bind.mpr ⟨(), prepared u, gives_modifyDraft.mpr rfl, ?_⟩
      exact gives_bind.mpr ⟨(), t, launched, gives_pure.mpr ⟨rfl, rfl⟩⟩
    · obtain ⟨below', all', leaves⟩ := launchAll_leaves launched
      obtain rfl := Launched.unique all all'
      have after : SameErrors (prepared u) t := step.keeps_launchAll _ _ _ _ _ _ launched
      refine ⟨?_, all, ?_, ?_, ?_, ?_⟩
      · rw [after]
        exact congrArg (· ++ grouping.errors) still
      · rw [← same.draft]
        exact leaves.draft
      · rw [← same.ready]
        exact leaves.ready
      · rw [← same.held]
        exact leaves.held
      · rw [← same.parked]
        exact leaves.parked
  · refine .inr ⟨error, fun s u place grouped => ?_⟩
    subst place
    refine fails_bind.mpr (.inr ⟨_, s, gives_draft.mpr ⟨rfl, rfl⟩, ?_⟩)
    refine fails_bind.mpr (.inr ⟨_, u, grouped, ?_⟩)
    refine fails_bind.mpr (.inr ⟨(), _, gives_modifyRun.mpr rfl, ?_⟩)
    refine fails_bind.mpr (.inr ⟨(), prepared u, gives_modifyDraft.mpr rfl, ?_⟩)
    exact fails_bind.mpr (.inl (fails (prepared u)))

/-! ### Passes one after another -/

/-- What is known of the bags that the object may ask for: those that are there have the outcomes
that are assigned to them. -/
def Agrees (job : Job σ) (step : ObjectStep σ) (type : ObjectType σ) (node : NodeId)
    (outcome : ArgumentKey → ArgumentsResult) (s : Stage σ) : Prop :=
  (step.grouper job type (s.run.draft.path node)).Agrees outcome step.selections s

/-- All bags that the object may ask for are there, with the outcomes that are assigned to them. -/
def Loaded (job : Job σ) (step : ObjectStep σ) (type : ObjectType σ) (node : NodeId)
    (outcome : ArgumentKey → ArgumentsResult) (s : Stage σ) : Prop :=
  (step.grouper job type (s.run.draft.path node)).Loaded outcome step.selections s

/-- The keys that the object may have to wait under from a stage on. -/
def pendingKeys (job : Job σ) (step : ObjectStep σ) (type : ObjectType σ) (node : NodeId)
    (s : Stage σ) : List ArgumentKey :=
  (step.grouper job type (s.run.draft.path node)).pendingKeys step.selections s

/-- What happens while the object waits under a key: the bag comes to its outcome, and so may
others; those that have come to a result keep it, and the object stays in its place. -/
structure Meanwhile (job : Job σ) (step : ObjectStep σ) (type : ObjectType σ) (node : NodeId)
    (outcome : ArgumentKey → ArgumentsResult) (key : ArgumentKey) (s t : Stage σ) : Prop where
  place : t.run.draft.path node = s.run.draft.path node
  kept : KeepsResults s t
  answered : ∃ result, t.run.arguments.get? key = some (.ready result)
  agrees : step.Agrees job type node outcome t

/-- A pass that was suspended: under which key, and the stages before and after it. -/
structure Suspension (σ : Type) where
  key : ArgumentKey
  before : Stage σ
  after : Stage σ

/-- The object gathers, waits, and gathers anew, again and again. -/
inductive Restarts (job : Job σ) (step : ObjectStep σ) (type : ObjectType σ) (node : NodeId)
    (outcome : ArgumentKey → ArgumentsResult) :
    Stage σ → List (Suspension σ) → Stage σ → Prop
  | refl (s : Stage σ) : Restarts job step type node outcome s [] s
  | again {s t u v : Stage σ} {key : ArgumentKey} {rest : List (Suspension σ)}
      (suspends : step.Suspends job type node key s t)
      (meanwhile : step.Meanwhile job type node outcome key t u)
      (behind : Restarts job step type node outcome u rest v) :
      Restarts job step type node outcome s (⟨key, s, t⟩ :: rest) v

variable {outcome : ArgumentKey → ArgumentsResult} {u v ready : Stage σ}
  {passes : List (Suspension σ)}

/-- A pass is suspended under a key that is asked for and has no result; or it fails as the pass
does that finds all bags there, or both end with the same. -/
theorem pass_cases (steady : job.Steady) (agrees : step.Agrees job type node outcome s)
    (loaded : step.Loaded job type node outcome ready)
    (place : ready.run.draft.path node = s.run.draft.path node) :
    (∃ inquiry t, step.Suspends job type node inquiry.key s t ∧
      (step.grouper job type (s.run.draft.path node)).Asks step.selections inquiry ∧
      ∀ result, t.run.arguments.get? inquiry.key ≠ some (.ready result)) ∨
    (∃ error, (step.collect job type node).Fails s error ∧
      (step.collect job type node).Fails ready error) ∨
    ∃ grouping below t t', (Fields.keys grouping.groups).Nodup ∧
      (step.collect job type node).Gives s .finished t ∧
      (step.collect job type node).Gives ready .finished t' ∧
      step.Completed job type node grouping below s t ∧
      step.Completed job type node grouping below ready t' := by
  unfold Loaded at loaded
  rw [place] at loaded
  cases Grouper.group_lockstep steady agrees loaded with
  | stops one stops asks missing =>
      rename_i answer t inquiry
      cases answer with
      | complete grouping => cases stops
      | waiting key =>
          injection stops with same
          exact .inl ⟨inquiry, t, suspends_iff.mpr (same ▸ one), asks, missing⟩
  | @fails error one other =>
      refine .inr (.inl ⟨error, ?_, ?_⟩)
      · exact fails_bind.mpr (.inr ⟨_, s, gives_draft.mpr ⟨rfl, rfl⟩, fails_bind.mpr (.inl one)⟩)
      · rw [← place] at other
        exact fails_bind.mpr (.inr ⟨_, ready, gives_draft.mpr ⟨rfl, rfl⟩,
          fails_bind.mpr (.inl other)⟩)
  | @same answer t t' one other goes _ _ =>
      cases answer with
      | waiting key => cases goes
      | complete grouping =>
          have distinct := Grouper.nodup_keys one
          rcases collect_complete job step type node (s.run.draft.path node) grouping with
            ⟨below, ends⟩ | ⟨error, fails⟩
          · obtain ⟨t, gives, gathered⟩ := ends s _ rfl one
            obtain ⟨t', gives', gathered'⟩ := ends ready _ place other
            exact .inr (.inr ⟨grouping, below, t, t', distinct, gives, gives', gathered, gathered'⟩)
          · exact .inr (.inl ⟨error, fails s _ rfl one, fails ready _ place other⟩)

/-- A suspended pass starts bags and does nothing else. -/
theorem Suspends.kept {key : ArgumentKey} (suspends : step.Suspends job type node key s t) :
    KeepsResults s t ∧ SameTree s t ∧ SameErrors s t := by
  have grouped := suspends_iff.mp suspends
  exact ⟨Grouper.keeps_group _ _ _ _ _ grouped, Grouper.keeps_group _ _ _ _ _ grouped,
    Grouper.keeps_group _ _ _ _ _ grouped⟩

/-- What holds of an object that has been suspended several times. -/
structure Restarted (job : Job σ) (step : ObjectStep σ) (type : ObjectType σ) (node : NodeId)
    (outcome : ArgumentKey → ArgumentsResult) (passes : List (Suspension σ)) (s v : Stage σ) :
    Prop where
  agrees : step.Agrees job type node outcome v
  place : v.run.draft.path node = s.run.draft.path node
  kept : KeepsResults s v
  distinct : (passes.map (·.key)).Nodup
  asked : ∀ pass ∈ passes, ∃ inquiry, inquiry.key = pass.key ∧
    (step.grouper job type (s.run.draft.path node)).Asks step.selections inquiry ∧
    ∀ result, s.run.arguments.get? inquiry.key ≠ some (.ready result)
  idle : ∀ pass ∈ passes, SameTree pass.before pass.after ∧ SameErrors pass.before pass.after
  answered : ∀ pass ∈ passes, ∃ result, v.run.arguments.get? pass.key = some (.ready result)

theorem Restarts.restarted (steady : job.Steady) (loaded : step.Loaded job type node outcome ready)
    (restarts : step.Restarts job type node outcome s passes v) :
    ready.run.draft.path node = s.run.draft.path node → step.Agrees job type node outcome s →
      step.Restarted job type node outcome passes s v := by
  induction restarts with
  | refl s =>
      intro _ agrees
      exact ⟨agrees, rfl, fun _ _ there => there, .nil, nofun, nofun, nofun⟩
  | @again s t u v key rest suspends meanwhile behind ih =>
      intro place agrees
      obtain ⟨kept, same, still⟩ := suspends.kept
      have onward : KeepsResults s u := fun _ _ there => meanwhile.kept _ _ (kept _ _ there)
      have stays : u.run.draft.path node = s.run.draft.path node := by
        rw [meanwhile.place, same.draft]
      have later := ih (place.trans stays.symm) meanwhile.agrees
      obtain ⟨result, answered⟩ := meanwhile.answered
      -- The pass is the one that lockstep finds, so its key is asked for and has no result yet.
      have own : ∃ inquiry, inquiry.key = key ∧
          (step.grouper job type (s.run.draft.path node)).Asks step.selections inquiry ∧
          ∀ result, s.run.arguments.get? inquiry.key ≠ some (.ready result) := by
        obtain ⟨depth, gives⟩ := suspends
        rcases pass_cases steady agrees loaded place with
          ⟨inquiry, t', ⟨depth', gives'⟩, asks, missing⟩ | ⟨error, fails, -⟩ |
            ⟨grouping, below, t', -, -, gives', -⟩
        · obtain ⟨same_key, rfl⟩ := gives'.unique gives
          injection same_key with _ _ same_key
          injection same_key with same_key
          exact ⟨inquiry, same_key, asks, fun result there => missing result (kept _ _ there)⟩
        · exact absurd fails (gives.not_fails error)
        · cases (gives'.unique gives).1
      refine ⟨later.agrees, later.place.trans stays, ?_, ?_, ?_, ?_, ?_⟩
      · exact fun _ _ there => later.kept _ _ (onward _ _ there)
      · refine List.nodup_cons.mpr ⟨?_, later.distinct⟩
        intro again
        obtain ⟨pass, mem, same_key⟩ := List.mem_map.mp again
        obtain ⟨inquiry, asked, -, missing⟩ := later.asked pass mem
        exact missing result (by rw [asked, same_key]; exact answered)
      · intro pass mem
        rcases List.mem_cons.mp mem with rfl | mem
        · exact own
        · obtain ⟨inquiry, asked, asks, missing⟩ := later.asked pass mem
          rw [stays] at asks
          exact ⟨inquiry, asked, asks, fun result there => missing result (onward _ _ there)⟩
      · intro pass mem
        rcases List.mem_cons.mp mem with rfl | mem
        · exact ⟨same, still⟩
        · exact later.idle pass mem
      · intro pass mem
        rcases List.mem_cons.mp mem with rfl | mem
        · exact ⟨result, later.kept _ _ answered⟩
        · exact later.answered pass mem

/-- However often an object is suspended as it gathers, whichever bags it waits for and in whatever
order they come: it waits under each key once at most, and suspended passes report nothing and leave
no steps. The next pass is suspended under a key that is new, or it does what a pass does at a stage
at which all bags are there: it fails with the same error, or it reports the same errors and leaves
the same groups to the same steps. -/
theorem gathering_restarts (steady : job.Steady) (agrees : step.Agrees job type node outcome s)
    (restarts : step.Restarts job type node outcome s passes v)
    (loaded : step.Loaded job type node outcome ready)
    (place : ready.run.draft.path node = s.run.draft.path node) :
    (passes.map (·.key)).Nodup ∧
    (∀ pass ∈ passes, pass.key ∈ step.pendingKeys job type node s ∧
      SameTree pass.before pass.after ∧ SameErrors pass.before pass.after) ∧
    passes.length ≤ (step.pendingKeys job type node s).length ∧
    ((∃ key t, step.Suspends job type node key v t ∧ key ∈ step.pendingKeys job type node s ∧
        key ∉ passes.map (·.key)) ∨
      (∃ error, (step.collect job type node).Fails v error ∧
        (step.collect job type node).Fails ready error) ∨
      ∃ grouping below t t', (Fields.keys grouping.groups).Nodup ∧
        (step.collect job type node).Gives v .finished t ∧
        (step.collect job type node).Gives ready .finished t' ∧
        step.Completed job type node grouping below v t ∧
        step.Completed job type node grouping below ready t') := by
  have restarted := restarts.restarted steady loaded place agrees
  -- The keys of the passes are distinct and all among those without a result at first, which bounds
  -- how many passes there are.
  have pending : ∀ pass ∈ passes, pass.key ∈ step.pendingKeys job type node s := by
    intro pass mem
    obtain ⟨inquiry, same, asks, missing⟩ := restarted.asked pass mem
    exact same ▸ Grouper.mem_pendingKeys asks missing
  refine ⟨restarted.distinct, fun pass mem => ⟨pending pass mem, restarted.idle pass mem⟩, ?_, ?_⟩
  · have within : passes.map (·.key) ⊆ step.pendingKeys job type node s := by
      intro key mem
      obtain ⟨pass, member, rfl⟩ := List.mem_map.mp mem
      exact pending pass member
    simpa using restarted.distinct.length_le_of_subset within
  -- The next pass does what a pass does at the stage at which all bags are there, unless it is
  -- suspended: then under a key that had no answer, so under a new one.
  · rcases pass_cases steady restarted.agrees loaded (place.trans restarted.place.symm) with
      ⟨inquiry, t, suspends, asks, missing⟩ | ended
    · have unanswered : ∀ result, v.run.arguments.get? inquiry.key ≠ some (.ready result) :=
        fun result there => missing result (suspends.kept.1 _ _ there)
      rw [restarted.place] at asks
      refine .inl ⟨inquiry.key, t, suspends, ?_, ?_⟩
      · exact Grouper.mem_pendingKeys asks fun result there =>
          unanswered result (restarted.kept _ _ there)
      · intro mem
        obtain ⟨pass, mem, same⟩ := List.mem_map.mp mem
        obtain ⟨result, there⟩ := restarted.answered pass mem
        exact unanswered result (same ▸ there)
    · exact .inr ended

/-! ### Two doors -/

/-- A directive that leaves nodes out. -/
def closed : DirectiveDefinition Unit where
  name := "closed"
  include? := some fun _ _ => pure false

def doorSchema : Schema Unit where
  types := []
  queryType := "Query"
  mutationType? := none
  subscriptionType? := none
  directives := [("closed", closed)]
  possible := []
  hooks := {}

def doorType : ObjectType Unit where
  name := "Query"
  fields := [("door", { name := "door", type := .named "String" })]

/-- The selections `{ door @closed back: door }`. -/
def doorOperation : Operation where
  name? := none
  kind := .query
  definitions := []
  selections :=
    [.field ⟨none, "door", [], [⟨"closed", [], ⟨1, 8⟩, 7⟩], [], ⟨1, 3⟩, 2⟩,
      .field ⟨some "back", "door", [], [], [], ⟨1, 16⟩, 15⟩]
  location := ⟨1, 1⟩

def doorJob : Job Unit where
  schema := doorSchema
  operation := doorOperation
  fragments := []
  query := ⟨[], none, none⟩
  root := .null

def doors : ObjectStep Unit :=
  root doorJob doorType ⟨.null, .data 0⟩

def doorKey : ArgumentKey := ⟨7, .directive "closed", none⟩

/-- The stage at which a bag is under the key of the directive. -/
def doorStage (bag : SharedArguments Unit) : Stage Unit :=
  ⟨⟨Draft.new .null, [], [(doorKey, bag)], [], [], 0, 1⟩, ⟨(), fun _ state => state, []⟩⟩

def doorOutcome (_ : ArgumentKey) : ArgumentsResult :=
  .ok .empty

/-- The bag while it is waited for. -/
def doorWait : SharedArguments Unit :=
  .pending (.start (.done (.ok .empty)))

/-- The only guard is the one that leaves nodes out. -/
theorem guard_closed {directive : Directive} {definition : DirectiveDefinition Unit}
    {keeps : Arguments → QueryContext → Action Unit Bool}
    (guard : directive.guard? doorJob = some (definition, keeps)) :
    definition = closed ∧ keeps = fun _ _ => pure false := by
  obtain ⟨found, has⟩ := Directive.guard?_eq_some.mp guard
  have only : closed = definition := by
    have found : Fields.get? [("closed", closed)] directive.name = some definition := found
    unfold Fields.get? at found
    split at found
    · exact Option.some.inj found
    · cases found
  subst only
  exact ⟨rfl, (Option.some.inj has).symm⟩

theorem doorJob_steady : doorJob.Steady where
  guards directive definition keeps guard arguments := by
    rw [(guard_closed guard).2]
    exact fun _ _ => rfl
  rescues _ _ _ _ := rfl

/-- The only key that the object asks for is that of the directive. -/
theorem doors_asks {path : Path} {inquiry : Inquiry Unit}
    (asks : (doors.grouper doorJob doorType path).Asks doors.selections inquiry) :
    inquiry.key = doorKey := by
  obtain ⟨reached, written, guard⟩ := asks
  rename_i selection directive definition keeps
  obtain ⟨rfl, -⟩ := guard_closed guard
  have among := reached.mem_nested
  simp only [doors, root, doorJob, doorOperation, grouper, Fields.values, Selection.nested,
    Selection.inPlace, List.append_nil, List.nil_append, List.map_nil, List.flatMap_nil,
    List.mem_cons, List.not_mem_nil, or_false] at among
  rcases among with rfl | rfl
  · obtain rfl := List.mem_singleton.mp written
    rfl
  · cases written

/-- What is known of the bag of the directive is known of all that may be asked for. -/
theorem doors_finds {holds : ArgumentKey → SharedArguments Unit → Prop} {bag : SharedArguments Unit}
    (fine : holds doorKey bag) {path : Path} :
    (doors.grouper doorJob doorType path).Finds holds doors.selections (doorStage bag) := by
  intro inquiry asks
  have there : (doorStage bag).run.arguments.get? inquiry.key = some bag := by
    rw [doors_asks asks]
    rfl
  unfold Inquiry.Finds
  rw [there, doors_asks asks]
  exact fine

/-- The pass has ended, and one field is left to a step. -/
def leavesOne : Except FatalError (Progress Unit) × Stage Unit → Bool
  | (.ok .finished, stage) => stage.run.ready.length == 1
  | _ => false

theorem gathering_restarts_doors :
    doors.Restarts doorJob doorType Draft.root doorOutcome (doorStage doorWait)
      [⟨doorKey, doorStage doorWait, doorStage doorWait⟩] (doorStage (.ready (.ok .empty))) ∧
    doorKey ∈ doors.pendingKeys doorJob doorType Draft.root (doorStage doorWait) ∧
    ∃ grouping below t, (Fields.keys grouping.groups).Nodup ∧
      (doors.collect doorJob doorType Draft.root).Gives (doorStage (.ready (.ok .empty)))
        .finished t ∧
      doors.Completed doorJob doorType Draft.root grouping below
        (doorStage (.ready (.ok .empty))) t ∧ t.run.ready.length = 1 := by
  have agrees : doors.Agrees doorJob doorType Draft.root doorOutcome (doorStage doorWait) := by
    unfold Agrees Grouper.Agrees
    exact doors_finds fun result same => by cases same
  have loaded : doors.Loaded doorJob doorType Draft.root doorOutcome
      (doorStage (.ready (.ok .empty))) := by
    unfold Loaded Grouper.Loaded
    exact doors_finds rfl
  have suspends : doors.Suspends doorJob doorType Draft.root doorKey (doorStage doorWait)
      (doorStage doorWait) := ⟨0, by cbv⟩
  have meanwhile : doors.Meanwhile doorJob doorType Draft.root doorOutcome doorKey
      (doorStage doorWait) (doorStage (.ready (.ok .empty))) := by
    refine ⟨rfl, ?_, ⟨_, rfl⟩, ?_⟩
    · intro key result there
      unfold doorStage ArgumentStore.get? at there
      split at there
      · cases there
      · cases there
    · unfold Agrees Grouper.Agrees
      refine doors_finds fun result same => ?_
      injection same with same
      exact same.symm
  have restarts := Restarts.again suspends meanwhile (.refl _)
  have ran : leavesOne ((doors.collect doorJob doorType Draft.root).runAt
      (doorStage (.ready (.ok .empty)))) = true := by cbv
  obtain ⟨-, pending, -, next⟩ := gathering_restarts doorJob_steady agrees restarts loaded rfl
  refine ⟨restarts, (pending _ List.mem_cons_self).1, ?_⟩
  rcases next with ⟨key, t, ⟨depth, gives⟩, -⟩ | ⟨error, fails, -⟩ |
    ⟨grouping, below, t, -, distinct, gives, -, completed, -⟩
  · rw [show _ = _ from gives] at ran
    cases ran
  · unfold Engine.Fails at fails
    generalize (doors.collect doorJob doorType Draft.root).runAt _ = result at ran fails
    obtain ⟨answer, stage⟩ := result
    obtain rfl : answer = .error error := fails
    cases ran
  · rw [show _ = _ from gives] at ran
    exact ⟨grouping, below, t, distinct, gives, completed, by simpa [leavesOne] using ran⟩

end ObjectStep

end GraphExec
