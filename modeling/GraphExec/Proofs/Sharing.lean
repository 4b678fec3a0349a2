import Mathlib
import GraphExec.Proofs.Beginning
import GraphExec.Proofs.Evaluation
import GraphExec.Proofs.Pure.Bags

/-!
# Arguments are coerced once

The fields, items, directives and gathering passes of a run that ask for the arguments under one key
share one coercion and its one result. If the code of the application is pure, this is what the own
arguments of each come to.
-/

namespace GraphExec

variable {σ : Type}

/-- A run of a job in some order of its moves, with a record of what has to do with its store of
bags. What surrounds it is of a kind, at first and whenever it becomes another. -/
def Job.Recorded (job : Job σ) (fits : World σ → Prop) (events : List (BagEvent σ))
    (last : Weave σ) : Prop :=
  ∃ type begun seen, job.schema.rootType? job.operation.kind = some type ∧ fits begun ∧
    (∀ world, seen (.changed world) → fits world) ∧
    Weave.Consults job seen (.start job type begun) events last

/-- The bags of a run are shared. Whoever is given one that was waited for has asked for it. Under one
key are the arguments of one node, by one definition, and of one object if they load any. Whatever
moves are made later, no bag is lost or begun anew. -/
structure Job.Shares (job : Job σ) (events : List (BagEvent σ)) (last : Weave σ) : Prop
    extends Sharing job (Weave.consultations events) (Weave.given events) last.run.arguments where
  asked : ∀ front back step key result, events = front ++ .answer step key result :: back →
    Weave.Asked front step key
  own : ∀ c ∈ Weave.consultations events, ∀ d ∈ Weave.consultations events,
    c.inquiry.key = d.inquiry.key → c.inquiry.offset = d.inquiry.offset ∧
      c.inquiry.owner = d.inquiry.owner ∧ (c.inquiry.loads = true → c.inquiry.parent = d.inquiry.parent)
  becomes : ∀ seen later, Weave.Path job seen last later →
    last.run.arguments.Becomes later.run.arguments

theorem Job.Recorded.shares {job : Job σ} {fits : World σ → Prop} {events : List (BagEvent σ)}
    {last : Weave σ} (recorded : job.Recorded fits events last) : job.Shares events last := by
  obtain ⟨type, begun, seen, -, -, -, consults⟩ := recorded
  have none_yet : (Weave.start job type begun).run.arguments = [] := by
    unfold Weave.start Run.start
    split
    rfl
  exact ⟨consults.sharing none_yet, (consults.asked rfl).answered,
    fun _ _ _ _ same => Inquiry.key_eq same, fun _ _ path => path.becomes⟩

namespace Schema

variable {schema : Schema σ} {loads : Loads}

/-- Every run of a prepared request, in whatever order its moves are made, starts at most one
coercion under a key. All that ask under the key are given its one result, which is in the store
from then on; those that wait for it have asked for it. With pure application code this is what the
arguments that are written at the node come to, coerced on their own. The runs of requests that are
executed together are among these, at any time. -/
theorem arguments_shared (finished : schema.Finished) (requests : List Request)
    (apart : ∀ request ∈ requests, request.document.Apart) (world : World σ) :
    (∀ (i : Nat) job events last, (schema.prepared requests world).1[i]? = some (.ok job) →
      job.Recorded (fun _ => True) events last → job.Shares events last ∧
      ∀ loads state, schema.Pure loads → job.Recorded (·.Keywise loads) events last →
        ∀ c ∈ Weave.consultations events, ∀ result,
          (c.inquiry.key, result) ∈ Weave.given events →
          Setting.bag ⟨job, loads, state⟩ c.inquiry.owner c.inquiry.definitions
            c.inquiry.written = result) ∧
    ∀ config first now (owner : Nat) job, schema.Begins config requests world first →
      first.Visits now → (readyJobs (schema.prepared requests world).1)[owner]? = some job →
      ∃ events weave, now.Shares owner job weave ∧ job.Recorded (fun _ => True) events weave ∧
        ∀ loads, schema.Pure loads → world.Keywise loads →
          job.Recorded (·.Keywise loads) events weave := by
  refine ⟨fun i job events last place recorded => ⟨recorded.shares, ?_⟩,
    fun config first now owner job begins visits place => ?_⟩
  -- With pure application code every bag is driven by the moves of its own coercion, wherever they
  -- stand among the others.
  · intro loads state pure ⟨type, begun, seen, known, keywise, changes, consults⟩ c mem result gave
    obtain ⟨request, found, of_request⟩ := job_of_prepared place
    have sound : Setting.Sound ⟨job, loads, state⟩ (job.Tells loads) :=
      Setting.sound (of_request.same ▸ pure) (of_request.same ▸ finished.named)
        ((apart request (List.mem_of_getElem? found)).job of_request)
    have none_yet : (Weave.start job type begun).run.arguments = [] := by
      unfold Weave.start Run.start
      split
      rfl
    exact consults.given_eq sound none_yet (Weave.pure_start sound.fine known keywise) changes mem
      gave
  -- The share of a run in a schedule is a path of its own moves, and the schedule changes the world
  -- in between only as pure moves do.
  · obtain ⟨type, weave, known, path, shares⟩ := begins.path place visits
    obtain ⟨events, consults⟩ := path.consults
    refine ⟨events, weave, shares, ⟨type, _, _, known, trivial, fun _ _ => trivial, consults⟩,
      fun loads pure keywise => ?_⟩
    obtain ⟨runs, begun, rfl⟩ := begins
    have scheduled := pure.schedule finished.named keywise begun config.nonblocking
    exact ⟨type, _, _, known, pure.prepared requests keywise, fun _ saw => scheduled.saw saw,
      consults⟩

/-- A directive whose argument loads an object, run for each item of a list. -/
def stamp : DirectiveDefinition Unit where
  name := "stamp"
  arguments :=
    [("by",
      { name := "by"
        type := .named "ID"
        loads? := some ("Person", fun _ _ =>
          pure (.ok (.later ((Lazy.load ⟨⟨0, ""⟩, mirror, "ada"⟩).mapOk .data)))) })]
  resolveEach? := some fun _ => pure (.ok (.ready .proceed))

/-- A type with a field that is a list of two. -/
def marksType : ObjectType Unit where
  name := "Query"
  fields :=
    [("marks",
      { name := "marks"
        type := .list (.named "String")
        resolve? := some fun _ => pure
          { result := .ok (.value (.list [.string "a", .string "b"])) } })]

def stamps : SchemaBuilder Unit :=
  ((SchemaBuilder.new "Query").register (.object marksType)).directive stamp

/-- The operation `{ marks @stamp(by: "ada") }`. -/
def stampsOperation : Operation where
  name? := none
  kind := .query
  definitions := []
  selections :=
    [.field ⟨none, "marks", [], [⟨"stamp", [("by", .string "ada")], ⟨1, 9⟩, 8⟩], [], ⟨1, 3⟩, 2⟩]
  location := ⟨1, 1⟩

def stampsRequest : Request :=
  { document := ⟨.single stampsOperation, []⟩ }

theorem stampsRequest_apart : stampsRequest.document.Apart := by
  have marks : Ascending 0 (stampsOperation.selections.flatMap (·.marks)) 30 :=
    .cons (Nat.zero_le _) (Nat.lt_succ_self 2) (.cons (by decide) (Nat.lt_succ_self 8)
      (.nil (by decide)))
  have outer : Spans 0 stampsOperation.selections 30 :=
    .cons marks (.nil le_rfl) (.nil le_rfl)
  have spans : Spans 0 ([Definition.operation stampsOperation].map Definition.asOne) 30 :=
    .cons (.nil le_rfl) outer (.nil le_rfl)
  exact Document.apart_of_spans spans rfl

theorem stamp_pure : stamp.Pure fun _ key => .string key where
  arguments := by
    intro input mem
    obtain rfl := List.mem_singleton.mp mem
    refine ⟨nofun, ?_⟩
    rintro type load same value query
    obtain ⟨rfl, rfl⟩ := Prod.mk.inj (Option.some.inj same)
    refine Action.settled_done fun answer same => ?_
    injection same with same
    subst same
    have loaded : (Lazy.load ⟨⟨0, ""⟩, mirror, "ada"⟩).Answers (fun _ key => .string key)
        (.ok (.string "ada")) := ⟨fun keys => rfl, rfl⟩
    exact ⟨_, loaded.bind rfl, fun _ _ => trivial⟩
  includes := nofun
  resolves := nofun
  resolvesEach := by
    rintro hook rfl_hook context
    obtain rfl := Option.some.inj rfl_hook
    refine Action.settled_done fun answer same => ?_
    injection same with same
    exact same ▸ trivial

theorem stamps_pure : stamps.Pure fun _ key => .string key := by
  have shown : (TypeDefinition.object marksType).Pure fun _ key => .string key := by
    refine ObjectType.Pure.mk (fun field mem => ?_) nofun
    obtain rfl := List.mem_singleton.mp mem
    exact FieldDefinition.pure_constant _ _ (.value _)
  exact ((SchemaBuilder.pure_new _).register shown).directive stamp_pure

/-- A run has one bag, which is there. -/
def hasOneBag (now : Schedule Unit) : Bool :=
  match now.runs with
  | [(_, run)] =>
    match run.arguments with
    | [(key, .ready _)] => key.offset == 8
    | _ => false
  | _ => false

theorem arguments_shared_stamps : ∃ schema job first now events weave key result,
    stamps.finish = .ok schema ∧
      schema.Begins {} [stampsRequest] ⟨(), fun _ state => state, []⟩ first ∧
      first.Visits now ∧ now.Shares 0 job weave ∧ job.Shares events weave ∧
      (key, result) ∈ Weave.given events ∧ key.offset = 8 ∧
      ∃ c ∈ Weave.consultations events, c.inquiry.key = key ∧ c.Starts ∧
        Setting.bag ⟨job, fun _ key => .string key, ()⟩ c.inquiry.owner c.inquiry.definitions
          c.inquiry.written = result := by
  have ran : stamps.comesTo {} [stampsRequest] ⟨(), fun _ state => state, []⟩ 19 hasOneBag =
      true := by cbv
  obtain ⟨schema, first, now, finish, begins, visits, holds⟩ := SchemaBuilder.visits_of_comesTo ran
  have apart : ∀ request ∈ [stampsRequest], request.document.Apart := by
    intro request mem
    obtain rfl := List.mem_singleton.mp mem
    exact stampsRequest_apart
  have finished : schema.Finished := ⟨stamps, .directive (.register (.new "Query") _) _, finish⟩
  have pure := stamps_pure.finish finish
  have keywise : World.Keywise (fun _ key => .string key)
      (⟨(), fun _ state => state, []⟩ : World Unit) := by
    intro id state found
    cases found
  obtain ⟨runs, shared⟩ := arguments_shared finished [stampsRequest] apart
    ⟨(), fun _ state => state, []⟩
  unfold hasOneBag at holds
  split at holds
  · rename_i job run only
    split at holds
    · rename_i key result bag
      have here : now.runs[0]? = some (job, run) := by rw [only]; rfl
      obtain ⟨place, -⟩ := begins.job visits here
      obtain ⟨events, weave, shares, recorded, keywise_record⟩ :=
        shared {} first now 0 job begins visits place
      obtain ⟨prepared, mem, made⟩ := List.mem_filterMap.mp (List.mem_of_getElem? place)
      obtain ⟨i, bound, at_i⟩ := List.getElem_of_mem mem
      obtain rfl : prepared = .ok job := by
        cases prepared with
        | error error => cases made
        | ok other => exact congrArg Except.ok (Option.some.inj made)
      obtain ⟨own, pure_own⟩ := runs i job events weave
        (List.getElem?_eq_some_iff.mpr ⟨bound, at_i⟩) recorded
      have there : weave.run.arguments.get? key = some (.ready result) := by
        rw [(shares.same_run here).2, bag]
        exact if_pos rfl
      have gave := own.told key result there
      obtain ⟨c, asked, same, starts, -⟩ := own.begun key _ there
      exact ⟨schema, job, first, now, events, weave, key, result, finish, begins, visits, shares,
        own, gave, by simpa using holds, c, asked, same, starts,
        pure_own _ () pure (keywise_record _ pure keywise) c asked result (same ▸ gave)⟩
    · cases holds
  · cases holds

end Schema

end GraphExec
