import Mathlib
import GraphExec.Proofs.Pure.Builders
import GraphExec.Proofs.Pure.Requests

/-!
# Runs come to what the recursion comes to

A request to pure application code answers what direct recursion over its operation answers,
whichever of its steps is run first and whichever is resumed first.
-/

namespace GraphExec

variable {σ : Type}

/-- The data are those of the one verdict that the recursion comes to. -/
def Setting.Shows (setting : Setting σ) (data : Json) : Prop :=
  ∃ verdict, (∀ other, setting.Answers other ↔ other = verdict) ∧ data = verdict.data

/-- A run of a job has made its moves in some order, to its end. What surrounded it, at first and
whenever it became another, loads every key to what the key stands for. -/
def Job.Ends (job : Job σ) (loads : Loads) (last : Weave σ) : Prop :=
  ∃ type world seen, job.schema.rootType? job.operation.kind = some type ∧
    world.Keywise loads ∧ (∀ world, seen (.changed world) → world.Keywise loads) ∧
    Weave.Path job seen (.start job type world) last ∧ last.Finished

/-- What has ended shows what the recursion comes to. -/
theorem Setting.Sound.shows {setting : Setting σ} {good : ArgumentKey → ArgumentsResult → Prop}
    (sound : setting.Sound good) {last : Weave σ} (ends : setting.job.Ends setting.loads last) :
    setting.Shows last.run.draft.toJson := by
  obtain ⟨type, world, seen, known, keywise, changes, path, finished⟩ := ends
  obtain ⟨verdict, answers, data⟩ := path.answers sound known keywise changes finished
  refine ⟨verdict, fun other => ⟨fun others => others.unique answers, ?_⟩, data⟩
  rintro rfl
  exact answers

namespace Schema

variable {schema : Schema σ} {loads : Loads}

/-- Data that an execution answers are those of a run that has ended. -/
theorem Pure.ends (pure : schema.Pure loads) (named : SchemaBuilder.Named schema.types)
    {config : Config} {fuel : Nat} {requests : List Request} {world after : World σ}
    {responses : List Response} {i : Nat} {response : Response} {data : Json}
    (keywise : world.Keywise loads)
    (executed : schema.executeAll? config fuel requests world = some (.ok responses, after))
    (answered : responses[i]? = some response) (shows : response.data? = some data) :
    ∃ job last, (schema.prepared requests world).1[i]? = some (.ok job) ∧
      job.Ends loads last ∧ data = last.run.draft.toJson := by
  obtain ⟨runs, last, executes⟩ := executes_of_executeAll? executed
  obtain ⟨job, type, weave, place, known, path, finished, rfl⟩ := executes.path answered shows
  have scheduled := pure.schedule named keywise executes.starts config.nonblocking
  injection shows with shows
  exact ⟨job, weave, place, ⟨type, _, _, known, pure.prepared requests keywise,
    fun _ saw => scheduled.saw saw, path, finished⟩, shows.symm⟩

/-- Every run of a prepared request to pure application code that ends shows what recursion over the
operation comes to, in whatever order its moves were made; among them are the runs of requests that
are executed together. The nodes of a document are told apart by their offsets, as they are in every
document that is read from a text (`Document.apart_of_parse`). -/
theorem data_of_recursion (finished : schema.Finished) (pure : schema.Pure loads) (state : σ)
    (requests : List Request) (apart : ∀ request ∈ requests, request.document.Apart) :
    (∀ world (i : Nat) job last, (schema.prepared requests world).1[i]? = some (.ok job) →
      job.Ends loads last → Setting.Shows ⟨job, loads, state⟩ last.run.draft.toJson) ∧
    ∀ (config : Config) fuel world (responses : List Response) after (i : Nat)
      (response : Response) data, world.Keywise loads →
      schema.executeAll? config fuel requests world = some (.ok responses, after) →
      responses[i]? = some response → response.data? = some data →
      ∃ job, (schema.prepared requests world).1[i]? = some (.ok job) ∧
        Setting.Shows ⟨job, loads, state⟩ data := by
  have ended : ∀ world (i : Nat) job last, (schema.prepared requests world).1[i]? = some (.ok job) →
      job.Ends loads last → Setting.Shows ⟨job, loads, state⟩ last.run.draft.toJson := by
    intro world i job last place ends
    obtain ⟨request, found, of_request⟩ := job_of_prepared place
    have sound : Setting.Sound ⟨job, loads, state⟩ (job.Tells loads) :=
      Setting.sound (of_request.same ▸ pure) (of_request.same ▸ finished.named)
        ((apart request (List.mem_of_getElem? found)).job of_request)
    exact sound.shows ends
  refine ⟨ended, fun config fuel world responses after i response data keywise executed answered
    shows => ?_⟩
  obtain ⟨job, last, place, ends, rfl⟩ := pure.ends finished.named keywise executed answered shows
  exact ⟨job, place, ended world i job last place ends⟩

/-- A source whose keys stand for themselves. -/
def mirror : BatchSource Unit where
  name := "mirror"
  fetch keys := .pause (.done (.ok (keys.map .string)))

/-- A name that is loaded. -/
def loadedName : ResolvedValue Unit :=
  .lazy ((Lazy.load ⟨⟨0, ""⟩, mirror, "ada"⟩).mapOk .value)

/-- A type with a field that is loaded, and with one whose objects lack a field. -/
def profileType : ObjectType Unit where
  name := "Query"
  fields :=
    [("name",
      { name := "name"
        type := .nonNull (.named "String")
        resolve? := some fun _ => pure { result := .ok loadedName } }),
      ("owner",
      { name := "owner"
        type := .named "Owner"
        resolve? := some fun _ => pure { result := .ok (.value (.object [])) } })]

/-- A type with a field that may not be null. -/
def ownerType : ObjectType Unit where
  name := "Owner"
  fields := [("id", { name := "id", type := .nonNull (.named "ID") })]

def profile : SchemaBuilder Unit :=
  ((SchemaBuilder.new "Query").register (.object profileType)).register (.object ownerType)

/-- The operation `{ name owner { id } }`. -/
def profileOperation : Operation where
  name? := none
  kind := .query
  definitions := []
  selections :=
    [.field ⟨none, "name", [], [], [], ⟨1, 3⟩, 2⟩,
      .field ⟨none, "owner", [], [], [.field ⟨none, "id", [], [], [], ⟨1, 16⟩, 15⟩], ⟨1, 8⟩, 7⟩]
  location := ⟨1, 1⟩

def profileRequest : Request :=
  { document := ⟨.single profileOperation, []⟩ }

theorem profileRequest_apart : profileRequest.document.Apart := by
  have inner : Spans 8 [.field ⟨none, "id", [], [], [], ⟨1, 16⟩, 15⟩] 18 :=
    .cons (.cons (by decide) (Nat.lt_succ_self 15) (.nil (by decide))) (.nil le_rfl) (.nil le_rfl)
  have outer : Spans 0 profileOperation.selections 18 :=
    .cons (.cons (Nat.zero_le _) (Nat.lt_succ_self 2) (.nil le_rfl)) (.nil le_rfl)
      (.cons (.cons (by decide) (Nat.lt_succ_self 7) (.nil le_rfl)) inner (.nil le_rfl))
  have spans : Spans 0 ([Definition.operation profileOperation].map Definition.asOne) 18 :=
    .cons (.nil le_rfl) outer (.nil le_rfl)
  exact Document.apart_of_spans spans rfl

theorem profile_pure : profile.Pure fun _ key => .string key := by
  have loaded : (Lazy.load ⟨⟨0, ""⟩, mirror, "ada"⟩).Answers (fun _ key => .string key)
      (.ok (.string "ada")) := ⟨fun keys => rfl, rfl⟩
  have name : loadedName.Pure fun _ key => .string key := by
    refine .lazy (loaded.bind rfl) fun v same => ?_
    injection same with same
    exact same ▸ .value _
  have shown : (TypeDefinition.object profileType).Pure fun _ key => .string key := by
    refine ObjectType.Pure.mk (fun field mem => ?_) nofun
    rcases List.mem_pair.mp mem with rfl | rfl
    · exact FieldDefinition.pure_constant _ _ name
    · exact FieldDefinition.pure_constant _ _ (.value _)
  have owner : (TypeDefinition.object ownerType).Pure fun _ key => .string key := by
    refine ObjectType.Pure.mk (fun field mem => ?_) nofun
    obtain rfl := List.mem_singleton.mp mem
    exact FieldDefinition.pure_default _ _
  exact ((SchemaBuilder.pure_new _).register shown).register owner

theorem data_of_recursion_profile : ∃ schema job last, profile.finish = .ok schema ∧
    job.Of schema profileRequest ∧ job.Ends (fun _ key => .string key) last ∧
    Setting.Shows ⟨job, fun _ key => .string key, ()⟩ last.run.draft.toJson ∧
    Setting.Shows ⟨job, fun _ key => .string key, ()⟩
      (.object [("name", .string "ada"), ("owner", .null)]) := by
  have ran : profile.shows? 80 profileRequest ⟨(), fun _ state => state, []⟩ =
      some (.object [("name", .string "ada"), ("owner", .null)]) := by cbv
  obtain ⟨schema, errors, after, finish, executed⟩ := SchemaBuilder.executed_of_shows? ran
  have apart : ∀ request ∈ [profileRequest], request.document.Apart := by
    intro request mem
    obtain rfl := List.mem_singleton.mp mem
    exact profileRequest_apart
  have finished : schema.Finished := ⟨profile, .register (.register (.new "Query") _) _, finish⟩
  have pure := profile_pure.finish finish
  have keywise : World.Keywise (fun _ key => .string key)
      (⟨(), fun _ state => state, []⟩ : World Unit) := by
    intro id state found
    cases found
  obtain ⟨runs, shown⟩ := data_of_recursion finished pure () [profileRequest] apart
  obtain ⟨job, last, place, ends, same⟩ :=
    pure.ends (i := 0) finished.named keywise executed rfl rfl
  obtain ⟨request, found, of_request⟩ := job_of_prepared place
  obtain rfl := Option.some.inj found
  refine ⟨schema, job, last, finish, of_request, ends, runs _ _ _ _ place ends, ?_⟩
  obtain ⟨other, place', shows⟩ := shown _ _ _ _ _ 0 _ _ keywise executed rfl rfl
  rw [place] at place'
  injection place' with place'
  injection place' with place'
  exact place' ▸ shows

end Schema

end GraphExec
