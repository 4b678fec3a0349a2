import Mathlib
import GraphExec.Proofs.Execution
import GraphExec.Proofs.Run.Falls

/-!
# Every error of a response is accounted for

The errors of a response are what the transitions of its run have reported: one for each way in which
a position at a live node has failed, for each error that a resolver has added, for each directive on a
selection that has failed in a pass that was complete, and for a root object that may not be shown. No
two transitions report of the same, and whatever has been replaced by a null that rose was reported of.
-/

namespace GraphExec

variable {σ : Type}

namespace Schema

/-- The errors of a response with data are what the transitions of its run have reported, in order.
No two of the transitions have reported of the same origin; and each node of the response that is dead
has died in one of them, with a null that rose from a position that it reported of, unless the root
object gave way in it. -/
theorem errors_accounted {schema : Schema σ} {config : Config} {fuel : Nat}
    {requests : List Request} {world after : World σ} {responses : List Response} {i : Nat}
    {response : Response} {data : Json}
    (executed : schema.executeAll? config fuel requests world = some (.ok responses, after))
    (answered : responses[i]? = some response) (shows : response.data? = some data) :
    ∃ job type begun log weave, (schema.prepared requests world).1[i]? = some (.ok job) ∧
      Weave.Logs job (schema.Saw config requests world i job) (.start job type begun) log weave ∧
      weave.Finished ∧ data = weave.run.draft.toJson ∧
      response.errors = (Weave.reports log).map (·.entry weave.run.draft) ∧
      log.Pairwise Weave.Apart ∧
      ∀ id : Nat, id < weave.run.draft.nodes.size → ¬ weave.run.draft.Alive id →
        ∃ transition ∈ log, Weave.Fells transition id ∧
          ((∃ failure, .failed failure ∈ transition.reports ∧
            transition.after.run.draft.Felled failure.node id) ∨
            transition.step.GivesUp job transition.before) := by
  obtain ⟨job, type, begun, weave, place, -, path, finished, rfl⟩ :=
    path_of_executeAll? executed answered shows
  obtain ⟨log, logs⟩ := path.logs
  have settled := Weave.settled_start job type begun
  obtain ⟨errors, -⟩ := logs.accounts settled
  injection shows with shows
  have fresh : ∀ id : Nat, id < (Weave.start job type begun).run.draft.nodes.size →
      (Weave.start job type begun).run.draft.Alive id := by
    intro id known
    obtain rfl : id = 0 := Nat.lt_one_iff.mp known
    rfl
  exact ⟨job, type, begun, log, weave, place, logs, finished, shows.symm, errors,
    (logs.apart settled).2, logs.fallen settled fresh⟩

/-- A schema whose one field answers a list that rules out null, of two errors and a null. -/
def brittle : SchemaBuilder Unit :=
  (SchemaBuilder.new "Query").register (.object
    { name := "Query"
      fields := [("xs",
        { name := "xs"
          type := .list (.nonNull (.named "Int"))
          resolve? := some fun _ => pure
            { result := .ok (.list [.value (.int 3), .error { message := "boom" }, .value .null,
                .error { message := "again" }]) } })] })

/-- The request `{ xs }`. -/
def brittleRequest : Request :=
  { document :=
      { operations := .single
          { name? := none
            kind := .query
            definitions := []
            selections := [.field ⟨none, "xs", [], [], [], ⟨1, 3⟩, 2⟩]
            location := ⟨1, 1⟩ }
        fragments := [] } }

/-- The first error nulls the list; what is found out of the other items is not reported. -/
theorem errors_accounted_brittle : ∃ schema job type begun log weave,
    brittle.finish = .ok schema ∧
      Weave.Logs job (schema.Saw {} [brittleRequest] ⟨(), fun _ state => state, []⟩ 0 job)
        (.start job type begun) log weave ∧
      weave.run.draft.toJson = .object [("xs", .null)] ∧
      (Weave.reports log).map (·.entry weave.run.draft) =
        [{ message := "boom", locations := [⟨1, 3⟩], path := some [.field "xs", .index 1] }] ∧
      log.Pairwise Weave.Apart := by
  have ran : brittle.responds? 40 brittleRequest ⟨(), fun _ state => state, []⟩ =
      some ⟨some (.object [("xs", .null)]),
        [{ message := "boom", locations := [⟨1, 3⟩], path := some [.field "xs", .index 1] }]⟩ := by
    cbv
  obtain ⟨schema, after, finish, executed⟩ := SchemaBuilder.executed_of_responds? ran
  obtain ⟨job, type, begun, log, weave, -, logs, -, data, errors, apart, -⟩ :=
    errors_accounted (i := 0) executed rfl rfl
  exact ⟨schema, job, type, begun, log, weave, finish, logs, data.symm, errors.symm, apart⟩

end Schema

end GraphExec
