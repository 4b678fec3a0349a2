import Mathlib
import GraphExec.Proofs.Draft.Followed
import GraphExec.Proofs.Execution
import GraphExec.Proofs.Run.Log

/-!
# Where the errors of a response point

Every failure of a position leaves a null in the data of the response, and the path to the position
leads there, as long as the places of lists are counted as they are shown. The path of an error counts
them as they were allocated. So it leads to the null unless a place before one on its way has been left
out, and then it may point at another item.
-/

namespace GraphExec

variable {σ : Type}

namespace Weave

variable {job : Job σ} {seen : Sight σ → Prop}

/-- What a finished run has reported as failed can be found in its data. -/
theorem Logs.leads_to_null {type : ObjectType σ} {world : World σ} {log : List (Transition σ)}
    {last : Weave σ} (logs : Logs job seen (start job type world) log last) {failure : Failure}
    (failed : .failed failure ∈ reports log) :
    last.run.draft.toJson.LeadsToNull (last.run.draft.shownPathTo failure.node failure.key) := by
  have settled := settled_start job type world
  obtain ⟨reaches, orderly⟩ := logs.path.leads settled
  have buried : (start job type world).run.draft.Buried := Draft.buried_new job.root
  obtain ⟨known, nulled⟩ := (logs.accounts settled).2 _ failed
  exact nulled.leads orderly.tidy.wf (reaches.buried settled.tidy buried) known

end Weave

namespace Schema

/-- The errors of a response with data are what the steps of its run have reported, and of each of
them that a position has failed with a null is found in the data: on the way to the position with the
places of lists counted as they are shown, and so on the path of the error unless places before those
on the way are left out. -/
theorem failures_lead_to_null {schema : Schema σ} {config : Config} {fuel : Nat}
    {requests : List Request} {world after : World σ} {responses : List Response} {i : Nat}
    {response : Response} {data : Json}
    (executed : schema.executeAll? config fuel requests world = some (.ok responses, after))
    (answered : responses[i]? = some response) (shows : response.data? = some data) :
    ∃ job type begun log weave, (schema.prepared requests world).1[i]? = some (.ok job) ∧
      Weave.Logs job (schema.Saw config requests world i job) (.start job type begun) log weave ∧
      weave.Finished ∧
      response.errors = (Weave.reports log).map (·.entry weave.run.draft) ∧
      ∀ failure, .failed failure ∈ Weave.reports log →
        data.LeadsToNull (weave.run.draft.shownPathTo failure.node failure.key) ∧
          (weave.run.draft.Straight failure.node failure.key →
            data.LeadsToNull (weave.run.draft.pathTo failure.node failure.key)) := by
  obtain ⟨job, type, begun, weave, place, -, path, finished, rfl⟩ :=
    path_of_executeAll? executed answered shows
  obtain ⟨log, logs⟩ := path.logs
  obtain ⟨errors, -⟩ := logs.accounts (Weave.settled_start job type begun)
  injection shows with shows
  refine ⟨job, type, begun, log, weave, place, logs, finished, errors, fun failure failed => ?_⟩
  have leads := logs.leads_to_null failed
  rw [shows] at leads
  exact ⟨leads, fun straight => straight.shownPathTo_eq ▸ leads⟩

/-- A schema whose one field answers a list of an item that is left out, an error, and a number. -/
def patchy : SchemaBuilder Unit :=
  (SchemaBuilder.new "Query").register (.object
    { name := "Query"
      fields := [("xs",
        { name := "xs"
          type := .list (.named "Int")
          resolve? := some fun _ => pure
            { result := .ok (.list [.skip, .error { message := "boom" }, .value (.int 3)]) } })] })

/-- The request `{ xs }`. -/
def patchyRequest : Request :=
  { document :=
      { operations := .single
          { name? := none
            kind := .query
            definitions := []
            selections := [.field ⟨none, "xs", [], [], [], ⟨1, 3⟩, 2⟩]
            location := ⟨1, 1⟩ }
        fragments := [] } }

/-- The error of the second item names the place of the third, which comes second in the data. -/
theorem failures_lead_to_null_patchy : ∃ schema job type begun log weave,
    patchy.finish = .ok schema ∧
      Weave.Logs job (schema.Saw {} [patchyRequest] ⟨(), fun _ state => state, []⟩ 0 job)
        (.start job type begun) log weave ∧
      (Weave.reports log).map (·.entry weave.run.draft) =
        [{ message := "boom", locations := [⟨1, 3⟩], path := some [.field "xs", .index 1] }] ∧
      (∀ failure, .failed failure ∈ Weave.reports log →
        (Json.object [("xs", .array [.null, .number (.int 3)])]).LeadsToNull
          (weave.run.draft.shownPathTo failure.node failure.key)) ∧
      ¬ (Json.object [("xs", .array [.null, .number (.int 3)])]).LeadsToNull
        [.field "xs", .index 1] := by
  have ran : patchy.responds? 40 patchyRequest ⟨(), fun _ state => state, []⟩ =
      some ⟨some (.object [("xs", .array [.null, .number (.int 3)])]),
        [{ message := "boom", locations := [⟨1, 3⟩], path := some [.field "xs", .index 1] }]⟩ := by
    cbv
  obtain ⟨schema, after, finish, executed⟩ := SchemaBuilder.executed_of_responds? ran
  obtain ⟨job, type, begun, log, weave, -, logs, -, errors, leads⟩ :=
    failures_lead_to_null (i := 0) executed rfl rfl
  refine ⟨schema, job, type, begun, log, weave, finish, logs, errors.symm,
    fun failure failed => (leads failure failed).1, ?_⟩
  simp [Json.leadsToNull_cons, Json.leadsToNull_nil, Json.below?, Json.member?, Fields.get?]

end Schema

end GraphExec
