import PoolLedger.Proofs.RunHistory

/-!
# Runs as serial runs

From a sound store every run of calls is a serial run of some entries: those
entries have the outputs that were answered, in the same order, and leave the
store that the run leaves.  The order in which the run executes them may differ
within a batch, but comes to the same.
-/

namespace PoolLedger

open Batch

/-- The outputs of all actions that succeeded, in the order of their execution. -/
def outputsIn (responses : List Response) : List Output :=
  (responses.flatMap Response.results).filterMap Except.toOption

namespace Batch

/-- The outputs of the entries that succeeded. -/
def outputsOf (outcomes : List Outcome) : List Output :=
  (outcomes.map (·.result)).filterMap Except.toOption

theorem mem_outputsOf_iff (outcomes : List Outcome) (output : Output) :
    output ∈ outputsOf outcomes ↔ ∃ outcome ∈ outcomes, outcome.result = .ok output := by
  simp only [outputsOf, List.mem_filterMap, List.mem_map, exists_exists_and_eq_and]
  refine exists_congr fun outcome => and_congr_right fun _ => ?_
  cases outcome.result <;> simp [Except.toOption]

end Batch

/-- Running `entries` one after the other executes what was executed, with the outputs that were
answered; running them in the order `ran` passes through the stages of the run. -/
structure Replays (params : Params) (store : Store) (ran entries : List Entry)
    (responses : List Response) (executions : List Execution) (stages : List Store) : Prop where
  outputs : outputsIn responses = outputsOf (runSerial params store entries).1
  executions : executions = serialExecutions params store entries
  stages : stages = serialStages params store ran
  outcomes : (runSerial params store ran).1.Perm (runSerial params store entries).1
  final : (runSerial params store ran).2 = (runSerial params store entries).2

namespace Replays

variable {params : Params} {store : Store} {ran entries : List Entry} {responses : List Response}
  {executions : List Execution} {stages : List Store}

/-- A response without outputs replays no entry. -/
theorem nothing (response : Response) (noOutputs : outputsIn [response] = []) :
    Replays params store [] [] [response] [] [] :=
  ⟨noOutputs, rfl, rfl, .refl _, rfl⟩

theorem single (entry : Entry) :
    Replays params store [entry] [entry] [.execution (entry.effect params store).1]
      [⟨entry.actor, entry.action, (entry.effect params store).1⟩]
      [entry.after params store] :=
  ⟨rfl, rfl, rfl, .refl _, rfl⟩

theorem append (first : Replays params store ran entries responses executions stages)
    {laterRan laterEntries : List Entry} {laterResponses : List Response}
    {laterExecutions : List Execution} {laterStages : List Store}
    (second : Replays params (runSerial params store entries).2 laterRan laterEntries
      laterResponses laterExecutions laterStages) :
    Replays params store (ran ++ laterRan) (entries ++ laterEntries)
      (responses ++ laterResponses) (executions ++ laterExecutions) (stages ++ laterStages) := by
  constructor
  · have firstOutputs := first.outputs
    have secondOutputs := second.outputs
    simp only [outputsIn, outputsOf] at firstOutputs secondOutputs
    simp only [outputsIn, outputsOf, List.flatMap_append, List.filterMap_append, firstOutputs,
      secondOutputs, runSerial_append, List.map_append]
  · rw [first.executions, second.executions, serialExecutions_append]
  · rw [first.stages, second.stages, serialStages_append, first.final]
  · rw [runSerial_append, runSerial_append, first.final]
    exact first.outcomes.append second.outcomes
  · rw [runSerial_append, runSerial_append, first.final]
    exact second.final

end Replays

section Serial

variable (params : Params) {store : Store} (sound : store.Sound)

include sound

/-- A planned batch is answered by running its entries in ascending order of index. -/
theorem planned_batch_replayed (counters : Telemetry.Counters) {config : Config}
    {entries : List Entry} {made : Plan} (planned : Batch.plan config entries = .ok made) :
    ∃ response ran later,
      Ledger.answer ⟨params, .ofStore store, counters⟩ (.executeBatch config entries) =
        (response, ⟨params, .ofStore (runSerial params store (sortBy Entry.index entries)).2,
          later⟩) ∧
      Replays params store ran (sortBy Entry.index entries) [response]
        ((Call.executeBatch config entries).executions response)
        (Ledger.callStages ⟨params, .ofStore store, counters⟩ (.executeBatch config entries)) := by
  obtain ⟨outcomes, final, later, answered, _⟩ :=
    runGroups_sound params sound made.graph made.schedule.groups counters.countBatch
  have executed : Ledger.executeBatch ⟨params, .ofStore store, counters⟩ config entries =
      (.ok (sortBy Outcome.index outcomes), ⟨params, .ofStore final, later⟩) := by
    rw [Ledger.executeBatch_of_planned _ planned, answered]
    rfl
  obtain ⟨sameOutcomes, sameMedium, _⟩ := executeBatch_ok executed
  have sameFinal : final = (runSerial params store (sortBy Entry.index entries)).2 :=
    congrArg Medium.store sameMedium
  obtain ⟨distinct, sameGraph, valid⟩ := valid_of_plan planned
  obtain ⟨perm, sameEnd⟩ := runSerial_membersOf params store distinct valid
  rw [← sameGraph] at perm sameEnd
  refine ⟨.batch (.ok (sortBy Outcome.index outcomes)),
    made.schedule.groups.flatMap (Ledger.membersOf made.graph), later, ?_, ?_, ?_, ?_, perm,
    sameEnd⟩
  · simp only [Ledger.answer, executed, sameFinal]
  · rw [sameOutcomes, outputsIn, List.flatMap_singleton]
    rfl
  · rw [sameOutcomes]
    exact filterMap_execution? params distinct
      (fun entry member => (sortBy_perm _ _).mem_iff.mp member) store
  · simp only [Ledger.callStages, Ledger.plan_of_planned _ planned]
    exact groupStages_ofStore params sound _ _ _

/-- The call is answered by running `entries` one after the other. -/
theorem answer_replayed (counters : Telemetry.Counters) (call : Call) :
    ∃ response ran entries later,
      Ledger.answer ⟨params, .ofStore store, counters⟩ call =
        (response, ⟨params, .ofStore (runSerial params store entries).2, later⟩) ∧
      Replays params store ran entries [response] (call.executions response)
        (Ledger.callStages ⟨params, .ofStore store, counters⟩ call) := by
  have executes : ∀ actor action, ∃ later,
      Ledger.execute ⟨params, .ofStore store, counters⟩ actor action =
        ((action.effect params actor store).1,
          ⟨params, .ofStore (runSerial params store [⟨0, actor, action⟩]).2, later⟩) :=
    Ledger.execute_ofStore params store counters
  cases call with
  | execute actor action =>
      obtain ⟨later, executed⟩ := executes actor action
      refine ⟨.execution (action.effect params actor store).1, [⟨0, actor, action⟩],
        [⟨0, actor, action⟩], later, ?_, ?_⟩
      · simp only [Ledger.answer, executed]
      · simp only [Call.executions, Ledger.callStages, executed]
        exact .single ⟨0, actor, action⟩
  | executeEncoded actor bytes =>
      cases decoded : Action.decode bytes with
      | error cause =>
          refine ⟨.execution (.error (.decode cause)), [], [], counters, ?_, ?_⟩
          · simp only [Ledger.answer, Ledger.executeEncoded, decoded]
            rfl
          · simp only [Call.executions, Ledger.callStages, decoded]
            exact .nothing _ rfl
      | ok action =>
          obtain ⟨later, executed⟩ := executes actor action
          refine ⟨.execution (action.effect params actor store).1, [⟨0, actor, action⟩],
            [⟨0, actor, action⟩], later, ?_, ?_⟩
          · simp only [Ledger.answer, Ledger.executeEncoded, decoded, executed]
          · simp only [Call.executions, Ledger.callStages, decoded, executed]
            exact .single ⟨0, actor, action⟩
  | executeBatch config entries =>
      cases planned : Batch.plan config entries with
      | error error =>
          refine ⟨.batch (.error error), [], [], counters, ?_, ?_⟩
          · simp only [Ledger.answer, Ledger.executeBatch_of_refused _ planned]
            rfl
          · simp only [Call.executions, Ledger.callStages, Ledger.plan, planned]
            exact .nothing _ rfl
      | ok made =>
          obtain ⟨response, ran, later, answered, replays⟩ :=
            planned_batch_replayed params sound counters planned
          exact ⟨response, ran, sortBy Entry.index entries, later, answered, replays⟩

/-- The run is answered by running `entries` one after the other. -/
theorem answers_replayed (counters : Telemetry.Counters) (calls : List Call) :
    ∃ responses ran entries later,
      Ledger.answers ⟨params, .ofStore store, counters⟩ calls =
        (responses, ⟨params, .ofStore (runSerial params store entries).2, later⟩) ∧
      Replays params store ran entries responses (executionsIn calls responses)
        (Ledger.stages ⟨params, .ofStore store, counters⟩ calls) := by
  induction calls generalizing store counters with
  | nil => exact ⟨[], [], [], counters, rfl, rfl, rfl, rfl, .refl _, rfl⟩
  | cons call rest ih =>
      obtain ⟨response, firstRan, first, counted, answered, replays⟩ :=
        answer_replayed params sound counters call
      obtain ⟨responses, secondRan, second, later, answeredRest, replaysRest⟩ :=
        ih (runSerial_sound params sound first).2.1 counted
      refine ⟨response :: responses, firstRan ++ secondRan, first ++ second, later, ?_, ?_⟩
      · simp only [Ledger.answers, answered, answeredRest, runSerial_append]
      · simp only [Ledger.stages, answered]
        exact replays.append replaysRest

/-- The run has the outputs and leaves the store of running `entries` one after the other. -/
theorem answers_serial (counters : Telemetry.Counters) (calls : List Call) :
    ∃ responses entries later,
      Ledger.answers ⟨params, .ofStore store, counters⟩ calls =
        (responses, ⟨params, .ofStore (runSerial params store entries).2, later⟩) ∧
      outputsIn responses = outputsOf (runSerial params store entries).1 := by
  obtain ⟨responses, _, entries, later, answered, replays⟩ :=
    answers_replayed params sound counters calls
  exact ⟨responses, entries, later, answered, replays.outputs⟩

end Serial

end PoolLedger
