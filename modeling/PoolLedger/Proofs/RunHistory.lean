import PoolLedger.Proofs.GroupMembers
import PoolLedger.Proofs.LedgerRuns

/-!
# The history of a run

A run has executed some actions, each with a result, and has passed through the
stores that these left one after the other.  From a sound store both are what
entries that run one after the other leave behind.
-/

namespace PoolLedger

open Batch

/-- An action that was executed, and what came of it. -/
structure Execution where
  actor : Address
  action : Action
  result : Except ExecutionError Output

/-- The execution that an outcome tells of, by the entry with its index. -/
def Batch.execution? (entries : List Entry) (outcome : Outcome) : Option Execution :=
  (entries.find? (·.index = outcome.index)).map fun entry =>
    ⟨entry.actor, entry.action, outcome.result⟩

/-- What was executed for a call, by its response.  Bytes that are no action and batches that are
refused execute nothing. -/
def Call.executions : Call → Response → List Execution
  | .execute actor action, .execution result => [⟨actor, action, result⟩]
  | .executeEncoded actor bytes, .execution result =>
      match Action.decode bytes with
      | .error _ => []
      | .ok action => [⟨actor, action, result⟩]
  | .executeBatch _ entries, .batch (.ok outcomes) => outcomes.filterMap (execution? entries)
  | _, _ => []

/-- What was executed in a run, call by call, and in a batch by ascending index. -/
def executionsIn (calls : List Call) (responses : List Response) : List Execution :=
  (calls.zipWith Call.executions responses).flatten

namespace Ledger

/-- The stores that entries leave one after the other. -/
def entryStages (ledger : Ledger) : List Entry → List Store
  | [] => []
  | entry :: rest =>
      let after := (ledger.execute entry.actor entry.action).2
      after.medium.store :: after.entryStages rest

/-- The stores that the members of groups leave; nothing runs after a group with a fault. -/
def groupStages (graph : Graph) (ledger : Ledger) : List Group → List Store
  | [] => []
  | group :: rest =>
      let (outcomes, after) := ledger.runEntries (membersOf graph group)
      ledger.entryStages (membersOf graph group) ++
        match outcomes.findSome? Outcome.fault? with
        | some _ => []
        | none => groupStages graph after rest

/-- The stores that a ledger passes through for a call, one after each action. -/
def callStages (ledger : Ledger) : Call → List Store
  | .execute actor action => [(ledger.execute actor action).2.medium.store]
  | .executeEncoded actor bytes =>
      match Action.decode bytes with
      | .error _ => []
      | .ok action => [(ledger.execute actor action).2.medium.store]
  | .executeBatch config entries =>
      match ledger.plan config entries with
      | (.error _, _) => []
      | (.ok plan, ledger) => groupStages plan.graph ledger plan.schedule.groups

/-- The stores that a ledger passes through in a run, one after each action. -/
def stages (ledger : Ledger) : List Call → List Store
  | [] => []
  | call :: rest => ledger.callStages call ++ (ledger.answer call).2.stages rest

end Ledger

namespace Batch

variable (params : Params)

/-- What entries that run one after the other execute. -/
def serialExecutions : Store → List Entry → List Execution
  | _, [] => []
  | store, entry :: rest =>
      ⟨entry.actor, entry.action, (entry.effect params store).1⟩ ::
        serialExecutions (entry.after params store) rest

/-- The stores that entries leave one after the other. -/
def serialStages : Store → List Entry → List Store
  | _, [] => []
  | store, entry :: rest =>
      entry.after params store :: serialStages (entry.after params store) rest

theorem serialExecutions_append (store : Store) (first second : List Entry) :
    serialExecutions params store (first ++ second) =
      serialExecutions params store first ++
        serialExecutions params (runSerial params store first).2 second := by
  induction first generalizing store with
  | nil => rfl
  | cons entry rest ih => simp [serialExecutions, runSerial, ih]

theorem serialStages_append (store : Store) (first second : List Entry) :
    serialStages params store (first ++ second) =
      serialStages params store first ++
        serialStages params (runSerial params store first).2 second := by
  induction first generalizing store with
  | nil => rfl
  | cons entry rest ih => simp [serialStages, runSerial, ih]

/-- The last stage is the store in the end. -/
theorem getLast?_serialStages (store : Store) (entries : List Entry) :
    (store :: serialStages params store entries).getLast? =
      some (runSerial params store entries).2 := by
  induction entries generalizing store with
  | nil => rfl
  | cons entry rest ih =>
      rw [serialStages, List.getLast?_cons_cons, ih]
      rfl

theorem entryStages_ofStore (store : Store) (counters : Telemetry.Counters)
    (entries : List Entry) :
    Ledger.entryStages ⟨params, .ofStore store, counters⟩ entries =
      serialStages params store entries := by
  induction entries generalizing store counters with
  | nil => rfl
  | cons entry rest ih =>
      obtain ⟨later, executed⟩ :=
        Ledger.execute_ofStore params store counters entry.actor entry.action
      have tail := ih (entry.after params store) later
      simp only [Entry.after, Entry.effect] at tail
      simp only [Ledger.entryStages, executed, tail]
      rfl

/-- In a sound store no group meets a fault, so all of them run. -/
theorem groupStages_ofStore {store : Store} (sound : store.Sound) (graph : Graph)
    (groups : List Group) (counters : Telemetry.Counters) :
    Ledger.groupStages graph ⟨params, .ofStore store, counters⟩ groups =
      serialStages params store (groups.flatMap (Ledger.membersOf graph)) := by
  induction groups generalizing store counters with
  | nil => rfl
  | cons group rest ih =>
      obtain ⟨counted, ran⟩ := Ledger.runEntries_ofStore params store counters
        (Ledger.membersOf graph group)
      obtain ⟨faultless, afterSound, _⟩ :=
        runSerial_sound params sound (Ledger.membersOf graph group)
      have noFault : (runSerial params store (Ledger.membersOf graph group)).1.findSome?
          Outcome.fault? = none :=
        List.findSome?_eq_none_iff.mpr fun outcome member =>
          fault?_eq_none (faultless outcome member)
      simp only [Ledger.groupStages, ran, noFault, entryStages_ofStore, ih afterSound,
        List.flatMap_cons, serialStages_append]

/-- An index leads to its entry. -/
theorem find?_of_mem {entries : List Entry} (distinct : (entries.map (·.index)).Nodup)
    {entry : Entry} (member : entry ∈ entries) :
    entries.find? (·.index = entry.index) = some entry := by
  cases found : entries.find? (·.index = entry.index) with
  | none =>
      have unlike := List.find?_eq_none.mp found entry member
      simp at unlike
  | some other =>
      have same : other.index = entry.index := by simpa using List.find?_some found
      rw [List.inj_on_of_nodup_map distinct (List.mem_of_find?_eq_some found) member same]

/-- The outcomes of entries of a batch tell what was executed. -/
theorem filterMap_execution? {batch entries : List Entry}
    (distinct : (batch.map (·.index)).Nodup) (listed : ∀ entry ∈ entries, entry ∈ batch)
    (store : Store) :
    (runSerial params store entries).1.filterMap (execution? batch) =
      serialExecutions params store entries := by
  induction entries generalizing store with
  | nil => rfl
  | cons entry rest ih =>
      have isEntry : execution? batch (entry.outcome params store) =
          some ⟨entry.actor, entry.action, (entry.effect params store).1⟩ :=
        congrArg (Option.map _) (find?_of_mem distinct (listed entry List.mem_cons_self))
      rw [runSerial, List.filterMap_cons_some isEntry,
        ih fun other member => listed other (List.mem_cons_of_mem _ member)]
      rfl

end Batch

end PoolLedger
