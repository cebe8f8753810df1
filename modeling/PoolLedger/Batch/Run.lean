import PoolLedger.Batch.Plan
import PoolLedger.Service

/-!
# Running a batch

The groups of a plan run one after the other.  All members of a group run even
if one of them hits a fault, but no later group does.
-/

namespace PoolLedger

namespace Batch

structure Outcome where
  index : Nat
  actor : Address
  result : Except ExecutionError Output
deriving DecidableEq

def Outcome.isSuccess (outcome : Outcome) : Bool :=
  outcome.result.isOk

/-- The fault that an entry hit. -/
def Outcome.fault? (outcome : Outcome) : Option (Nat × StateError) :=
  match outcome.result with
  | .error (.fatal fault) => some (outcome.index, fault)
  | _ => none

end Batch

namespace Ledger

open Batch

def runEntries (ledger : Ledger) : List Entry → List Outcome × Ledger
  | [] => ([], ledger)
  | entry :: rest =>
      let (result, ledger) := ledger.execute entry.actor entry.action
      let (outcomes, ledger) := ledger.runEntries rest
      (⟨entry.index, entry.actor, result⟩ :: outcomes, ledger)

def membersOf (graph : Graph) (group : Group) : List Entry :=
  group.indices.filterMap fun index => (graph.nodes.get? index).map (·.entry)

/-- Run groups one after the other and stop after a group with a fault. -/
def runGroups (graph : Graph) (ledger : Ledger) :
    List Group → Except OrderingError (List Outcome) × Ledger
  | [] => (.ok [], ledger)
  | group :: rest =>
      let (outcomes, ledger) := ledger.runEntries (membersOf graph group)
      match outcomes.findSome? Outcome.fault? with
      | some (index, fault) => (.error (.fatal index fault), ledger)
      | none =>
          let (later, ledger) := runGroups graph ledger rest
          (later.map (outcomes ++ ·), ledger)

/-- Plan a batch and count it. -/
def plan (ledger : Ledger) (config : Config) (entries : List Entry) :
    Except OrderingError Plan × Ledger :=
  match Batch.plan config entries with
  | .error error => (.error error, ledger)
  | .ok plan => (.ok plan, { ledger with counters := ledger.counters.countBatch })

/-- Schedule a batch without running it. -/
def schedule (ledger : Ledger) (config : Config) (entries : List Entry) :
    Except OrderingError Schedule × Ledger :=
  let (result, ledger) := ledger.plan config entries
  (result.map (·.schedule), ledger)

/-- Run a batch; the outcomes come in ascending order of index. -/
def executeBatch (ledger : Ledger) (config : Config) (entries : List Entry) :
    Except OrderingError (List Outcome) × Ledger :=
  match ledger.plan config entries with
  | (.error error, ledger) => (.error error, ledger)
  | (.ok plan, ledger) =>
      let (outcomes, ledger) := runGroups plan.graph ledger plan.schedule.groups
      (outcomes.map (sortBy Outcome.index), ledger)

end Ledger

end PoolLedger
