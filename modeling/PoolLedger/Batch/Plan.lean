import PoolLedger.Batch.Layering
import PoolLedger.Store

/-!
# Planning a batch

A batch is checked, its conflicts are found, and its entries are layered by
their dependencies.  When too large a share of its pairs conflicts, the entries
run one at a time instead.
-/

namespace PoolLedger

namespace Batch

structure Config where
  maxBatchSize : Nat := 1000
  maxEdgeCount : Nat := 10000
  /-- Above this share of conflicting pairs the entries run one at a time. -/
  conflictThresholdPercent : UInt8 := 50
  /-- Smaller groups are not worth running side by side. -/
  parallelThreshold : Nat := 4
deriving DecidableEq, Repr

inductive OrderingError where
  | emptyBatch
  | batchTooLarge (size limit : Nat)
  | tooManyEdges (count limit : Nat)
  | duplicateIndex (index : Nat)
  | cycleDetected
  /-- The entry at `index` hit a fault; nothing ran after its group. -/
  | fatal (index : Nat) (fault : StateError)
deriving DecidableEq, Repr

def OrderingError.message : OrderingError → String
  | emptyBatch => "Empty action batch"
  | batchTooLarge size limit =>
      "Batch size exceeded: " ++ toString size ++ " > " ++ toString limit
  | tooManyEdges count limit =>
      "Edge count exceeded: " ++ toString count ++ " > " ++ toString limit
  | duplicateIndex index => "Duplicate batch index: " ++ toString index
  | cycleDetected => "Cycle detected in dependency graph"
  | fatal index fault =>
      "Fatal state fault in action " ++ toString index ++ ": " ++ fault.message

/-- The layers of a graph as a schedule. -/
def Graph.schedule (graph : Graph) : Except OrderingError Schedule :=
  match graph.layers? with
  | some schedule => .ok schedule
  | none => .error .cycleDetected

/-- The first index that repeats one in `seen` or an earlier one. -/
def firstRepeated? : SortedMap Nat Unit → List Entry → Option Nat
  | _, [] => none
  | seen, entry :: rest =>
      if seen.contains entry.index then some entry.index
      else firstRepeated? (seen.insert entry.index ()) rest

def validate (config : Config) (entries : List Entry) : Except OrderingError Unit :=
  if entries.isEmpty then .error .emptyBatch
  else if entries.length > config.maxBatchSize then
    .error (.batchTooLarge entries.length config.maxBatchSize)
  else
    match firstRepeated? .empty entries with
    | some index => .error (.duplicateIndex index)
    | none => .ok ()

/-- A schedule and the graph that it was made for. -/
structure Plan where
  schedule : Schedule
  graph : Graph
deriving DecidableEq

/-- The entries in ascending order of index, with their declarations. -/
def arrange (entries : List Entry) : List DeclaredEntry :=
  sortBy DeclaredEntry.index (entries.map Entry.declare)

/-- The plan for entries that passed the checks. -/
def planValid (config : Config) (entries : List Entry) : Except OrderingError Plan :=
  let arranged := arrange entries
  let found := conflicts arranged
  let graph := Graph.ofConflicts arranged found
  if conflictPercentage found.length arranged.length > config.conflictThresholdPercent.toNat then
    .ok ⟨.sequential (arranged.map (·.index)), graph⟩
  else if graph.dependencies.length > config.maxEdgeCount then
    .error (.tooManyEdges graph.dependencies.length config.maxEdgeCount)
  else graph.schedule.map fun schedule => ⟨schedule, graph⟩

def plan (config : Config) (entries : List Entry) : Except OrderingError Plan :=
  match validate config entries with
  | .error error => .error error
  | .ok () => planValid config entries

def schedule (config : Config) (entries : List Entry) : Except OrderingError Schedule :=
  (plan config entries).map (·.schedule)

end Batch

end PoolLedger
