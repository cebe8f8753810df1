import PoolLedger.Batch.Graph
import PoolLedger.Batch.Schedule

/-!
# Checking a schedule

A schedule fits a graph when it lists every node once, runs every source of a
dependency in an earlier group than its target, and puts no two conflicting
entries into one group.
-/

namespace PoolLedger

namespace Batch

namespace Schedule

/-- Whether, after the indices in `before`, every group runs after what its members wait for. -/
def respects (dependencies : List Dependency) : List Nat → List Group → Bool
  | _, [] => true
  | before, group :: rest =>
      (group.indices.all fun index =>
        dependencies.all fun dependency =>
          dependency.target != index || before.contains dependency.source) &&
      respects dependencies (before ++ group.indices) rest

/-- Whether every dependency leads from a group to a later one. -/
def inOrder (schedule : Schedule) (graph : Graph) : Bool :=
  respects graph.dependencies [] schedule.groups

def compatible (graph : Graph) (first second : Nat) : Bool :=
  match graph.nodes.get? first, graph.nodes.get? second with
  | some left, some right => (left.declared.conflict? right.declared).isNone
  | _, _ => false

def allCompatible (graph : Graph) : List Nat → Bool
  | [] => true
  | index :: rest => rest.all (compatible graph index) && allCompatible graph rest

/-- Whether the members of a group may run together. -/
def safe (graph : Graph) (group : Group) : Bool :=
  allCompatible graph group.indices

/-- Whether every node is listed exactly once and nothing else is. -/
def complete (schedule : Schedule) (graph : Graph) : Bool :=
  let listed := SortedMap.ofList (schedule.flatten.map fun index => (index, ()))
  listed.size == schedule.flatten.length && graph.nodes.keys == listed.keys

def fits (schedule : Schedule) (graph : Graph) : Bool :=
  schedule.complete graph && schedule.inOrder graph && schedule.groups.all (safe graph)

end Schedule

end Batch

end PoolLedger
