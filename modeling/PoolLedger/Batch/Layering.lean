import PoolLedger.Batch.Graph
import PoolLedger.Batch.Schedule
import PoolLedger.SortBy

/-!
# Layering of a dependency graph

Each round takes every index on which nothing waits any more as one layer, and
strikes out the dependencies that lead from it.  There are at most as many
rounds as there are indices with an in-degree.
-/

namespace PoolLedger

namespace Batch

structure Layering where
  /-- How many dependencies each index still waits for. -/
  waiting : SortedMap Nat Nat
  /-- The indices of the next layer, ascending. -/
  ready : List Nat
  /-- The layers found so far. -/
  layers : List (List Nat)
deriving DecidableEq

namespace Layering

/-- The start: every index that waits for nothing is ready. -/
def start (graph : Graph) : Layering where
  waiting := graph.inDegrees
  ready := (graph.inDegrees.toList.filter (·.2 = 0)).map (·.1)
  layers := []

/-- Strike out one dependency that leads to `target`; at zero, `target` is released. -/
def strike (state : SortedMap Nat Nat × List Nat) (target : Nat) :
    SortedMap Nat Nat × List Nat :=
  match state.1.get? target with
  | none => state
  | some count =>
      let left := count - 1
      (state.1.insert target left, if left = 0 then state.2 ++ [target] else state.2)

/-- One round: the ready indices become a layer. -/
def round (graph : Graph) (layering : Layering) : Layering :=
  let state := (layering.ready.flatMap graph.successors).foldl strike (layering.waiting, [])
  { waiting := state.1
    ready := sortBy id state.2
    layers := layering.layers ++ [layering.ready] }

/-- At most `count` rounds, until nothing is ready. -/
def rounds (graph : Graph) : Nat → Layering → Layering
  | 0, layering => layering
  | count + 1, layering =>
      if layering.ready.isEmpty then layering else rounds graph count (round graph layering)

def complete (graph : Graph) : Layering :=
  rounds graph graph.inDegrees.size (start graph)

def layered (layering : Layering) : Nat :=
  (layering.layers.map List.length).foldl (· + ·) 0

end Layering

/-- The layers of a graph as a schedule, unless nodes are left waiting for each other. -/
def Graph.layers? (graph : Graph) : Option Schedule :=
  if graph.nodes.isEmpty then some (.ofLayers [])
  else
    let layering := Layering.complete graph
    if layering.layered < graph.nodes.size then none else some (.ofLayers layering.layers)

end Batch

end PoolLedger
