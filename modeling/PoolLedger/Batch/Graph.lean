import PoolLedger.Batch.Conflict

/-!
# Dependency graphs

Nodes are the entries of a batch by index; a dependency says that one index has
to run before another.  Dependencies may be repeated and may name indices that
are no nodes.
-/

namespace PoolLedger

namespace Batch

/-- `source` has to run before `target`. -/
structure Dependency where
  source : Nat
  target : Nat
  kind : OverlapKind
  key : StateKey
deriving DecidableEq

/-- Entries by index, and the dependencies in the order they were added. -/
structure Graph where
  nodes : SortedMap Nat DeclaredEntry
  dependencies : List Dependency
deriving DecidableEq

namespace Graph

def empty : Graph :=
  ⟨.empty, []⟩

/-- Add an entry; it replaces one of the same index. -/
def addNode (graph : Graph) (entry : DeclaredEntry) : Graph :=
  { graph with nodes := graph.nodes.insert entry.index entry }

def addDependency (graph : Graph) (dependency : Dependency) : Graph :=
  { graph with dependencies := graph.dependencies ++ [dependency] }

/-- The indices that directly depend on an index, once for each dependency. -/
def successors (graph : Graph) (index : Nat) : List Nat :=
  (graph.dependencies.filter (·.source = index)).map (·.target)

/-- How many dependencies lead to an index. -/
def inDegree (graph : Graph) (index : Nat) : Nat :=
  graph.dependencies.countP (·.target = index)

/-- Whether an index directly depends on another. -/
def hasDependency (graph : Graph) (source target : Nat) : Bool :=
  (graph.successors source).contains target

/-- Some indices in ascending order, each with its value. -/
def tabulate {α : Type} (indices : List Nat) (value : Nat → α) : SortedMap Nat α :=
  (SortedMap.ofList (indices.map fun index => (index, ()))).mapValues fun index _ => value index

/-- The successors of every index that is a node or the source of a dependency. -/
def adjacency (graph : Graph) : SortedMap Nat (List Nat) :=
  tabulate (graph.nodes.keys ++ graph.dependencies.map (·.source)) graph.successors

def inDegrees (graph : Graph) : SortedMap Nat Nat :=
  tabulate (graph.nodes.keys ++ graph.dependencies.map (·.target)) graph.inDegree

/-- The dependency of a conflict leads from the smaller index to the greater one. -/
def dependencyOf (conflict : Conflict) : Dependency :=
  if conflict.first < conflict.second then
    ⟨conflict.first, conflict.second, conflict.kind, conflict.key⟩
  else ⟨conflict.second, conflict.first, conflict.kind, conflict.key⟩

/-- The graph of some entries and their conflicts. -/
def ofConflicts (entries : List DeclaredEntry) (conflicts : List Conflict) : Graph :=
  conflicts.foldl (fun graph conflict => graph.addDependency (dependencyOf conflict))
    (entries.foldl addNode empty)

end Graph

end Batch

end PoolLedger
