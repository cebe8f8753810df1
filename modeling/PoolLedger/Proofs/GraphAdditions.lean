import Mathlib.Data.List.Induction
import PoolLedger.Proofs.LayeringRounds

/-!
# Building a graph

Nodes and dependencies can be added in any order, a dependency also before the
nodes that it joins.  Each addition changes one entry of the tables of
successors and in-degrees, so the tables can be kept instead of computed.
-/

namespace PoolLedger

namespace Batch

/-- Something that is added to a graph. -/
inductive Addition where
  | node (entry : DeclaredEntry)
  | dependency (dependency : Dependency)

namespace Graph

def add (graph : Graph) : Addition → Graph
  | .node entry => graph.addNode entry
  | .dependency dependency => graph.addDependency dependency

/-- The graph that some additions build, one after the other. -/
def ofAdditions (additions : List Addition) : Graph :=
  additions.foldl add empty

@[simp]
theorem ofAdditions_append_singleton (additions : List Addition) (addition : Addition) :
    ofAdditions (additions ++ [addition]) = (ofAdditions additions).add addition := by
  simp [ofAdditions]

theorem mem_keys_addNode (graph : Graph) (entry : DeclaredEntry) (index : Nat) :
    index ∈ (graph.addNode entry).nodes.keys ↔ index ∈ graph.nodes.keys ∨ entry.index = index := by
  rw [addNode, SortedMap.mem_keys_insert, or_comm, eq_comm]

/-- The nodes are the indices of the entries that were added. -/
theorem mem_keys_ofAdditions (additions : List Addition) (index : Nat) :
    index ∈ (ofAdditions additions).nodes.keys ↔
      ∃ entry, .node entry ∈ additions ∧ entry.index = index := by
  induction additions using List.reverseRecOn with
  | nil => simp [ofAdditions, empty, SortedMap.mem_keys_iff]
  | append_singleton additions addition ih =>
      rw [ofAdditions_append_singleton]
      cases addition with
      | node entry =>
          rw [add, mem_keys_addNode, ih]
          simp [or_and_right, exists_or]
      | dependency dependency =>
          rw [add, addDependency, ih]
          simp

/-- The dependencies are those that were added. -/
theorem mem_dependencies_ofAdditions (additions : List Addition) (dependency : Dependency) :
    dependency ∈ (ofAdditions additions).dependencies ↔ .dependency dependency ∈ additions := by
  induction additions using List.reverseRecOn with
  | nil => simp [ofAdditions, empty]
  | append_singleton additions addition ih =>
      rw [ofAdditions_append_singleton]
      cases addition with
      | node entry =>
          rw [add, addNode, ih]
          simp
      | dependency other =>
          rw [add, addDependency, List.mem_append, ih]
          simp

end Graph

/-- Both ends of every dependency are added as nodes, before or after it. -/
def Addition.Grounded (additions : List Addition) : Prop :=
  ∀ dependency, .dependency dependency ∈ additions →
    (∃ entry, .node entry ∈ additions ∧ entry.index = dependency.source) ∧
      ∃ entry, .node entry ∈ additions ∧ entry.index = dependency.target

theorem Addition.Grounded.closed {additions : List Addition}
    (grounded : Addition.Grounded additions) : (Graph.ofAdditions additions).Closed := by
  intro dependency member
  rw [Graph.mem_keys_ofAdditions, Graph.mem_keys_ofAdditions]
  exact grounded dependency ((Graph.mem_dependencies_ofAdditions additions dependency).mp member)

namespace Graph

/-! ## The tables of a growing graph -/

theorem get?_adjacency (graph : Graph) (index : Nat) :
    graph.adjacency.get? index =
      if index ∈ graph.nodes.keys ++ graph.dependencies.map (·.source) then
        some (graph.successors index)
      else none :=
  get?_tabulate _ _ index

theorem get?_inDegrees (graph : Graph) (index : Nat) :
    graph.inDegrees.get? index =
      if index ∈ graph.nodes.keys ++ graph.dependencies.map (·.target) then
        some (graph.inDegree index)
      else none :=
  get?_tabulate _ _ index

/-- An index without an entry has no successors. -/
theorem getD_adjacency (graph : Graph) (index : Nat) :
    (graph.adjacency.get? index).getD [] = graph.successors index := by
  rw [get?_adjacency]
  split
  · rfl
  · rename_i unlisted
    have noSource : ∀ dependency ∈ graph.dependencies, dependency.source ≠ index := by
      rintro dependency member rfl
      exact unlisted (List.mem_append_right _ (List.mem_map_of_mem member))
    simpa [successors] using noSource

/-- No dependency leads to an index without an entry. -/
theorem getD_inDegrees (graph : Graph) (index : Nat) :
    (graph.inDegrees.get? index).getD 0 = graph.inDegree index := by
  rw [get?_inDegrees]
  split
  · rfl
  · rename_i unlisted
    have noTarget : ∀ dependency ∈ graph.dependencies, dependency.target ≠ index := by
      rintro dependency member rfl
      exact unlisted (List.mem_append_right _ (List.mem_map_of_mem member))
    symm
    simpa [inDegree, List.countP_eq_zero] using noTarget

/-- A node gets its entries, unless it has them. -/
theorem get?_tables_addNode (graph : Graph) (entry : DeclaredEntry) (index : Nat) :
    (graph.addNode entry).adjacency.get? index =
        (if index = entry.index then some ((graph.adjacency.get? index).getD [])
          else graph.adjacency.get? index) ∧
      (graph.addNode entry).inDegrees.get? index =
        if index = entry.index then some ((graph.inDegrees.get? index).getD 0)
        else graph.inDegrees.get? index := by
  rw [getD_adjacency, getD_inDegrees]
  simp only [get?_adjacency, get?_inDegrees, List.mem_append, mem_keys_addNode]
  by_cases isNew : index = entry.index
  · subst isNew
    simp [addNode, successors, inDegree]
  · simp [addNode, successors, inDegree, isNew, Ne.symm isNew]

/-- A dependency adds a successor to its source and counts once at its target. -/
theorem get?_tables_addDependency (graph : Graph) (dependency : Dependency) (index : Nat) :
    (graph.addDependency dependency).adjacency.get? index =
        (if index = dependency.source then
          some ((graph.adjacency.get? index).getD [] ++ [dependency.target])
        else graph.adjacency.get? index) ∧
      (graph.addDependency dependency).inDegrees.get? index =
        if index = dependency.target then some ((graph.inDegrees.get? index).getD 0 + 1)
        else graph.inDegrees.get? index := by
  rw [getD_adjacency, getD_inDegrees]
  simp only [get?_adjacency, get?_inDegrees]
  constructor
  · by_cases isSource : index = dependency.source
    · subst isSource
      simp [addDependency, successors]
    · simp [addDependency, successors, isSource, Ne.symm isSource]
  · by_cases isTarget : index = dependency.target
    · subst isTarget
      simp [addDependency, inDegree]
    · simp [addDependency, inDegree, isTarget, Ne.symm isTarget]

end Graph

/-- Successors and in-degrees that are kept while a graph is built. -/
structure Tables where
  successors : SortedMap Nat (List Nat)
  inDegrees : SortedMap Nat Nat

namespace Tables

def empty : Tables :=
  ⟨.empty, .empty⟩

/-- A node gets its entries unless it has them; a dependency adds a successor to its source and
counts once at its target. -/
def add (tables : Tables) : Addition → Tables
  | .node entry =>
      ⟨tables.successors.insert entry.index ((tables.successors.get? entry.index).getD []),
        tables.inDegrees.insert entry.index ((tables.inDegrees.get? entry.index).getD 0)⟩
  | .dependency dependency =>
      ⟨tables.successors.insert dependency.source
          ((tables.successors.get? dependency.source).getD [] ++ [dependency.target]),
        tables.inDegrees.insert dependency.target
          ((tables.inDegrees.get? dependency.target).getD 0 + 1)⟩

def ofAdditions (additions : List Addition) : Tables :=
  additions.foldl add empty

/-- The tables of a graph that has been built. -/
def ofGraph (graph : Graph) : Tables :=
  ⟨graph.adjacency, graph.inDegrees⟩

theorem ofGraph_add (graph : Graph) (addition : Addition) :
    ofGraph (graph.add addition) = (ofGraph graph).add addition := by
  cases addition with
  | node entry =>
      have successors := SortedMap.eq_insert_of_get? fun index =>
        (graph.get?_tables_addNode entry index).1
      have inDegrees := SortedMap.eq_insert_of_get? fun index =>
        (graph.get?_tables_addNode entry index).2
      rw [Graph.add, ofGraph, successors, inDegrees]
      rfl
  | dependency dependency =>
      have successors := SortedMap.eq_insert_of_get? fun index =>
        (graph.get?_tables_addDependency dependency index).1
      have inDegrees := SortedMap.eq_insert_of_get? fun index =>
        (graph.get?_tables_addDependency dependency index).2
      rw [Graph.add, ofGraph, successors, inDegrees]
      rfl

/-- The tables that are kept are those of the graph. -/
theorem ofAdditions_eq (additions : List Addition) :
    ofAdditions additions = ofGraph (Graph.ofAdditions additions) := by
  induction additions using List.reverseRecOn with
  | nil => rfl
  | append_singleton additions addition ih =>
      rw [Graph.ofAdditions_append_singleton, ofGraph_add, ← ih]
      simp only [ofAdditions, List.foldl_append, List.foldl_cons, List.foldl_nil]

end Tables

end Batch

end PoolLedger
