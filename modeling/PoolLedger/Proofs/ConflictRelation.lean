import PoolLedger.Proofs.BatchRefusal
import PoolLedger.Proofs.GraphAdditions

/-!
# The graph shows the conflicts

The conflicts of entries in ascending order of index come in lexicographic
order, one for each clashing pair.  The nodes, dependencies, successors and
in-degrees of the graph that is built from them all show this one relation.
-/

namespace PoolLedger

namespace Batch

/-- Conflicts come in the order of their first indices, those with the same first index in the
order of their second ones. -/
def Conflict.Before (conflict later : Conflict) : Prop :=
  conflict.first < later.first ∨
    conflict.first = later.first ∧ conflict.second < later.second

/-- The indices of the later entries that clash with an entry. -/
def clashesAfter (entries : List DeclaredEntry) (entry : DeclaredEntry) : List Nat :=
  (entries.filter fun later =>
    entry.index < later.index ∧ entry.declared.Clash later.declared).map (·.index)

/-- The indices of the earlier entries that clash with an entry. -/
def clashesBefore (entries : List DeclaredEntry) (entry : DeclaredEntry) : List Nat :=
  (entries.filter fun earlier =>
    earlier.index < entry.index ∧ earlier.declared.Clash entry.declared).map (·.index)

section Conflicts

variable {entries : List DeclaredEntry}

theorem pairwise_before_conflicts (ascending : Ascending entries) :
    (conflicts entries).Pairwise Conflict.Before := by
  induction entries with
  | nil => exact .nil
  | cons head rest ih =>
      obtain ⟨headBelow, restAscending⟩ := List.pairwise_cons.mp ascending
      rw [conflicts, List.pairwise_append]
      refine ⟨?_, ih restAscending, ?_⟩
      · rw [List.pairwise_filterMap]
        apply restAscending.imp
        intro second third below conflict found other otherFound
        obtain ⟨_, isHead, isSecond⟩ := conflictBetween_eq_some_iff.mp found
        obtain ⟨_, otherIsHead, isThird⟩ := conflictBetween_eq_some_iff.mp otherFound
        right
        omega
      · intro conflict inRow other inRest
        obtain ⟨_, _, found⟩ := List.mem_filterMap.mp inRow
        obtain ⟨_, isHead, _⟩ := conflictBetween_eq_some_iff.mp found
        obtain ⟨first, member, _, _, _, otherFound⟩ :=
          (mem_conflicts_iff restAscending other).mp inRest
        obtain ⟨_, isFirst, _⟩ := conflictBetween_eq_some_iff.mp otherFound
        left
        rw [isHead, isFirst]
        exact headBelow first member

/-- No pair of indices is listed twice. -/
theorem nodup_pairs_conflicts (ascending : Ascending entries) :
    ((conflicts entries).map fun conflict => (conflict.first, conflict.second)).Nodup := by
  apply List.pairwise_map.mpr
  apply (pairwise_before_conflicts ascending).imp
  intro conflict later before same
  obtain ⟨sameFirst, sameSecond⟩ := Prod.mk.injEq .. |>.mp same
  unfold Conflict.Before at before
  omega

/-- A clash of two entries is a dependency of the later one on the earlier one. -/
theorem exists_dependency_iff_of_mem (ascending : Ascending entries) {first second : DeclaredEntry}
    (firstMember : first ∈ entries) (secondMember : second ∈ entries) :
    (∃ dependency ∈ (Graph.ofEntries entries).dependencies,
        dependency.source = first.index ∧ dependency.target = second.index) ↔
      first.index < second.index ∧ first.declared.Clash second.declared := by
  rw [Graph.exists_dependency_iff ascending]
  constructor
  · rintro ⟨other, otherMember, another, anotherMember, isFirst, isSecond, below, clash⟩
    cases List.inj_on_of_nodup_map ascending.nodup otherMember firstMember isFirst
    cases List.inj_on_of_nodup_map ascending.nodup anotherMember secondMember isSecond
    exact ⟨below, clash⟩
  · rintro ⟨below, clash⟩
    exact ⟨first, firstMember, second, secondMember, rfl, rfl, below, clash⟩

theorem source_mem_entries (ascending : Ascending entries) {dependency : Dependency}
    (inGraph : dependency ∈ (Graph.ofEntries entries).dependencies) :
    ∃ first ∈ entries, first.index = dependency.source := by
  obtain ⟨first, member, _, _, isSource, _⟩ :=
    (Graph.exists_dependency_iff ascending _ _).mp ⟨dependency, inGraph, rfl, rfl⟩
  exact ⟨first, member, isSource⟩

theorem target_mem_entries (ascending : Ascending entries) {dependency : Dependency}
    (inGraph : dependency ∈ (Graph.ofEntries entries).dependencies) :
    ∃ second ∈ entries, second.index = dependency.target := by
  obtain ⟨_, _, second, member, _, isTarget, _⟩ :=
    (Graph.exists_dependency_iff ascending _ _).mp ⟨dependency, inGraph, rfl, rfl⟩
  exact ⟨second, member, isTarget⟩

/-- The dependencies are the conflicts, as they are listed. -/
theorem dependencies_ofEntries_eq (ascending : Ascending entries) :
    (Graph.ofEntries entries).dependencies = (conflicts entries).map fun conflict =>
      ⟨conflict.first, conflict.second, conflict.kind, conflict.key⟩ := by
  rw [Graph.dependencies_ofEntries]
  apply List.map_congr_left
  intro conflict member
  obtain ⟨first, _, second, _, below, found⟩ := (mem_conflicts_iff ascending conflict).mp member
  obtain ⟨_, isFirst, isSecond⟩ := conflictBetween_eq_some_iff.mp found
  rw [Graph.dependencyOf, if_pos (by omega)]

theorem pairwise_dependencies_ofEntries (ascending : Ascending entries) :
    (Graph.ofEntries entries).dependencies.Pairwise fun dependency later =>
      dependency.source < later.source ∨
        dependency.source = later.source ∧ dependency.target < later.target := by
  rw [dependencies_ofEntries_eq ascending]
  exact List.pairwise_map.mpr (pairwise_before_conflicts ascending)

/-- The far ends of the dependencies at an index are listed by the entries that these join with
it. -/
theorem map_filter_dependencies_eq (ascending : Ascending entries)
    {dependencies : List Dependency} {near far : Dependency → Nat} {joined : DeclaredEntry → Bool}
    {index : Nat}
    (ordered : dependencies.Pairwise fun dependency later =>
      near dependency = near later → far dependency < far later)
    (ends : ∀ dependency ∈ dependencies, ∃ other ∈ entries, other.index = far dependency)
    (joins : ∀ other ∈ entries, joined other = true ↔
      ∃ dependency ∈ dependencies, near dependency = index ∧ far dependency = other.index) :
    (dependencies.filter (near · = index)).map far =
      (entries.filter joined).map (·.index) := by
  -- Both lists ascend strictly, so it is enough that they have the same members.
  apply SortedMap.eq_of_pairwise_lt_of_mem_iff
  · rw [List.pairwise_map, List.pairwise_filter]
    apply ordered.imp
    intro dependency later inOrder isNear laterIsNear
    rw [decide_eq_true_eq] at isNear laterIsNear
    exact Nat.compare_eq_lt.mpr (inOrder (isNear.trans laterIsNear.symm))
  · apply List.pairwise_map.mpr
    apply (ascending.filter joined).imp
    exact fun below => Nat.compare_eq_lt.mpr below
  · intro wanted
    simp only [List.mem_map, List.mem_filter, decide_eq_true_eq]
    constructor
    · rintro ⟨dependency, ⟨listed, isNear⟩, rfl⟩
      obtain ⟨other, member, isFar⟩ := ends dependency listed
      exact ⟨other, ⟨member, (joins other member).mpr ⟨dependency, listed, isNear, isFar.symm⟩⟩,
        isFar⟩
    · rintro ⟨other, ⟨member, isJoined⟩, rfl⟩
      obtain ⟨dependency, listed, isNear, isFar⟩ := (joins other member).mp isJoined
      exact ⟨dependency, ⟨listed, isNear⟩, isFar⟩

theorem successors_ofEntries (ascending : Ascending entries) {entry : DeclaredEntry}
    (member : entry ∈ entries) :
    (Graph.ofEntries entries).successors entry.index = clashesAfter entries entry := by
  apply map_filter_dependencies_eq ascending
  · apply (pairwise_dependencies_ofEntries ascending).imp
    intro dependency later before sameSource
    omega
  · exact fun dependency inGraph => target_mem_entries ascending inGraph
  · intro later laterMember
    rw [decide_eq_true_eq, exists_dependency_iff_of_mem ascending member laterMember]

theorem sources_ofEntries (ascending : Ascending entries) {entry : DeclaredEntry}
    (member : entry ∈ entries) :
    ((Graph.ofEntries entries).dependencies.filter (·.target = entry.index)).map (·.source) =
      clashesBefore entries entry := by
  apply map_filter_dependencies_eq ascending
  · apply (pairwise_dependencies_ofEntries ascending).imp
    intro dependency later before sameTarget
    omega
  · exact fun dependency inGraph => source_mem_entries ascending inGraph
  · intro earlier earlierMember
    rw [decide_eq_true_eq, ← exists_dependency_iff_of_mem ascending earlierMember member]
    simp only [and_comm]

theorem inDegree_ofEntries (ascending : Ascending entries) {entry : DeclaredEntry}
    (member : entry ∈ entries) :
    (Graph.ofEntries entries).inDegree entry.index = (clashesBefore entries entry).length := by
  rw [← sources_ofEntries ascending member, List.length_map, ← List.countP_eq_length_filter,
    Graph.inDegree]

/-- Conflicts of some entries: one for each pair that clashes, in order, and no others. -/
structure ListsConflicts (entries : List DeclaredEntry) (found : List Conflict) : Prop where
  ordered : found.Pairwise Conflict.Before
  /-- Two entries that both declare a key which one of them may change have one conflict. -/
  listed : ∀ first ∈ entries, ∀ second ∈ entries, first.index < second.index →
    first.declared.Clash second.declared →
      ∃! conflict, conflict ∈ found ∧
        conflict.first = first.index ∧ conflict.second = second.index
  /-- Every conflict is that of such a pair, on the key on which their declarations conflict. -/
  sound : ∀ conflict ∈ found, ∃ first ∈ entries, ∃ second ∈ entries,
    first.index < second.index ∧ conflict.first = first.index ∧ conflict.second = second.index ∧
      first.declared.Clash second.declared ∧
      first.declared.conflict? second.declared = some (conflict.key, conflict.kind)

theorem listsConflicts_conflicts (ascending : Ascending entries) :
    ListsConflicts entries (conflicts entries) where
  ordered := pairwise_before_conflicts ascending
  listed := by
    intro first firstMember second secondMember below clash
    obtain ⟨conflict, found⟩ := Option.isSome_iff_exists.mp
      ((isSome_conflictBetween_iff first second).mpr clash)
    have member := (mem_conflicts_iff ascending conflict).mpr
      ⟨first, firstMember, second, secondMember, below, found⟩
    obtain ⟨_, isFirst, isSecond⟩ := conflictBetween_eq_some_iff.mp found
    refine ⟨conflict, ⟨member, isFirst, isSecond⟩, ?_⟩
    rintro other ⟨otherMember, otherFirst, otherSecond⟩
    apply List.inj_on_of_nodup_map (nodup_pairs_conflicts ascending) otherMember member
    rw [otherFirst, otherSecond, isFirst, isSecond]
  sound := by
    intro conflict member
    obtain ⟨first, firstMember, second, secondMember, below, between⟩ :=
      (mem_conflicts_iff ascending conflict).mp member
    obtain ⟨found, isFirst, isSecond⟩ := conflictBetween_eq_some_iff.mp between
    have clash : first.declared.Clash second.declared :=
      (isSome_conflictBetween_iff first second).mp (by rw [between]; rfl)
    exact ⟨first, firstMember, second, secondMember, below, isFirst, isSecond, clash, found⟩

/-- The parts of a graph all show the conflicts of its entries. -/
structure ShowsConflicts (entries : List DeclaredEntry) (found : List Conflict) (graph : Graph) :
    Prop where
  nodes : graph.nodes.toList = entries.map fun entry => (entry.index, entry)
  dependencies : graph.dependencies = found.map fun conflict =>
    ⟨conflict.first, conflict.second, conflict.kind, conflict.key⟩
  forward : ∀ dependency ∈ graph.dependencies, dependency.source < dependency.target
  /-- Every node has its entry, with the later entries that clash with it. -/
  adjacency : graph.adjacency.toList =
    entries.map fun entry => (entry.index, clashesAfter entries entry)
  ascending : ∀ entry ∈ entries, (clashesAfter entries entry).Pairwise (· < ·)
  /-- Every node has its entry, also one with which no earlier entry clashes. -/
  inDegrees : graph.inDegrees.toList =
    entries.map fun entry => (entry.index, (clashesBefore entries entry).length)

theorem Graph.Closed.mem_keys_adjacency {graph : Graph} (closed : graph.Closed) {index : Nat}
    (listed : index ∈ graph.adjacency.keys) : index ∈ graph.nodes.keys := by
  obtain ⟨_, found⟩ := (SortedMap.mem_keys_iff _ index).mp listed
  rw [Graph.get?_adjacency] at found
  split at found
  · rename_i isNamed
    rcases List.mem_append.mp isNamed with isNode | isSource
    · exact isNode
    · obtain ⟨dependency, member, rfl⟩ := List.mem_map.mp isSource
      exact (closed dependency member).1
  · cases found

theorem showsConflicts_ofEntries (ascending : Ascending entries) :
    ShowsConflicts entries (conflicts entries) (Graph.ofEntries entries) := by
  have forward := forward_ofEntries ascending
  have keysAscend : entries.Pairwise fun first second =>
      compare first.index second.index = .lt :=
    ascending.imp fun below => Nat.compare_eq_lt.mpr below
  have keys := Graph.keys_ofEntries ascending
  have isKey : ∀ entry ∈ entries, entry.index ∈ (Graph.ofEntries entries).nodes.keys :=
    fun entry member => keys ▸ List.mem_map_of_mem member
  refine ⟨?_, dependencies_ofEntries_eq ascending, fun dependency member =>
    (forward dependency member).1, ?_, ?_, ?_⟩
  · apply SortedMap.toList_eq_map keysAscend
    · intro entry member
      exact (Graph.get?_nodes_ofEntries ascending.nodup _ _).mpr ⟨member, rfl⟩
    · exact fun index listed => keys ▸ listed
  · apply SortedMap.toList_eq_map keysAscend
    · intro entry member
      rw [Graph.get?_adjacency, if_pos (List.mem_append_left _ (isKey entry member)),
        successors_ofEntries ascending member]
    · exact fun index listed => keys ▸ forward.closed.mem_keys_adjacency listed
  · intro entry _
    exact List.pairwise_map.mpr (ascending.filter _)
  · apply SortedMap.toList_eq_map keysAscend
    · intro entry member
      rw [Graph.get?_inDegrees, if_pos (List.mem_append_left _ (isKey entry member)),
        inDegree_ofEntries ascending member]
    · exact fun index listed => keys ▸ (forward.closed.mem_keys_inDegrees index).mp listed

end Conflicts

/-- The additions that build the graph of some entries and conflicts. -/
def additionsOf (entries : List DeclaredEntry) (found : List Conflict) : List Addition :=
  entries.map .node ++ found.map fun conflict => .dependency (Graph.dependencyOf conflict)

theorem ofAdditions_additionsOf (entries : List DeclaredEntry) (found : List Conflict) :
    Graph.ofAdditions (additionsOf entries found) = Graph.ofConflicts entries found := by
  simp only [Graph.ofAdditions, additionsOf, Graph.ofConflicts, List.foldl_append, List.foldl_map,
    Graph.add]

/-- Entries in ascending order of index have one conflict for each pair that clashes, in
lexicographic order.  Their graph has them as nodes and the conflicts as dependencies, each leading
to the greater index; an entry has as successors the later entries that clash with it, and as
in-degree the number of earlier ones.  So have the tables that are kept while it is built. -/
theorem graph_shows_conflicts {entries : List DeclaredEntry} (ascending : Ascending entries) :
    ListsConflicts entries (conflicts entries) ∧
      ShowsConflicts entries (conflicts entries)
        (.ofConflicts entries (conflicts entries)) ∧
      Graph.ofAdditions (additionsOf entries (conflicts entries)) =
        .ofConflicts entries (conflicts entries) ∧
      Tables.ofAdditions (additionsOf entries (conflicts entries)) =
        .ofGraph (.ofConflicts entries (conflicts entries)) := by
  have built := ofAdditions_additionsOf entries (conflicts entries)
  refine ⟨listsConflicts_conflicts ascending, showsConflicts_ofEntries ascending, built, ?_⟩
  rw [Tables.ofAdditions_eq, built]

/-- Transfers around a ring of three accounts, and a greeting from outside. -/
def ringTransfers : List Entry :=
  [⟨3, accountOf 1, .transfer (accountOf 2) 5 []⟩, ⟨5, accountOf 2, .transfer (accountOf 3) 5 []⟩,
    ⟨8, accountOf 4, .hi []⟩, ⟨9, accountOf 3, .transfer (accountOf 1) 5 []⟩]

/-- Each transfer clashes with both others, each time on the account that the two share. -/
theorem ringTransfers_shown :
    Ascending (ringTransfers.map Entry.declare) ∧
      conflicts (ringTransfers.map Entry.declare) =
        [⟨3, 5, .writeWrite, .ofBalance (accountOf 2)⟩,
          ⟨3, 9, .writeWrite, .ofBalance (accountOf 1)⟩,
          ⟨5, 9, .writeWrite, .ofBalance (accountOf 3)⟩] ∧
      (Graph.ofConflicts (ringTransfers.map Entry.declare)
        (conflicts (ringTransfers.map Entry.declare))).adjacency.toList =
          [(3, [5, 9]), (5, [9]), (8, []), (9, [])] ∧
      (Graph.ofConflicts (ringTransfers.map Entry.declare)
        (conflicts (ringTransfers.map Entry.declare))).inDegrees.toList =
          [(3, 0), (5, 1), (8, 0), (9, 2)] := by
  have ascending : Ascending (ringTransfers.map Entry.declare) := by
    simp [Ascending, ringTransfers, Entry.declare, DeclaredEntry.index]
  obtain ⟨_, shows, _⟩ := graph_shows_conflicts ascending
  refine ⟨ascending, by decide +kernel, shows.adjacency.trans ?_, shows.inDegrees.trans ?_⟩
  · decide +kernel
  · decide +kernel

end Batch

end PoolLedger
