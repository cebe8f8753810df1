import Mathlib.Data.List.Perm.Basic
import PoolLedger.Batch.Graph
import PoolLedger.Proofs.DeclarationClash
import PoolLedger.Proofs.SortBy
import PoolLedger.Proofs.SortedMap

/-!
# The graph of a batch

For entries in strictly ascending order of index, the dependencies of the graph
are the clashing pairs, and each leads from the smaller index to the greater
one.  The nodes are the entries themselves.
-/

namespace PoolLedger

namespace Batch

/-- Entries are listed in strictly ascending order of index. -/
def Ascending (entries : List DeclaredEntry) : Prop :=
  entries.Pairwise fun first second => first.index < second.index

theorem Ascending.nodup {entries : List DeclaredEntry} (ascending : Ascending entries) :
    (entries.map (·.index)).Nodup :=
  nodup_map_of_pairwise_lt ascending

theorem conflictBetween_eq_some_iff {first second : DeclaredEntry} {conflict : Conflict} :
    conflictBetween first second = some conflict ↔
      first.declared.conflict? second.declared = some (conflict.key, conflict.kind) ∧
        conflict.first = first.index ∧ conflict.second = second.index := by
  simp only [conflictBetween, Option.map_eq_some_iff, Prod.exists]
  constructor
  · rintro ⟨key, kind, found, rfl⟩
    exact ⟨found, rfl, rfl⟩
  · rintro ⟨found, isFirst, isSecond⟩
    refine ⟨conflict.key, conflict.kind, found, ?_⟩
    rw [← isFirst, ← isSecond]

theorem isSome_conflictBetween_iff (first second : DeclaredEntry) :
    (conflictBetween first second).isSome = true ↔ first.declared.Clash second.declared := by
  rw [conflictBetween, Option.isSome_map]
  exact Declaration.isSome_conflict?_iff first.declared second.declared

theorem mem_conflicts_iff {entries : List DeclaredEntry} (ascending : Ascending entries)
    (conflict : Conflict) :
    conflict ∈ conflicts entries ↔
      ∃ first ∈ entries, ∃ second ∈ entries, first.index < second.index ∧
        conflictBetween first second = some conflict := by
  induction entries with
  | nil => simp [conflicts]
  | cons head rest ih =>
      have headBelow := (List.pairwise_cons.mp ascending).1
      rw [conflicts, List.mem_append, ih (List.pairwise_cons.mp ascending).2, List.mem_filterMap]
      constructor
      · rintro (⟨second, member, found⟩ | ⟨first, firstMember, second, secondMember, rest⟩)
        · exact ⟨head, List.mem_cons_self, second, List.mem_cons_of_mem _ member,
            headBelow second member, found⟩
        · exact ⟨first, List.mem_cons_of_mem _ firstMember, second,
            List.mem_cons_of_mem _ secondMember, rest⟩
      · rintro ⟨first, firstMember, second, secondMember, below, found⟩
        rcases List.mem_cons.mp secondMember with rfl | secondInRest
        · -- Nothing comes before the head.
          rcases List.mem_cons.mp firstMember with rfl | firstInRest
          · exact absurd below (Nat.lt_irrefl _)
          · exact absurd below (Nat.lt_asymm (headBelow first firstInRest))
        · rcases List.mem_cons.mp firstMember with rfl | firstInRest
          · exact .inl ⟨second, secondInRest, found⟩
          · exact .inr ⟨first, firstInRest, second, secondInRest, below, found⟩

namespace Graph

/-- The graph of entries and all their conflicts. -/
def ofEntries (entries : List DeclaredEntry) : Graph :=
  .ofConflicts entries (conflicts entries)

private theorem foldl_addDependency (graph : Graph) (conflicts : List Conflict) :
    conflicts.foldl (fun graph conflict => graph.addDependency (dependencyOf conflict)) graph =
      { graph with dependencies := graph.dependencies ++ conflicts.map dependencyOf } := by
  induction conflicts generalizing graph with
  | nil => simp
  | cons conflict rest ih =>
      rw [List.foldl_cons, ih]
      simp [addDependency]

private theorem foldl_addNode_dependencies (graph : Graph) (entries : List DeclaredEntry) :
    (entries.foldl addNode graph).dependencies = graph.dependencies := by
  induction entries generalizing graph with
  | nil => rfl
  | cons entry rest ih => rw [List.foldl_cons, ih, addNode]

theorem dependencies_ofEntries (entries : List DeclaredEntry) :
    (ofEntries entries).dependencies = (conflicts entries).map dependencyOf := by
  rw [ofEntries, ofConflicts, foldl_addDependency, foldl_addNode_dependencies]
  simp [empty]

private theorem get?_foldl_addNode {graph : Graph} {entries : List DeclaredEntry}
    (distinct : (entries.map (·.index)).Nodup) (index : Nat) (entry : DeclaredEntry) :
    (entries.foldl addNode graph).nodes.get? index = some entry ↔
      (entry ∈ entries ∧ entry.index = index) ∨
        (index ∉ entries.map (·.index) ∧ graph.nodes.get? index = some entry) := by
  induction entries generalizing graph with
  | nil => simp
  | cons head rest ih =>
      obtain ⟨headAbsent, restDistinct⟩ := List.nodup_cons.mp distinct
      rw [List.foldl_cons, ih restDistinct, addNode, SortedMap.get?_insert]
      by_cases isHead : index = head.index
      · subst isHead
        have notInRest : ¬ (entry ∈ rest ∧ entry.index = head.index) := by
          rintro ⟨member, same⟩
          exact headAbsent (List.mem_map.mpr ⟨entry, member, same⟩)
        simp only [notInRest, headAbsent, not_false_eq_true, if_true, Option.some.injEq,
          true_and, false_or, List.mem_cons, List.map_cons, not_true_eq_false,
          false_and, or_false]
        constructor
        · rintro rfl
          exact ⟨.inl rfl, rfl⟩
        · rintro ⟨isHead | inRest, same⟩
          · exact isHead.symm
          · exact absurd ⟨inRest, same⟩ notInRest
      · have notHead : entry.index = index → entry ≠ head := by
          rintro same rfl
          exact isHead same.symm
        simp only [List.mem_cons, List.map_cons, isHead, false_or]
        constructor
        · rintro (⟨member, same⟩ | old)
          · exact .inl ⟨.inr member, same⟩
          · exact .inr old
        · rintro (⟨rfl | member, same⟩ | old)
          · exact absurd rfl (notHead same)
          · exact .inl ⟨member, same⟩
          · exact .inr old

theorem get?_nodes_ofEntries {entries : List DeclaredEntry}
    (distinct : (entries.map (·.index)).Nodup) (index : Nat) (entry : DeclaredEntry) :
    (ofEntries entries).nodes.get? index = some entry ↔ entry ∈ entries ∧ entry.index = index := by
  rw [ofEntries, ofConflicts, foldl_addDependency, get?_foldl_addNode distinct]
  simp [empty]

theorem mem_keys_ofEntries {entries : List DeclaredEntry}
    (distinct : (entries.map (·.index)).Nodup) (index : Nat) :
    index ∈ (ofEntries entries).nodes.keys ↔ index ∈ entries.map (·.index) := by
  simp only [SortedMap.mem_keys_iff, get?_nodes_ofEntries distinct, List.mem_map]

theorem keys_ofEntries {entries : List DeclaredEntry} (ascending : Ascending entries) :
    (ofEntries entries).nodes.keys = entries.map (·.index) := by
  apply SortedMap.eq_of_pairwise_lt_of_mem_iff (SortedMap.pairwise_keys _)
  · exact List.pairwise_map.mpr (ascending.imp fun below => Nat.compare_eq_lt.mpr below)
  · exact mem_keys_ofEntries ascending.nodup

/-- The dependencies between two indices of a batch are its clashing pairs, smaller index
first. -/
theorem exists_dependency_iff {entries : List DeclaredEntry} (ascending : Ascending entries)
    (source target : Nat) :
    (∃ dependency ∈ (ofEntries entries).dependencies,
        dependency.source = source ∧ dependency.target = target) ↔
      ∃ first ∈ entries, ∃ second ∈ entries, first.index = source ∧ second.index = target ∧
        source < target ∧ first.declared.Clash second.declared := by
  rw [dependencies_ofEntries]
  constructor
  · rintro ⟨_, member, rfl, rfl⟩
    obtain ⟨conflict, found, rfl⟩ := List.mem_map.mp member
    obtain ⟨first, firstMember, second, secondMember, below, between⟩ :=
      (mem_conflicts_iff ascending conflict).mp found
    obtain ⟨_, isFirst, isSecond⟩ := conflictBetween_eq_some_iff.mp between
    have clash : first.declared.Clash second.declared :=
      (isSome_conflictBetween_iff first second).mp (by rw [between]; rfl)
    rw [dependencyOf, isFirst, isSecond, if_pos below]
    exact ⟨first, firstMember, second, secondMember, rfl, rfl, below, clash⟩
  · rintro ⟨first, firstMember, second, secondMember, rfl, rfl, below, clash⟩
    obtain ⟨conflict, between⟩ := Option.isSome_iff_exists.mp
      ((isSome_conflictBetween_iff first second).mpr clash)
    obtain ⟨_, isFirst, isSecond⟩ := conflictBetween_eq_some_iff.mp between
    refine ⟨dependencyOf conflict, List.mem_map_of_mem ((mem_conflicts_iff ascending conflict).mpr
      ⟨first, firstMember, second, secondMember, below, between⟩), ?_⟩
    rw [dependencyOf, isFirst, isSecond, if_pos below]
    exact ⟨rfl, rfl⟩

end Graph

end Batch

end PoolLedger
