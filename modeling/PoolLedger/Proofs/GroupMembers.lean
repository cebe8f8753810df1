import PoolLedger.Proofs.BatchSerial

/-!
# The members of groups

The members that a plan runs for a group are the entries of the batch whose index
the group lists, in ascending order of index.  Some groups together run their
entries as if in ascending order of index.
-/

namespace PoolLedger

namespace Batch

/-- The entries of a batch that some groups list, in ascending order of index. -/
def listedIn (groups : List Group) (entries : List Entry) : List Entry :=
  sortBy Entry.index
    (entries.filter fun entry => groups.any fun group => group.indices.contains entry.index)

section Members

variable {config : Config} {entries : List Entry} {schedule : Schedule} {group : Group}
  {groups : List Group}

theorem valid_of_plan {made : Plan} (planned : Batch.plan config entries = .ok made) :
    (entries.map (·.index)).Nodup ∧ made.graph = Graph.ofEntries (arrange entries) ∧
      made.schedule.Valid entries := by
  obtain ⟨distinct, sameGraph, fits, ascends⟩ := fits_of_plan planned
  exact ⟨distinct, sameGraph, Schedule.valid_of_fits distinct fits ascends⟩

theorem plan_of_schedule (scheduled : Batch.schedule config entries = .ok schedule) :
    ∃ made, Batch.plan config entries = .ok made ∧ made.schedule = schedule := by
  rw [Batch.schedule] at scheduled
  cases planned : Batch.plan config entries with
  | error error =>
      rw [planned] at scheduled
      cases scheduled
  | ok made =>
      rw [planned] at scheduled
      cases scheduled
      exact ⟨made, rfl, rfl⟩

theorem mem_listedIn_iff (entry : Entry) :
    entry ∈ listedIn groups entries ↔
      entry ∈ entries ∧ ∃ group ∈ groups, entry.index ∈ group.indices := by
  rw [listedIn, (sortBy_perm _ _).mem_iff]
  simp

theorem ascending_listedIn (distinct : (entries.map (·.index)).Nodup) (groups : List Group) :
    (listedIn groups entries).Pairwise fun first second => first.index < second.index :=
  pairwise_lt_sortBy (distinct.sublist (List.filter_sublist.map _))

theorem mem_membersOf_iff (distinct : (entries.map (·.index)).Nodup) (group : Group)
    (entry : Entry) :
    entry ∈ Ledger.membersOf (Graph.ofEntries (arrange entries)) group ↔
      entry ∈ entries ∧ entry.index ∈ group.indices := by
  simp only [Ledger.membersOf, List.mem_filterMap, entry_at_iff distinct]
  constructor
  · rintro ⟨_, inGroup, member, rfl⟩
    exact ⟨member, inGroup⟩
  · rintro ⟨member, inGroup⟩
    exact ⟨entry.index, inGroup, member, rfl⟩

/-- A group runs one member for each index that it lists. -/
theorem map_index_membersOf (distinct : (entries.map (·.index)).Nodup)
    (valid : schedule.Valid entries) (member : group ∈ schedule.groups) :
    (Ledger.membersOf (Graph.ofEntries (arrange entries)) group).map (·.index) =
      group.indices := by
  rw [Ledger.membersOf, List.map_filterMap]
  have found : ∀ index ∈ group.indices,
      (((Graph.ofEntries (arrange entries)).nodes.get? index).map (·.entry)).map (·.index) =
        some index := by
    intro index inGroup
    have listed : index ∈ schedule.flatten := List.mem_flatMap.mpr ⟨group, member, inGroup⟩
    obtain ⟨entry, isEntry, rfl⟩ := List.mem_map.mp (valid.lists.mem_iff.mp listed)
    rw [(entry_at_iff distinct entry.index entry).mpr ⟨isEntry, rfl⟩]
    rfl
  rw [List.filterMap_congr found, List.filterMap_some]

theorem membersOf_eq_listedIn (distinct : (entries.map (·.index)).Nodup)
    (valid : schedule.Valid entries) (member : group ∈ schedule.groups) :
    Ledger.membersOf (Graph.ofEntries (arrange entries)) group = listedIn [group] entries := by
  have ascending : (Ledger.membersOf (Graph.ofEntries (arrange entries)) group).Pairwise
      fun first second => first.index < second.index := by
    apply List.pairwise_map.mp
    rw [map_index_membersOf distinct valid member]
    exact valid.ascends group member
  refine (sortBy_eq_of_perm (List.Perm.symm ?_) ascending).symm
  refine (List.perm_ext_iff_of_nodup ?_ ?_).mpr fun entry => ?_
  · exact (nodup_map_of_pairwise_lt ascending).of_map
  · exact distinct.of_map.filter _
  · rw [mem_membersOf_iff distinct]
    simp

/-- Some first groups of a schedule run as their entries do in ascending order of index. -/
theorem runSerial_listedIn (params : Params) (store : Store)
    (distinct : (entries.map (·.index)).Nodup) (valid : schedule.Valid entries)
    {rest : List Group} (first : schedule.groups = groups ++ rest) :
    (runSerial params store
        (groups.flatMap (Ledger.membersOf (Graph.ofEntries (arrange entries))))).1.Perm
        (runSerial params store (listedIn groups entries)).1 ∧
      (runSerial params store
        (groups.flatMap (Ledger.membersOf (Graph.ofEntries (arrange entries))))).2 =
        (runSerial params store (listedIn groups entries)).2 := by
  have fits := valid.fits distinct
  have clashesAscend := clashes_ascend_membersOf distinct fits
  have perm := membersOf_perm distinct fits
  rw [first, List.flatMap_append] at clashesAscend perm
  have nodup := (perm.nodup_iff.mpr distinct.of_map).sublist (List.sublist_append_left _ _)
  refine runSerial_eq_of_clashes_ascend params store ?_
    (List.pairwise_append.mp clashesAscend).1 (ascending_listedIn distinct groups)
  refine (List.perm_ext_iff_of_nodup nodup ?_).mpr fun entry => ?_
  · exact (nodup_map_of_pairwise_lt (ascending_listedIn distinct groups)).of_map
  · simp only [List.mem_flatMap, mem_membersOf_iff distinct, mem_listedIn_iff]
    constructor
    · rintro ⟨group, isGroup, member, inGroup⟩
      exact ⟨member, group, isGroup, inGroup⟩
    · rintro ⟨member, group, isGroup, inGroup⟩
      exact ⟨group, isGroup, member, inGroup⟩

end Members

end Batch

end PoolLedger
