import Mathlib.Algebra.BigOperators.Group.List.Basic
import Mathlib.Algebra.Order.Ring.Nat
import PoolLedger.Batch.Plan
import PoolLedger.Proofs.ScheduleCheck

/-!
# The schedules of a batch

Both ways to schedule a batch with distinct indices, by layers and one entry at
a time, give a schedule that fits the graph of the batch.  The share of
conflicts that decides between them is that of the clashing pairs.
-/

namespace PoolLedger

namespace Batch

section Arranged

variable {entries : List Entry}

theorem arrange_eq_map (entries : List Entry) :
    arrange entries = (sortBy Entry.index entries).map Entry.declare :=
  sortBy_map Entry.declare entries

theorem mem_arrange_iff (declaredEntry : DeclaredEntry) :
    declaredEntry ∈ arrange entries ↔ ∃ entry ∈ entries, entry.declare = declaredEntry := by
  rw [arrange, (sortBy_perm _ _).mem_iff, List.mem_map]

theorem length_arrange (entries : List Entry) : (arrange entries).length = entries.length := by
  rw [arrange, (sortBy_perm _ _).length_eq, List.length_map]

theorem map_index_arrange_perm (entries : List Entry) :
    ((arrange entries).map (·.index)).Perm (entries.map (·.index)) := by
  have perm := (sortBy_perm DeclaredEntry.index (entries.map Entry.declare)).map (·.index)
  rw [List.map_map] at perm
  exact perm

theorem ascending_arrange (distinct : (entries.map (·.index)).Nodup) :
    Ascending (arrange entries) := by
  apply pairwise_lt_sortBy
  rw [List.map_map]
  exact distinct

/-- A batch with distinct indices gives a graph whose dependencies lead from nodes to nodes of
greater index. -/
theorem forward_ofEntries {declaredEntries : List DeclaredEntry}
    (ascending : Ascending declaredEntries) : (Graph.ofEntries declaredEntries).Forward := by
  intro dependency member
  obtain ⟨first, firstMember, second, secondMember, isFirst, isSecond, below, _⟩ :=
    (Graph.exists_dependency_iff ascending dependency.source dependency.target).mp
      ⟨dependency, member, rfl, rfl⟩
  rw [Graph.keys_ofEntries ascending, ← isFirst, ← isSecond]
  rw [← isFirst, ← isSecond] at below
  exact ⟨below, List.mem_map_of_mem firstMember, List.mem_map_of_mem secondMember⟩

end Arranged

/-- How many pairs of entries clash, each pair counted at its smaller index. -/
def clashCount (entries : List Entry) : Nat :=
  (entries.map fun first =>
    entries.countP fun second => first.index < second.index ∧ first.Clash second).sum

theorem clashCount_perm {entries others : List Entry} (perm : entries.Perm others) :
    clashCount entries = clashCount others := by
  have sameCounts : ∀ first : Entry,
      entries.countP (fun second => first.index < second.index ∧ first.Clash second) =
        others.countP (fun second => first.index < second.index ∧ first.Clash second) :=
    fun first => perm.countP_eq _
  simp only [clashCount, sameCounts]
  exact (perm.map _).sum_eq

theorem clashCount_cons {head : Entry} {rest : List Entry}
    (headBelow : ∀ other ∈ rest, head.index < other.index) :
    clashCount (head :: rest) = rest.countP (head.Clash ·) + clashCount rest := by
  have headRow : (head :: rest).countP (fun second =>
      head.index < second.index ∧ head.Clash second) = rest.countP (head.Clash ·) := by
    rw [List.countP_cons_of_neg (by simp)]
    apply List.countP_congr
    intro second member
    simp [headBelow second member]
  have restRows : (rest.map fun first => (head :: rest).countP fun second =>
      first.index < second.index ∧ first.Clash second) =
      rest.map fun first => rest.countP fun second =>
        first.index < second.index ∧ first.Clash second := by
    apply List.map_congr_left
    intro first member
    have notBelow := Nat.lt_asymm (headBelow first member)
    rw [List.countP_cons_of_neg (by simp [notBelow])]
  rw [clashCount, List.map_cons, List.sum_cons, headRow, restRows, clashCount]

theorem length_conflicts_map {entries : List Entry}
    (ascending : entries.Pairwise fun first second => first.index < second.index) :
    (conflicts (entries.map Entry.declare)).length = clashCount entries := by
  induction entries with
  | nil => rfl
  | cons head rest ih =>
      obtain ⟨headBelow, restAscending⟩ := List.pairwise_cons.mp ascending
      rw [List.map_cons, conflicts, List.length_append, ih restAscending,
        clashCount_cons headBelow, List.filterMap_map, List.length_filterMap_eq_countP]
      congr 1
      apply List.countP_congr
      intro second _
      rw [decide_eq_true_eq]
      exact isSome_conflictBetween_iff head.declare second.declare

/-- The search finds one conflict for each clashing pair. -/
theorem length_conflicts_arrange {entries : List Entry}
    (distinct : (entries.map (·.index)).Nodup) :
    (conflicts (arrange entries)).length = clashCount entries := by
  rw [arrange_eq_map, length_conflicts_map (pairwise_lt_sortBy distinct)]
  exact clashCount_perm (sortBy_perm _ _)

theorem length_conflicts_le (entries : List DeclaredEntry) :
    (conflicts entries).length ≤ entries.length * (entries.length - 1) / 2 := by
  rw [Nat.le_div_iff_mul_le Nat.two_pos]
  induction entries with
  | nil => simp [conflicts]
  | cons head rest ih =>
      have row := List.length_filterMap_le (conflictBetween head) rest
      rw [conflicts, List.length_append, List.length_cons, Nat.add_sub_cancel]
      have total : (rest.length + 1) * rest.length =
          rest.length * (rest.length - 1) + rest.length * 2 := by
        cases rest.length with
        | zero => rfl
        | succ count =>
            rw [Nat.add_sub_cancel]
            rw [← Nat.mul_add, Nat.mul_comm]
      omega

theorem clashCount_le {entries : List Entry} (distinct : (entries.map (·.index)).Nodup) :
    clashCount entries ≤ entries.length * (entries.length - 1) / 2 := by
  have bound := length_conflicts_le (arrange entries)
  rwa [length_conflicts_arrange distinct, length_arrange] at bound

/-- The share of clashing pairs among all pairs of entries, in whole percent. -/
def clashShare (entries : List Entry) : Nat :=
  100 * clashCount entries / (entries.length * (entries.length - 1) / 2)

/-- The share as 64-bit words give it: the hundredfold count stops at the greatest word. -/
def clashShareWord (entries : List Entry) : Nat :=
  min (100 * clashCount entries) (2 ^ 64 - 1) / (entries.length * (entries.length - 1) / 2)

theorem conflictPercentage_arrange {entries : List Entry}
    (distinct : (entries.map (·.index)).Nodup) (fewEntries : entries.length < 2 ^ 32) :
    conflictPercentage (conflicts (arrange entries)).length (arrange entries).length =
      clashShareWord entries := by
  have bound := clashCount_le distinct
  rw [length_conflicts_arrange distinct, length_arrange, clashShareWord]
  have noWrap : entries.length * (entries.length - 1) < UInt64.size := by
    have product : entries.length * (entries.length - 1) ≤ (2 ^ 32 - 1) * (2 ^ 32 - 1) :=
      Nat.mul_le_mul (by omega) (by omega)
    unfold UInt64.size
    omega
  rw [conflictPercentage]
  split
  · rename_i atMostOne
    have noPairs : entries.length * (entries.length - 1) = 0 := by
      rw [Nat.mul_eq_zero]
      omega
    rw [noPairs, Nat.zero_div, Nat.div_zero]
  · rw [Nat.mod_eq_of_lt noWrap, Nat.mul_comm (clashCount entries)]
    apply Nat.min_eq_right
    apply Nat.div_le_of_le_mul
    calc
      min (100 * clashCount entries) (2 ^ 64 - 1) ≤ 100 * clashCount entries :=
        Nat.min_le_left _ _
      _ ≤ entries.length * (entries.length - 1) / 2 * 100 := by
        rw [Nat.mul_comm]
        exact Nat.mul_le_mul_right 100 bound

/-- Below the greatest word the two shares are the same. -/
theorem clashShareWord_eq {entries : List Entry} (small : 100 * clashCount entries < 2 ^ 64) :
    clashShareWord entries = clashShare entries := by
  rw [clashShareWord, clashShare, Nat.min_eq_left (by omega)]

/-- A schedule of a batch that runs every clashing pair in ascending order of index. -/
structure Schedule.Valid (entries : List Entry) (schedule : Schedule) : Prop where
  /-- Every index is in exactly one group, and nothing else is. -/
  lists : schedule.flatten.Perm (entries.map (·.index))
  /-- The smaller index of a clashing pair is in a strictly earlier group. -/
  separates : ∀ first ∈ entries, ∀ second ∈ entries, first.index < second.index →
    first.Clash second → ∀ earlier later, schedule.Places earlier first.index →
      schedule.Places later second.index → earlier < later
  ascends : ∀ group ∈ schedule.groups, group.indices.Pairwise (· < ·)

section Schedules

variable {entries : List Entry} {schedule : Schedule}

/-- The check decides validity up to the order inside the groups. -/
theorem Schedule.fits_arrange_iff (distinct : (entries.map (·.index)).Nodup) :
    schedule.fits (Graph.ofEntries (arrange entries)) = true ↔
      schedule.flatten.Perm (entries.map (·.index)) ∧ schedule.Separates (arrange entries) := by
  rw [Schedule.fits_iff (ascending_arrange distinct)]
  have perm := map_index_arrange_perm entries
  exact and_congr_left' ⟨fun lists => lists.trans perm, fun lists => lists.trans perm.symm⟩

theorem Schedule.valid_of_fits (distinct : (entries.map (·.index)).Nodup)
    (fits : schedule.fits (Graph.ofEntries (arrange entries)) = true)
    (ascends : ∀ group ∈ schedule.groups, group.indices.Pairwise (· < ·)) :
    schedule.Valid entries := by
  obtain ⟨lists, separates⟩ := (Schedule.fits_arrange_iff distinct).mp fits
  refine ⟨lists, ?_, ascends⟩
  intro first firstMember second secondMember below clash
  exact separates first.declare ((mem_arrange_iff _).mpr ⟨first, firstMember, rfl⟩)
    second.declare ((mem_arrange_iff _).mpr ⟨second, secondMember, rfl⟩) below clash

/-- A valid schedule passes the check. -/
theorem Schedule.Valid.fits (distinct : (entries.map (·.index)).Nodup)
    (valid : schedule.Valid entries) :
    schedule.fits (Graph.ofEntries (arrange entries)) = true := by
  rw [Schedule.fits_arrange_iff distinct]
  refine ⟨valid.lists, ?_⟩
  intro _ firstArranged _ secondArranged below clash
  obtain ⟨first, firstMember, rfl⟩ := (mem_arrange_iff _).mp firstArranged
  obtain ⟨second, secondMember, rfl⟩ := (mem_arrange_iff _).mp secondArranged
  exact valid.separates first firstMember second secondMember below clash

theorem Schedule.places_sequential_iff (indices : List Nat) (position index : Nat) :
    (Schedule.sequential indices).Places position index ↔ indices[position]? = some index := by
  simp only [Schedule.Places, Schedule.sequential, Schedule.ofLayers, Schedule.ofGroups,
    List.getElem?_mapIdx, List.getElem?_map]
  cases found : indices[position]? <;> simp [eq_comm]

/-- One entry at a time in ascending order separates every pair. -/
theorem Schedule.fits_sequential (distinct : (entries.map (·.index)).Nodup) :
    (Schedule.sequential ((arrange entries).map (·.index))).fits
      (Graph.ofEntries (arrange entries)) = true := by
  have ascending := ascending_arrange distinct
  rw [Schedule.fits_iff ascending]
  constructor
  · rw [Schedule.sequential, Schedule.flatten_ofLayers, ← List.flatMap_def,
      List.flatMap_singleton']
  · intro first firstMember second secondMember below _ earlier later atFirst atSecond
    rw [Schedule.places_sequential_iff] at atFirst atSecond
    obtain ⟨firstBound, isFirst⟩ := List.getElem?_eq_some_iff.mp atFirst
    obtain ⟨secondBound, isSecond⟩ := List.getElem?_eq_some_iff.mp atSecond
    have indicesAscend : ((arrange entries).map (·.index)).Pairwise (· < ·) :=
      List.pairwise_map.mpr ascending
    rcases Nat.lt_trichotomy earlier later with ahead | same | behind
    · exact ahead
    · subst same
      omega
    · have above := List.pairwise_iff_getElem.mp indicesAscend later earlier secondBound
        firstBound behind
      omega

theorem Schedule.ascends_sequential (indices : List Nat) :
    ∀ group ∈ (Schedule.sequential indices).groups, group.indices.Pairwise (· < ·) := by
  intro group member
  have isLayer : group.indices ∈ (Schedule.sequential indices).groups.map (·.indices) :=
    List.mem_map_of_mem member
  rw [Schedule.sequential, Schedule.map_indices_ofLayers, List.mem_map] at isLayer
  obtain ⟨index, _, isGroup⟩ := isLayer
  rw [← isGroup]
  exact List.pairwise_singleton _ _

/-- The layers of a batch fit its graph. -/
theorem schedule_ofEntries (distinct : (entries.map (·.index)).Nodup) :
    ∃ schedule, (Graph.ofEntries (arrange entries)).schedule = .ok schedule ∧
      schedule.fits (Graph.ofEntries (arrange entries)) = true ∧
      ∀ group ∈ schedule.groups, group.indices.Pairwise (· < ·) := by
  have ascending := ascending_arrange distinct
  obtain ⟨layers, found, lists, ordered, ascends⟩ := (forward_ofEntries ascending).layers?
  refine ⟨.ofLayers layers, by rw [Graph.schedule, found], ?_, ?_⟩
  · rw [Graph.keys_ofEntries ascending, ← Schedule.flatten_ofLayers] at lists
    rw [Schedule.fits_iff ascending, Schedule.separates_iff_inOrder ascending lists,
      Schedule.inOrder, Schedule.respects_eq_true_iff, Schedule.map_indices_ofLayers]
    exact ⟨lists, ordered⟩
  · intro group member
    apply ascends
    rw [← Schedule.map_indices_ofLayers layers]
    exact List.mem_map_of_mem member

end Schedules

end Batch

end PoolLedger
