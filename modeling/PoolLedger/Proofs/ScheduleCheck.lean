import Mathlib.Data.List.Nodup
import PoolLedger.Batch.Check
import PoolLedger.Proofs.ConflictGraph
import PoolLedger.Proofs.LayeringRounds

/-!
# What the check of a schedule accepts

A schedule fits the graph of a batch exactly when it lists every index once and
puts the smaller index of each clashing pair into an earlier group.
-/

namespace PoolLedger

namespace Batch

namespace Schedule

theorem map_indices_ofLayers (layers : List (List Nat)) :
    (ofLayers layers).groups.map (·.indices) = layers := by
  apply List.ext_getElem?
  intro position
  cases found : layers[position]? <;> simp [ofLayers, ofGroups, found]

theorem flatten_ofLayers (layers : List (List Nat)) :
    (ofLayers layers).flatten = layers.flatten := by
  rw [flatten, List.flatMap_def, map_indices_ofLayers]

theorem respects_eq_true_iff (dependencies : List Dependency) (before : List Nat)
    (groups : List Group) :
    respects dependencies before groups = true ↔
      Layering.Ordered dependencies before (groups.map (·.indices)) := by
  induction groups generalizing before with
  | nil => simp [respects, Layering.Ordered]
  | cons group rest ih =>
      simp only [respects, Bool.and_eq_true, ih, List.map_cons, Layering.Ordered,
        List.all_eq_true, Bool.or_eq_true, bne_iff_ne, List.contains_iff_mem]
      apply and_congr_left
      intro _
      constructor
      · intro sources dependency member inGroup
        rcases sources dependency.target inGroup dependency member with other | known
        · exact absurd rfl other
        · exact known
      · intro sources index inGroup dependency member
        by_cases isTarget : dependency.target = index
        · exact .inr (sources dependency member (isTarget ▸ inGroup))
        · exact .inl isTarget

theorem allCompatible_eq_true_iff (graph : Graph) (indices : List Nat) :
    allCompatible graph indices = true ↔
      indices.Pairwise fun first second => compatible graph first second = true := by
  induction indices with
  | nil => simp [allCompatible]
  | cons index rest ih => simp [allCompatible, ih]

theorem complete_eq_true_iff (schedule : Schedule) (graph : Graph) :
    schedule.complete graph = true ↔ schedule.flatten.Perm graph.nodes.keys := by
  have keysNodup := SortedMap.nodup_keys graph.nodes
  have listed := SortedMap.mem_keys_ofList (schedule.flatten.map fun index => (index, ()))
  simp only [List.map_map, Function.comp_def, List.map_id_fun', id_eq] at listed
  simp only [complete, Bool.and_eq_true, beq_iff_eq, ← SortedMap.length_keys]
  generalize (SortedMap.ofList (schedule.flatten.map fun index => (index, ()))) = named at listed ⊢
  have namedNodup := SortedMap.nodup_keys named
  constructor
  · rintro ⟨sameLength, sameKeys⟩
    rw [sameKeys]
    have subperm : named.keys.Subperm schedule.flatten :=
      List.subperm_of_subset namedNodup fun index member => (listed index).mp member
    exact (subperm.perm_of_length_le (Nat.le_of_eq sameLength.symm)).symm
  · intro perm
    have flattenNodup := perm.nodup_iff.mpr keysNodup
    have samePerm : named.keys.Perm schedule.flatten :=
      (List.perm_ext_iff_of_nodup namedNodup flattenNodup).mpr listed
    refine ⟨samePerm.length_eq, ?_⟩
    apply SortedMap.eq_of_pairwise_lt_of_mem_iff (SortedMap.pairwise_keys _)
      (SortedMap.pairwise_keys _)
    intro index
    rw [listed, perm.mem_iff]

/-- The group at a position lists an index. -/
def Places (schedule : Schedule) (position index : Nat) : Prop :=
  ∃ group, schedule.groups[position]? = some group ∧ index ∈ group.indices

theorem mem_flatten_iff (schedule : Schedule) (index : Nat) :
    index ∈ schedule.flatten ↔ ∃ position, schedule.Places position index := by
  simp only [flatten, List.mem_flatMap, Places]
  constructor
  · rintro ⟨group, isGroup, member⟩
    obtain ⟨position, found⟩ := List.mem_iff_getElem?.mp isGroup
    exact ⟨position, group, found, member⟩
  · rintro ⟨position, group, found, member⟩
    exact ⟨group, List.mem_iff_getElem?.mpr ⟨position, found⟩, member⟩

/-- An index that is listed once has one position. -/
theorem Places.unique {schedule : Schedule} (nodup : schedule.flatten.Nodup)
    {first second index : Nat} (atFirst : schedule.Places first index)
    (atSecond : schedule.Places second index) : first = second := by
  obtain ⟨firstGroup, firstFound, inFirst⟩ := atFirst
  obtain ⟨secondGroup, secondFound, inSecond⟩ := atSecond
  rw [flatten, List.nodup_flatMap] at nodup
  have disjoint := List.pairwise_iff_getElem.mp nodup.2
  obtain ⟨firstBound, rfl⟩ := List.getElem?_eq_some_iff.mp firstFound
  obtain ⟨secondBound, rfl⟩ := List.getElem?_eq_some_iff.mp secondFound
  rcases Nat.lt_trichotomy first second with below | same | above
  · exact absurd inSecond (disjoint first second firstBound secondBound below inFirst)
  · exact same
  · exact absurd inFirst (disjoint second first secondBound firstBound above inSecond)

theorem ordered_iff_places (dependencies : List Dependency) (before : List Nat)
    (groups : List Group) :
    Layering.Ordered dependencies before (groups.map (·.indices)) ↔
      ∀ dependency ∈ dependencies, ∀ (later : Nat) (group : Group),
        groups[later]? = some group → dependency.target ∈ group.indices →
          dependency.source ∈ before ∨ ∃ earlier < later, ∃ group : Group,
            groups[earlier]? = some group ∧ dependency.source ∈ group.indices := by
  induction groups generalizing before with
  | nil => simp [Layering.Ordered]
  | cons head rest ih =>
      rw [List.map_cons, Layering.Ordered, ih]
      constructor
      · rintro ⟨inHead, inRest⟩ dependency member later group found isTarget
        cases later with
        | zero =>
            cases found
            exact .inl (inHead dependency member isTarget)
        | succ later =>
            rcases inRest dependency member later group found isTarget with known | waited
            · rcases List.mem_append.mp known with old | new
              · exact .inl old
              · exact .inr ⟨0, Nat.succ_pos later, head, rfl, new⟩
            · obtain ⟨earlier, below, source, sourceFound, isSource⟩ := waited
              exact .inr ⟨earlier + 1, Nat.succ_lt_succ below, source, sourceFound, isSource⟩
      · intro placed
        constructor
        · intro dependency member isTarget
          rcases placed dependency member 0 head rfl isTarget with known | ⟨_, below, _⟩
          · exact known
          · exact absurd below (Nat.not_lt_zero _)
        · intro dependency member later group found isTarget
          rcases placed dependency member (later + 1) group found isTarget with known | waited
          · exact .inl (List.mem_append_left _ known)
          · obtain ⟨earlier, below, source, sourceFound, isSource⟩ := waited
            cases earlier with
            | zero =>
                cases sourceFound
                exact .inl (List.mem_append_right _ isSource)
            | succ earlier =>
                exact .inr ⟨earlier, Nat.lt_of_succ_lt_succ below, source, sourceFound, isSource⟩

/-- Every dependency leads from an earlier group to a later one. -/
theorem inOrder_eq_true_iff (schedule : Schedule) (graph : Graph) :
    schedule.inOrder graph = true ↔
      ∀ dependency ∈ graph.dependencies, ∀ later, schedule.Places later dependency.target →
        ∃ earlier < later, schedule.Places earlier dependency.source := by
  rw [inOrder, respects_eq_true_iff, ordered_iff_places]
  simp only [List.not_mem_nil, false_or, Places, forall_exists_index, and_imp]

/-- The smaller index of every clashing pair is in an earlier group than the greater one. -/
def Separates (schedule : Schedule) (entries : List DeclaredEntry) : Prop :=
  ∀ first ∈ entries, ∀ second ∈ entries, first.index < second.index →
    first.declared.Clash second.declared → ∀ earlier later,
      schedule.Places earlier first.index → schedule.Places later second.index → earlier < later

section Fits

variable {schedule : Schedule} {entries : List DeclaredEntry}

theorem separates_iff_inOrder (ascending : Ascending entries)
    (perm : schedule.flatten.Perm (entries.map (·.index))) :
    schedule.Separates entries ↔ schedule.inOrder (Graph.ofEntries entries) = true := by
  have nodup : schedule.flatten.Nodup := perm.nodup_iff.mpr ascending.nodup
  rw [inOrder_eq_true_iff]
  constructor
  · intro separates dependency member later isTarget
    obtain ⟨first, firstMember, second, secondMember, isFirst, isSecond, below, clash⟩ :=
      (Graph.exists_dependency_iff ascending dependency.source dependency.target).mp
        ⟨dependency, member, rfl, rfl⟩
    rw [← isSecond] at isTarget
    rw [← isFirst, ← isSecond] at below
    have listed : first.index ∈ schedule.flatten :=
      perm.mem_iff.mpr (List.mem_map_of_mem firstMember)
    obtain ⟨earlier, isSource⟩ := (schedule.mem_flatten_iff first.index).mp listed
    rw [← isFirst]
    exact ⟨earlier, separates first firstMember second secondMember below clash earlier later
      isSource isTarget, isSource⟩
  · intro inOrder first firstMember second secondMember below clash earlier later atFirst atSecond
    obtain ⟨dependency, member, isSource, isTarget⟩ :=
      (Graph.exists_dependency_iff ascending first.index second.index).mpr
        ⟨first, firstMember, second, secondMember, rfl, rfl, below, clash⟩
    obtain ⟨position, positionBelow, placed⟩ :=
      inOrder dependency member later (by rw [isTarget]; exact atSecond)
    rw [isSource] at placed
    rw [atFirst.unique nodup placed]
    exact positionBelow

theorem compatible_of_not_clash (ascending : Ascending entries) {first second : DeclaredEntry}
    (firstMember : first ∈ entries) (secondMember : second ∈ entries)
    (noClash : ¬ first.declared.Clash second.declared) :
    compatible (Graph.ofEntries entries) first.index second.index = true := by
  have firstNode := (Graph.get?_nodes_ofEntries ascending.nodup first.index first).mpr
    ⟨firstMember, rfl⟩
  have secondNode := (Graph.get?_nodes_ofEntries ascending.nodup second.index second).mpr
    ⟨secondMember, rfl⟩
  have noConflict := (Declaration.conflict?_eq_none_iff _ _).mpr noClash
  simp only [compatible, firstNode, secondNode, noConflict, Option.isNone_none]

/-- Entries of one group do not clash. -/
theorem Separates.not_clash (separates : schedule.Separates entries)
    {first second : DeclaredEntry} (firstMember : first ∈ entries)
    (secondMember : second ∈ entries) (distinct : first.index ≠ second.index) {position : Nat}
    (atFirst : schedule.Places position first.index)
    (atSecond : schedule.Places position second.index) :
    ¬ first.declared.Clash second.declared := by
  intro clash
  rcases Nat.lt_or_gt_of_ne distinct with below | above
  · exact Nat.lt_irrefl position (separates first firstMember second secondMember below clash
      position position atFirst atSecond)
  · exact Nat.lt_irrefl position (separates second secondMember first firstMember above
      clash.symm position position atSecond atFirst)

theorem safe_of_separates (ascending : Ascending entries)
    (perm : schedule.flatten.Perm (entries.map (·.index)))
    (separates : schedule.Separates entries) {group : Group} (member : group ∈ schedule.groups) :
    safe (Graph.ofEntries entries) group = true := by
  obtain ⟨position, found⟩ := List.mem_iff_getElem?.mp member
  have nodup : group.indices.Nodup := by
    have flattenNodup : schedule.flatten.Nodup := perm.nodup_iff.mpr ascending.nodup
    rw [flatten, List.nodup_flatMap] at flattenNodup
    exact flattenNodup.1 group member
  have entryOf : ∀ index ∈ group.indices, ∃ entry ∈ entries, entry.index = index := by
    intro index inGroup
    have listed : index ∈ entries.map (·.index) :=
      perm.mem_iff.mp ((schedule.mem_flatten_iff index).mpr ⟨position, group, found, inGroup⟩)
    exact List.mem_map.mp listed
  rw [safe, allCompatible_eq_true_iff]
  refine nodup.imp_of_mem fun {first second} inFirst inSecond distinct => ?_
  obtain ⟨firstEntry, firstMember, rfl⟩ := entryOf first inFirst
  obtain ⟨secondEntry, secondMember, rfl⟩ := entryOf second inSecond
  apply compatible_of_not_clash ascending firstMember secondMember
  exact separates.not_clash firstMember secondMember distinct ⟨group, found, inFirst⟩
    ⟨group, found, inSecond⟩

/-- The check accepts exactly the schedules that list every index once and separate the
clashing pairs. -/
theorem fits_iff (ascending : Ascending entries) (schedule : Schedule) :
    schedule.fits (Graph.ofEntries entries) = true ↔
      schedule.flatten.Perm (entries.map (·.index)) ∧ schedule.Separates entries := by
  simp only [fits, Bool.and_eq_true, complete_eq_true_iff, Graph.keys_ofEntries ascending]
  constructor
  · rintro ⟨⟨perm, inOrder⟩, _⟩
    exact ⟨perm, (separates_iff_inOrder ascending perm).mpr inOrder⟩
  · rintro ⟨perm, separates⟩
    refine ⟨⟨perm, (separates_iff_inOrder ascending perm).mp separates⟩, ?_⟩
    rw [List.all_eq_true]
    intro group member
    exact safe_of_separates ascending perm separates member

end Fits

end Schedule

end Batch

end PoolLedger
