import Mathlib.Data.List.Nodup
import Mathlib.Data.List.Sort
import PoolLedger.SortBy

/-!
# Sorting by distinct numbers

The sort by a number is the insertion sort of lists.  Members with distinct
numbers have one ascending order.
-/

namespace PoolLedger

variable {α : Type} {number : α → Nat}

theorem insertBy_eq_orderedInsert (number : α → Nat) (element : α) (list : List α) :
    insertBy number element list =
      list.orderedInsert (fun first second => number first ≤ number second) element := by
  induction list with
  | nil => rfl
  | cons head rest ih => rw [insertBy, List.orderedInsert_cons, ih]

theorem sortBy_eq_insertionSort (number : α → Nat) (list : List α) :
    sortBy number list =
      list.insertionSort fun first second => number first ≤ number second := by
  induction list with
  | nil => rfl
  | cons head rest ih => rw [sortBy, insertBy_eq_orderedInsert, ih, List.insertionSort_cons]

theorem sortBy_perm (number : α → Nat) (list : List α) : (sortBy number list).Perm list := by
  rw [sortBy_eq_insertionSort]
  exact List.perm_insertionSort _ list

theorem pairwise_sortBy (number : α → Nat) (list : List α) :
    (sortBy number list).Pairwise fun first second => number first ≤ number second := by
  have total : Std.Total fun first second : α => number first ≤ number second :=
    ⟨fun first second => Nat.le_total (number first) (number second)⟩
  have trans : IsTrans α fun first second => number first ≤ number second :=
    ⟨fun _ _ _ => Nat.le_trans⟩
  rw [sortBy_eq_insertionSort]
  exact List.pairwise_insertionSort _ list

theorem pairwise_lt_sortBy {list : List α} (distinct : (list.map number).Nodup) :
    (sortBy number list).Pairwise fun first second => number first < number second := by
  have sortedDistinct : ((sortBy number list).map number).Nodup :=
    ((sortBy_perm number list).map number).nodup_iff.mpr distinct
  have unequal := List.pairwise_map.mp sortedDistinct
  exact (pairwise_sortBy number list).imp₂ (fun _ _ le ne => Nat.lt_of_le_of_ne le ne) unequal

theorem nodup_map_of_pairwise_lt {list : List α}
    (ascending : list.Pairwise fun first second => number first < number second) :
    (list.map number).Nodup :=
  List.pairwise_map.mpr (ascending.imp fun below => Nat.ne_of_lt below)

/-- A sort undoes any reordering of a list whose numbers ascend strictly. -/
theorem sortBy_eq_of_perm {list sorted : List α} (perm : list.Perm sorted)
    (ascending : sorted.Pairwise fun first second => number first < number second) :
    sortBy number list = sorted := by
  refine ((sortBy_perm number list).trans perm).eq_of_pairwise ?_ (pairwise_sortBy number list)
    (ascending.imp fun below => Nat.le_of_lt below)
  intro first second firstMember secondMember le ge
  have firstSorted : first ∈ sorted :=
    perm.mem_iff.mp ((sortBy_perm number list).mem_iff.mp firstMember)
  exact List.inj_on_of_nodup_map (nodup_map_of_pairwise_lt ascending) firstSorted secondMember
    (Nat.le_antisymm le ge)

theorem sortBy_map {β : Type} (f : β → α) (list : List β) :
    sortBy number (list.map f) = (sortBy (fun member => number (f member)) list).map f := by
  rw [sortBy_eq_insertionSort, sortBy_eq_insertionSort]
  exact (List.map_insertionSort _ _ f list fun _ _ _ _ => Iff.rfl).symm

end PoolLedger
