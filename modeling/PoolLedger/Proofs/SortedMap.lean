import Mathlib.Data.List.Sort
import PoolLedger.SortedMap

/-!
# Keys of finite maps

The keys of a map ascend strictly, so they are listed once each and a list of
the same keys in ascending order is the list of keys.  A map is determined by
its lookups.
-/

namespace PoolLedger

namespace SortedMap

section Keys

variable {κ α : Type} [Ord κ]

theorem pairwise_keys (map : SortedMap κ α) :
    map.keys.Pairwise fun first second => compare first second = .lt :=
  List.pairwise_map.mpr map.ascending

theorem length_keys (map : SortedMap κ α) : map.keys.length = map.size := by
  simp [keys, size]

theorem isEmpty_iff_size (map : SortedMap κ α) : map.isEmpty = true ↔ map.size = 0 := by
  simp [isEmpty, size]

theorem perm_upsert {key : κ} {entries : List (κ × α)} (absent : lookup key entries = none)
    (value : α) : (upsert key value entries).Perm ((key, value) :: entries) := by
  induction entries with
  | nil => exact List.Perm.refl _
  | cons head rest ih =>
      obtain ⟨other, old⟩ := head
      simp only [lookup] at absent
      cases order : compare key other with
      | lt =>
          simp only [upsert, order]
          exact List.Perm.refl _
      | eq => simp [order] at absent
      | gt =>
          simp only [order] at absent
          simp only [upsert, order]
          exact ((ih absent).cons _).trans (List.Perm.swap _ _ _)

variable [Std.LawfulEqOrd κ]

theorem nodup_keys (map : SortedMap κ α) : map.keys.Nodup :=
  (pairwise_keys map).imp fun below => ne_of_compare_lt below

theorem contains_iff_mem_keys (map : SortedMap κ α) (key : κ) :
    map.contains key = true ↔ key ∈ map.keys := by
  rw [contains, Option.isSome_iff_exists, mem_keys_iff]

theorem get?_eq_none_iff (map : SortedMap κ α) (key : κ) :
    map.get? key = none ↔ key ∉ map.keys := by
  rw [mem_keys_iff, Option.eq_none_iff_forall_ne_some]
  exact ⟨fun none ⟨value, found⟩ => none value found, fun absent value found =>
    absent ⟨value, found⟩⟩

theorem irrefl_compare_lt {ρ : Type} (key : ρ → κ) :
    Std.Irrefl fun first second : ρ => compare (key first) (key second) = .lt :=
  ⟨fun _ below => ne_of_compare_lt below rfl⟩

variable [Std.TransOrd κ]

theorem antisymm_compare_lt {ρ : Type} (key : ρ → κ) :
    Std.Antisymm fun first second : ρ => compare (key first) (key second) = .lt := by
  constructor
  intro first second below above
  exact absurd rfl (ne_of_compare_lt (Std.TransCmp.lt_trans below above))

/-- Two lists in strictly ascending order are equal if they have the same members. -/
theorem eq_of_pairwise_lt_of_mem_iff {first second : List κ}
    (firstAscending : first.Pairwise fun a b => compare a b = .lt)
    (secondAscending : second.Pairwise fun a b => compare a b = .lt)
    (same : ∀ key, key ∈ first ↔ key ∈ second) : first = second := by
  have irrefl : Std.Irrefl fun a b : κ => compare a b = .lt := irrefl_compare_lt id
  have antisymm : Std.Antisymm fun a b : κ => compare a b = .lt := antisymm_compare_lt id
  exact firstAscending.eq_of_mem_iff secondAscending same

/-- A map is determined by its lookups. -/
theorem ext_get? {first second : SortedMap κ α}
    (same : ∀ key, first.get? key = second.get? key) : first = second := by
  have sameEntries : ∀ entry, entry ∈ first.entries ↔ entry ∈ second.entries := by
    rintro ⟨key, value⟩
    have inFirst := first.mem_toList_iff key value
    rw [same] at inFirst
    exact inFirst.trans (second.mem_toList_iff key value).symm
  have irrefl : Std.Irrefl fun a b : κ × α => compare a.1 b.1 = .lt := irrefl_compare_lt Prod.fst
  have antisymm : Std.Antisymm fun a b : κ × α => compare a.1 b.1 = .lt :=
    antisymm_compare_lt Prod.fst
  have equal := first.ascending.eq_of_mem_iff second.ascending sameEntries
  cases first
  cases equal
  rfl

/-- A search through entries in key order finds the one with the least key. -/
theorem find?_eq_some_iff {entries : List (κ × α)} {test : κ × α → Bool} {entry : κ × α}
    (ascending : entries.Pairwise fun first second => compare first.1 second.1 = .lt) :
    entries.find? test = some entry ↔
      entry ∈ entries ∧ test entry = true ∧
        ∀ other ∈ entries, test other = true → (compare entry.1 other.1).isLE = true := by
  induction entries with
  | nil => simp
  | cons head rest ih =>
      obtain ⟨headBelow, restAscending⟩ := List.pairwise_cons.mp ascending
      by_cases passes : test head = true
      · rw [List.find?_cons_of_pos passes, Option.some.injEq]
        constructor
        · rintro rfl
          refine ⟨List.mem_cons_self, passes, fun other member _ => ?_⟩
          rcases List.mem_cons.mp member with rfl | inRest
          · exact Std.ReflCmp.isLE_rfl
          · exact Ordering.isLE_of_eq_lt (headBelow other inRest)
        · rintro ⟨member, _, least⟩
          rcases List.mem_cons.mp member with rfl | inRest
          · rfl
          · -- The head passes too, so its key would have to be the greater one.
            have notAbove := least head List.mem_cons_self passes
            rw [Std.OrientedCmp.gt_of_lt (headBelow entry inRest)] at notAbove
            cases notAbove
      · rw [List.find?_cons_of_neg passes, ih restAscending]
        constructor
        · rintro ⟨member, isPassing, least⟩
          refine ⟨List.mem_cons_of_mem _ member, isPassing, fun other isListed otherPasses => ?_⟩
          rcases List.mem_cons.mp isListed with rfl | inRest
          · exact absurd otherPasses passes
          · exact least other inRest otherPasses
        · rintro ⟨member, isPassing, least⟩
          rcases List.mem_cons.mp member with rfl | inRest
          · exact absurd isPassing passes
          · exact ⟨inRest, isPassing, fun other inTail =>
              least other (List.mem_cons_of_mem _ inTail)⟩

/-- A map that differs from another one at a single key is got from it by an insertion. -/
theorem eq_insert_of_get? [DecidableEq κ] {map changed : SortedMap κ α} {key : κ} {value : κ → α}
    (same : ∀ other, changed.get? other =
      if other = key then some (value other) else map.get? other) :
    changed = map.insert key (value key) := by
  apply ext_get?
  intro other
  rw [same, get?_insert]
  split
  · rename_i isKey
    rw [isKey]
  · rfl

/-- New entries under distinct keys that a map does not have are added to those that it has. -/
theorem perm_foldl_insert [DecidableEq κ] (map : SortedMap κ α) {entries : List (κ × α)}
    (fresh : ∀ entry ∈ entries, map.get? entry.1 = none)
    (distinct : (entries.map (·.1)).Nodup) :
    (entries.foldl (fun map entry => map.insert entry.1 entry.2) map).toList.Perm
      (entries ++ map.toList) := by
  induction entries generalizing map with
  | nil => exact List.Perm.refl _
  | cons head rest ih =>
      obtain ⟨headFresh, restFresh⟩ := List.forall_mem_cons.mp fresh
      obtain ⟨headAbsent, restDistinct⟩ := List.nodup_cons.mp distinct
      have stillFresh : ∀ entry ∈ rest, (map.insert head.1 head.2).get? entry.1 = none := by
        intro entry member
        have ne : entry.1 ≠ head.1 :=
          fun same => headAbsent (List.mem_map.mpr ⟨entry, member, same⟩)
        rw [get?_insert_of_ne _ _ ne]
        exact restFresh entry member
      have listed := ih (map.insert head.1 head.2) stillFresh restDistinct
      have added := (perm_upsert headFresh head.2).append_left rest
      exact (listed.trans added).trans List.perm_middle

/-- Entries in key order replace what a map has under their keys. -/
theorem get?_foldl_insert [DecidableEq κ] (map : SortedMap κ α) {entries : List (κ × α)}
    (ascending : entries.Pairwise fun first second => compare first.1 second.1 = .lt)
    (wanted : κ) :
    (entries.foldl (fun map entry => map.insert entry.1 entry.2) map).get? wanted =
      (lookup wanted entries).or (map.get? wanted) := by
  induction entries generalizing map with
  | nil => rfl
  | cons head rest ih =>
      obtain ⟨headBelow, restAscending⟩ := List.pairwise_cons.mp ascending
      rw [List.foldl_cons, ih _ restAscending, get?_insert]
      by_cases isHead : wanted = head.1
      · subst isHead
        have absent : lookup head.1 rest = none :=
          lookup_eq_none_of_forall_ne fun entry member =>
            Ne.symm (ne_of_compare_lt (headBelow entry member))
        rw [absent, lookup_cons_self, if_pos rfl]
        rfl
      · rw [if_neg isHead, lookup_cons_of_ne isHead]

/-- The entries of a map are listed by any ascending list of its keys. -/
theorem toList_eq_map {β : Type} {map : SortedMap κ α} {list : List β} {key : β → κ}
    {value : β → α}
    (ascending : list.Pairwise fun first second => compare (key first) (key second) = .lt)
    (found : ∀ member ∈ list, map.get? (key member) = some (value member))
    (listed : ∀ other ∈ map.keys, other ∈ list.map key) :
    map.toList = list.map fun member => (key member, value member) := by
  let whole : SortedMap κ α :=
    ⟨list.map fun member => (key member, value member), List.pairwise_map.mpr ascending⟩
  have same : map = whole := by
    apply ext_get?
    intro other
    apply Option.ext
    intro content
    rw [← whole.mem_toList_iff]
    constructor
    · intro isContent
      obtain ⟨member, inList, rfl⟩ :=
        List.mem_map.mp (listed other ((map.mem_keys_iff other).mpr ⟨content, isContent⟩))
      cases (found member inList).symm.trans isContent
      exact List.mem_map_of_mem inList
    · intro inWhole
      obtain ⟨member, inList, isMember⟩ := List.mem_map.mp inWhole
      cases isMember
      exact found member inList
  rw [same]
  rfl

theorem mem_keys_insert [DecidableEq κ] (map : SortedMap κ α) (key : κ) (value : α)
    (wanted : κ) : wanted ∈ (map.insert key value).keys ↔ wanted = key ∨ wanted ∈ map.keys := by
  simp only [mem_keys_iff, get?_insert]
  by_cases isKey : wanted = key <;> simp [isKey]

theorem mem_keys_ofList (entries : List (κ × α)) (key : κ) :
    key ∈ (ofList entries).keys ↔ key ∈ entries.map (·.1) := by
  classical
  -- The fold starts from the empty map; the statement is about a fold from any map.
  have general : ∀ (map : SortedMap κ α),
      key ∈ (entries.foldl (fun map entry => map.insert entry.1 entry.2) map).keys ↔
        key ∈ map.keys ∨ key ∈ entries.map (·.1) := by
    induction entries with
    | nil => simp
    | cons head rest ih =>
        intro map
        rw [List.foldl_cons, ih, List.map_cons, List.mem_cons, mem_keys_insert, or_assoc,
          or_left_comm]
  simpa [ofList, empty, keys] using general empty

end Keys

end SortedMap

end PoolLedger
