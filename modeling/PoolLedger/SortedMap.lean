/-!
# Finite maps in key order

A `SortedMap` is a list of entries with strictly ascending keys.  The order is
part of the type, so a map has one representation.  Each operation is described
by its effect on lookups.
-/

namespace PoolLedger

/-- A finite map whose entries are listed in strictly ascending key order. -/
structure SortedMap (κ α : Type) [Ord κ] where
  entries : List (κ × α)
  ascending : entries.Pairwise fun first second => compare first.1 second.1 = .lt

namespace SortedMap

variable {κ α β : Type} [Ord κ]

instance [DecidableEq κ] [DecidableEq α] : DecidableEq (SortedMap κ α) :=
  fun first second =>
    if same : first.entries = second.entries then
      isTrue (by cases first; cases second; cases same; rfl)
    else
      isFalse fun eq => same (congrArg SortedMap.entries eq)

def empty : SortedMap κ α :=
  ⟨[], .nil⟩

instance : Inhabited (SortedMap κ α) := ⟨empty⟩

def lookup (key : κ) : List (κ × α) → Option α
  | [] => none
  | (other, value) :: rest =>
      match compare key other with
      | .eq => some value
      | _ => lookup key rest

/-- Put `value` under `key` into an ascending list of entries. -/
def upsert (key : κ) (value : α) : List (κ × α) → List (κ × α)
  | [] => [(key, value)]
  | (other, old) :: rest =>
      match compare key other with
      | .lt => (key, value) :: (other, old) :: rest
      | .eq => (key, value) :: rest
      | .gt => (other, old) :: upsert key value rest

theorem mem_upsert {key : κ} {value : α} {entries : List (κ × α)} {entry : κ × α}
    (member : entry ∈ upsert key value entries) :
    entry = (key, value) ∨ entry ∈ entries := by
  induction entries with
  | nil => simpa [upsert] using member
  | cons head rest ih =>
      obtain ⟨other, old⟩ := head
      simp only [upsert] at member
      split at member
      · simpa using member
      · rcases List.mem_cons.mp member with rfl | inRest
        · exact .inl rfl
        · exact .inr (List.mem_cons_of_mem _ inRest)
      · rcases List.mem_cons.mp member with rfl | inRest
        · exact .inr List.mem_cons_self
        · exact (ih inRest).imp id (List.mem_cons_of_mem _)

section Order

variable [Std.TransOrd κ]

theorem pairwise_upsert (key : κ) (value : α) {entries : List (κ × α)}
    (ascending : entries.Pairwise fun first second => compare first.1 second.1 = .lt) :
    (upsert key value entries).Pairwise
      fun first second => compare first.1 second.1 = .lt := by
  induction entries with
  | nil => simp [upsert]
  | cons head rest ih =>
      obtain ⟨other, old⟩ := head
      have headBelow := (List.pairwise_cons.mp ascending).1
      have restAscending := (List.pairwise_cons.mp ascending).2
      simp only [upsert]
      split
      · rename_i below
        refine List.pairwise_cons.mpr ⟨fun entry member => ?_, ascending⟩
        rcases List.mem_cons.mp member with rfl | inRest
        · exact below
        · exact Std.TransCmp.lt_trans below (headBelow entry inRest)
      · rename_i same
        refine List.pairwise_cons.mpr ⟨fun entry member => ?_, restAscending⟩
        exact Std.TransCmp.lt_of_eq_of_lt same (headBelow entry member)
      · rename_i above
        refine List.pairwise_cons.mpr ⟨fun entry member => ?_, ih restAscending⟩
        rcases mem_upsert member with rfl | inRest
        · exact Std.OrientedCmp.lt_of_gt above
        · exact headBelow entry inRest

end Order

def get? (map : SortedMap κ α) (key : κ) : Option α :=
  lookup key map.entries

def contains (map : SortedMap κ α) (key : κ) : Bool :=
  (map.get? key).isSome

def size (map : SortedMap κ α) : Nat :=
  map.entries.length

def isEmpty (map : SortedMap κ α) : Bool :=
  map.entries.isEmpty

def toList (map : SortedMap κ α) : List (κ × α) :=
  map.entries

def keys (map : SortedMap κ α) : List κ :=
  map.entries.map (·.1)

def insert [Std.TransOrd κ] (map : SortedMap κ α) (key : κ) (value : α) : SortedMap κ α :=
  ⟨upsert key value map.entries, pairwise_upsert key value map.ascending⟩

def erase (map : SortedMap κ α) (key : κ) : SortedMap κ α :=
  ⟨map.entries.filter fun entry => compare key entry.1 != .eq,
    map.ascending.sublist List.filter_sublist⟩

def mapValues (f : κ → α → β) (map : SortedMap κ α) : SortedMap κ β :=
  ⟨map.entries.map fun entry => (entry.1, f entry.1 entry.2),
    List.pairwise_map.mpr map.ascending⟩

/-- The map of a list of entries; a later entry replaces an earlier one. -/
def ofList [Std.TransOrd κ] (entries : List (κ × α)) : SortedMap κ α :=
  entries.foldl (fun map entry => map.insert entry.1 entry.2) empty

/-! ## Lookups -/

@[simp]
theorem get?_empty (key : κ) : (empty : SortedMap κ α).get? key = none :=
  rfl

section Lawful

variable [Std.LawfulEqOrd κ]

theorem lookup_cons_self (key : κ) (value : α) (rest : List (κ × α)) :
    lookup key ((key, value) :: rest) = some value := by
  simp [lookup]

theorem lookup_cons_of_ne {key other : κ} (ne : key ≠ other) (value : α)
    (rest : List (κ × α)) :
    lookup key ((other, value) :: rest) = lookup key rest := by
  simp only [lookup]
  split
  · rename_i same
    exact absurd (Std.LawfulEqCmp.eq_of_compare same) ne
  · rfl

theorem lookup_eq_none_of_forall_ne {key : κ} {entries : List (κ × α)}
    (absent : ∀ entry ∈ entries, entry.1 ≠ key) : lookup key entries = none := by
  induction entries with
  | nil => rfl
  | cons head rest ih =>
      rw [lookup_cons_of_ne (Ne.symm (absent head List.mem_cons_self))]
      exact ih fun entry member => absent entry (List.mem_cons_of_mem _ member)

theorem mem_of_lookup_eq_some {key : κ} {value : α} {entries : List (κ × α)}
    (found : lookup key entries = some value) : (key, value) ∈ entries := by
  induction entries with
  | nil => simp [lookup] at found
  | cons head rest ih =>
      obtain ⟨other, old⟩ := head
      simp only [lookup] at found
      split at found
      · rename_i same
        cases Std.LawfulEqCmp.eq_of_compare same
        cases found
        exact List.mem_cons_self
      · exact List.mem_cons_of_mem _ (ih found)

theorem ne_of_compare_lt {first second : κ} (below : compare first second = .lt) :
    first ≠ second := by
  rintro rfl
  simp at below

theorem lookup_of_mem {key : κ} {value : α} {entries : List (κ × α)}
    (ascending : entries.Pairwise fun first second => compare first.1 second.1 = .lt)
    (member : (key, value) ∈ entries) : lookup key entries = some value := by
  induction entries with
  | nil => simp at member
  | cons head rest ih =>
      rcases List.mem_cons.mp member with rfl | inRest
      · exact lookup_cons_self key value rest
      · have below := (List.pairwise_cons.mp ascending).1 _ inRest
        rw [lookup_cons_of_ne (Ne.symm (ne_of_compare_lt below))]
        exact ih (List.pairwise_cons.mp ascending).2 inRest

theorem lookup_upsert [DecidableEq κ] (key : κ) (value : α) (entries : List (κ × α))
    (wanted : κ) :
    lookup wanted (upsert key value entries) =
      if wanted = key then some value else lookup wanted entries := by
  induction entries with
  | nil =>
      by_cases same : wanted = key
      · subst same; simp [upsert, lookup]
      · simp only [upsert, if_neg same]
        exact lookup_cons_of_ne same value []
  | cons head rest ih =>
      obtain ⟨other, old⟩ := head
      simp only [upsert]
      split
      · by_cases same : wanted = key
        · subst same; simp [lookup]
        · rw [if_neg same, lookup_cons_of_ne same]
      · rename_i equal
        cases Std.LawfulEqCmp.eq_of_compare equal
        by_cases same : wanted = key
        · subst same; simp [lookup]
        · rw [if_neg same, lookup_cons_of_ne same, lookup_cons_of_ne same]
      · rename_i above
        by_cases other_eq : wanted = other
        · subst other_eq
          have ne : wanted ≠ key := by
            rintro rfl
            simp at above
          simp [lookup, ne]
        · rw [lookup_cons_of_ne other_eq, lookup_cons_of_ne other_eq, ih]

theorem get?_insert [Std.TransOrd κ] [DecidableEq κ] (map : SortedMap κ α) (key : κ) (value : α)
    (wanted : κ) :
    (map.insert key value).get? wanted =
      if wanted = key then some value else map.get? wanted :=
  lookup_upsert key value map.entries wanted

@[simp]
theorem get?_insert_self [Std.TransOrd κ] (map : SortedMap κ α) (key : κ) (value : α) :
    (map.insert key value).get? key = some value := by
  classical
  rw [get?_insert, if_pos rfl]

theorem get?_insert_of_ne [Std.TransOrd κ] (map : SortedMap κ α) {key wanted : κ} (value : α)
    (ne : wanted ≠ key) : (map.insert key value).get? wanted = map.get? wanted := by
  classical
  rw [get?_insert, if_neg ne]

theorem get?_erase [DecidableEq κ] (map : SortedMap κ α) (key wanted : κ) :
    (map.erase key).get? wanted = if wanted = key then none else map.get? wanted := by
  obtain ⟨entries, ascending⟩ := map
  simp only [get?, erase]
  clear ascending
  induction entries with
  | nil => simp [lookup]
  | cons head rest ih =>
      obtain ⟨other, value⟩ := head
      by_cases dropped : compare key other = .eq
      · have keyEq := Std.LawfulEqCmp.eq_of_compare dropped
        subst keyEq
        rw [List.filter_cons_of_neg (by simp), ih]
        by_cases same : wanted = key
        · simp [same]
        · rw [if_neg same, if_neg same, lookup_cons_of_ne same]
      · rw [List.filter_cons_of_pos (by simpa using dropped)]
        by_cases here : wanted = other
        · subst here
          have ne : wanted ≠ key := by
            rintro rfl
            simp at dropped
          simp [lookup, ne]
        · rw [lookup_cons_of_ne here, lookup_cons_of_ne here, ih]

theorem mem_toList_iff (map : SortedMap κ α) (key : κ) (value : α) :
    (key, value) ∈ map.toList ↔ map.get? key = some value :=
  ⟨lookup_of_mem map.ascending, mem_of_lookup_eq_some⟩

theorem mem_keys_iff (map : SortedMap κ α) (key : κ) :
    key ∈ map.keys ↔ ∃ value, map.get? key = some value := by
  simp only [keys, List.mem_map]
  constructor
  · rintro ⟨⟨found, value⟩, member, rfl⟩
    exact ⟨value, (map.mem_toList_iff found value).mp member⟩
  · rintro ⟨value, found⟩
    exact ⟨(key, value), (map.mem_toList_iff key value).mpr found, rfl⟩

theorem get?_mapValues (f : κ → α → β) (map : SortedMap κ α) (key : κ) :
    (map.mapValues f).get? key = (map.get? key).map (f key) := by
  obtain ⟨entries, ascending⟩ := map
  simp only [get?, mapValues]
  clear ascending
  induction entries with
  | nil => rfl
  | cons head rest ih =>
      obtain ⟨other, value⟩ := head
      by_cases here : key = other
      · subst here; simp [lookup]
      · rw [List.map_cons, lookup_cons_of_ne here, lookup_cons_of_ne here, ih]

end Lawful

end SortedMap

end PoolLedger
