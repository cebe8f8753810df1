import Mathlib.Data.List.Nodup

/-!
# First repeats

A check for duplicates goes through a list in order and reports the first
member that repeats an earlier one.  There is such a member exactly if the
members are not distinct, and there is only one.
-/

namespace PoolLedger

section Repeats

variable {κ : Type} {keys before rest : List κ} {key : κ}

/-- The first member that repeats an earlier one. -/
def FirstRepeated (keys : List κ) (key : κ) : Prop :=
  ∃ before after, keys = before ++ key :: after ∧ before.Nodup ∧ key ∈ before

theorem FirstRepeated.not_nodup (repeats : FirstRepeated keys key) : ¬ keys.Nodup := by
  obtain ⟨before, after, rfl, _, inBefore⟩ := repeats
  intro nodup
  exact (List.nodup_append.mp nodup).2.2 key inBefore key List.mem_cons_self rfl

private theorem member_eq_of_append {tail after later : List κ} {other : κ}
    (nodup : (before ++ tail).Nodup) (inBefore : key ∈ before)
    (split : key :: after = tail ++ other :: later) : key = other := by
  cases tail with
  | nil =>
      cases split
      rfl
  | cons head others =>
      cases split
      exact absurd rfl ((List.nodup_append.mp nodup).2.2 key inBefore key List.mem_cons_self)

theorem FirstRepeated.unique {other : κ} (repeats : FirstRepeated keys key)
    (otherRepeats : FirstRepeated keys other) : key = other := by
  obtain ⟨before, after, rfl, nodup, inBefore⟩ := repeats
  obtain ⟨others, later, same, othersNodup, inOthers⟩ := otherRepeats
  rcases List.append_eq_append_iff.mp same with ⟨tail, rfl, split⟩ | ⟨tail, rfl, split⟩
  · exact member_eq_of_append othersNodup inBefore split
  · exact (member_eq_of_append nodup inOthers split).symm

/-- What a search for the first repeat gives. -/
def FindsRepeat (keys : List κ) : Option κ → Prop
  | some key => FirstRepeated keys key
  | none => keys.Nodup

theorem FindsRepeat.eq_some_iff {found : Option κ} (finds : FindsRepeat keys found) :
    found = some key ↔ FirstRepeated keys key := by
  cases found with
  | none => exact iff_of_false nofun fun repeats => repeats.not_nodup finds
  | some other =>
      rw [Option.some.injEq]
      exact ⟨fun same => same ▸ finds, finds.unique⟩

theorem FindsRepeat.eq_none_iff {found : Option κ} (finds : FindsRepeat keys found) :
    found = none ↔ keys.Nodup := by
  cases found with
  | none => exact iff_of_true rfl finds
  | some other => exact iff_of_false nofun finds.not_nodup

/-- The search stops at the first member that was seen before. -/
theorem findsRepeat_of_mem (nodup : before.Nodup) (seen : key ∈ before) :
    FindsRepeat (before ++ key :: rest) (some key) :=
  ⟨before, rest, rfl, nodup, seen⟩

theorem nodup_append_singleton (nodup : before.Nodup) (unseen : key ∉ before) :
    (before ++ [key]).Nodup := by
  rw [← List.concat_eq_append]
  exact nodup.concat unseen

end Repeats

end PoolLedger
