import PoolLedger.Batch.Conflict

/-!
# When two declarations clash

Two declarations clash when some key is declared by both and may be changed by
at least one of them.  The conflict search finds a clash exactly when there is
one, and the order in which the two declarations are given does not matter.
-/

namespace PoolLedger

namespace Declaration

/-- Both declare the key, and at least one may change its value. -/
def ClashAt (declaration other : Declaration) (key : StateKey) : Prop :=
  ∃ mode otherMode, declaration.get? key = some mode ∧ other.get? key = some otherMode ∧
    (mode.isMutating = true ∨ otherMode.isMutating = true)

/-- There is a key on which the two declarations clash. -/
def Clash (declaration other : Declaration) : Prop :=
  ∃ key, declaration.ClashAt other key

theorem ClashAt.symm {declaration other : Declaration} {key : StateKey}
    (clash : declaration.ClashAt other key) : other.ClashAt declaration key := by
  obtain ⟨mode, otherMode, here, there, mutating⟩ := clash
  exact ⟨otherMode, mode, there, here, mutating.symm⟩

theorem Clash.symm {declaration other : Declaration} (clash : declaration.Clash other) :
    other.Clash declaration := by
  obtain ⟨key, at_key⟩ := clash
  exact ⟨key, at_key.symm⟩

theorem overlapKind?_isSome (mode other : AccessMode) :
    (overlapKind? mode other).isSome = true ↔
      mode.isMutating = true ∨ other.isMutating = true := by
  cases mode <;> cases other <;> simp [overlapKind?, AccessMode.isMutating]

theorem mem_overlaps {declaration other : Declaration} {key : StateKey} {kind : OverlapKind} :
    (key, kind) ∈ declaration.overlaps other ↔
      ∃ mode otherMode, declaration.get? key = some mode ∧ other.get? key = some otherMode ∧
        overlapKind? mode otherMode = some kind := by
  simp only [overlaps, List.mem_filterMap, Prod.exists, Option.bind_eq_some_iff,
    Option.map_eq_some_iff, Prod.mk.injEq]
  constructor
  · rintro ⟨found, mode, member, otherMode, there, overlap, isKind, rfl, rfl⟩
    exact ⟨mode, otherMode, (declaration.mem_toList_iff found mode).mp member, there, isKind⟩
  · rintro ⟨mode, otherMode, here, there, isKind⟩
    exact ⟨key, mode, (declaration.mem_toList_iff key mode).mpr here, otherMode, there, kind,
      isKind, rfl, rfl⟩

theorem overlaps_eq_nil_iff (declaration other : Declaration) :
    declaration.overlaps other = [] ↔ ¬ declaration.Clash other := by
  rw [List.eq_nil_iff_forall_not_mem]
  constructor
  · rintro empty ⟨key, mode, otherMode, here, there, mutating⟩
    obtain ⟨kind, isKind⟩ :=
      Option.isSome_iff_exists.mp ((overlapKind?_isSome mode otherMode).mpr mutating)
    exact empty (key, kind) (mem_overlaps.mpr ⟨mode, otherMode, here, there, isKind⟩)
  · rintro none ⟨key, kind⟩ member
    obtain ⟨mode, otherMode, here, there, isKind⟩ := mem_overlaps.mp member
    exact none ⟨key, mode, otherMode, here, there,
      (overlapKind?_isSome mode otherMode).mp (Option.isSome_iff_exists.mpr ⟨kind, isKind⟩)⟩

theorem conflict?_eq_none_iff (declaration other : Declaration) :
    declaration.conflict? other = none ↔ ¬ declaration.Clash other := by
  rw [← overlaps_eq_nil_iff]
  -- The first overlap answers whenever no overlap of two changes is found before it.
  cases found : declaration.overlaps other with
  | nil => simp [conflict?, found]
  | cons first rest =>
      cases search : (first :: rest).find? (·.2 = .writeWrite) <;>
        simp [conflict?, found, search]

theorem isSome_conflict?_iff (declaration other : Declaration) :
    (declaration.conflict? other).isSome = true ↔ declaration.Clash other := by
  have absent := conflict?_eq_none_iff declaration other
  cases search : declaration.conflict? other with
  | none => simpa using absent.mp search
  | some found => simpa [search] using absent

instance (declaration other : Declaration) : Decidable (declaration.Clash other) :=
  decidable_of_iff _ (isSome_conflict?_iff declaration other)

end Declaration

namespace Batch.Entry

/-- The declarations of two entries clash. -/
def Clash (first second : Entry) : Prop :=
  (first.action.declared first.actor).Clash (second.action.declared second.actor)

theorem Clash.symm {first second : Entry} (clash : first.Clash second) : second.Clash first :=
  Declaration.Clash.symm clash

instance (first second : Entry) : Decidable (first.Clash second) :=
  inferInstanceAs (Decidable (Declaration.Clash _ _))

end Batch.Entry

end PoolLedger
