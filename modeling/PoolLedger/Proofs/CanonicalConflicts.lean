import Mathlib.Data.List.Induction
import PoolLedger.Proofs.DeclarationClash
import PoolLedger.Proofs.SortedMap

/-!
# Canonical declarations and conflicts

A declaration keeps the strongest access that is listed for each key, so the
order and the repetitions of the list do not matter.  The overlaps of two
declarations are the same from either side and come in key order, so the
conflict that is found is a least key, and neither side is preferred.
-/

namespace PoolLedger

namespace AccessMode

theorem eq_of_strength_eq {first second : AccessMode} (same : first.strength = second.strength) :
    first = second := by
  cases first <;> cases second <;> first | rfl | cases same

theorem eq_of_permits {first second : AccessMode} (atLeast : first.permits second = true)
    (atMost : second.permits first = true) : first = second := by
  apply eq_of_strength_eq
  exact Nat.le_antisymm (of_decide_eq_true atMost) (of_decide_eq_true atLeast)

theorem permits_self (mode : AccessMode) : mode.permits mode = true :=
  decide_eq_true (Nat.le_refl _)

theorem permits_trans {first second third : AccessMode} (above : first.permits second = true)
    (beneath : second.permits third = true) : first.permits third = true :=
  decide_eq_true (Nat.le_trans (of_decide_eq_true beneath) (of_decide_eq_true above))

theorem stronger_eq (first second : AccessMode) :
    first.stronger second = first ∨ first.stronger second = second := by
  unfold stronger
  split
  · exact .inr rfl
  · exact .inl rfl

theorem stronger_permits_left (first second : AccessMode) :
    (first.stronger second).permits first = true := by
  cases first <;> cases second <;> rfl

theorem stronger_permits_right (first second : AccessMode) :
    (first.stronger second).permits second = true := by
  cases first <;> cases second <;> rfl

end AccessMode

namespace Declaration

/-! ## The strongest access -/

/-- The key is listed with this access, and with none that is stronger. -/
def StrongestIn (keys : List (StateKey × AccessMode)) (key : StateKey) (mode : AccessMode) : Prop :=
  (key, mode) ∈ keys ∧ ∀ other, (key, other) ∈ keys → mode.permits other = true

section Keys

variable {keys others : List (StateKey × AccessMode)} {key : StateKey} {mode : AccessMode}

theorem StrongestIn.unique {first second : AccessMode} (isFirst : StrongestIn keys key first)
    (isSecond : StrongestIn keys key second) : first = second :=
  AccessMode.eq_of_permits (isFirst.2 second isSecond.1) (isSecond.2 first isFirst.1)

theorem StrongestIn.append_of_ne {other : StateKey} (strongest : StrongestIn keys key mode)
    (ne : key ≠ other) (otherMode : AccessMode) :
    StrongestIn (keys ++ [(other, otherMode)]) key mode := by
  refine ⟨List.mem_append_left _ strongest.1, fun listedMode listed => ?_⟩
  rcases List.mem_append.mp listed with earlier | isOther
  · exact strongest.2 listedMode earlier
  · cases List.mem_singleton.mp isOther
    exact absurd rfl ne

theorem StrongestIn.append_self (strongest : StrongestIn keys key mode) (again : AccessMode) :
    StrongestIn (keys ++ [(key, again)]) key (mode.stronger again) := by
  constructor
  · rcases mode.stronger_eq again with isFirst | isAgain
    · rw [isFirst]
      exact List.mem_append_left _ strongest.1
    · rw [isAgain]
      exact List.mem_append_right _ List.mem_cons_self
  · intro listedMode listed
    rcases List.mem_append.mp listed with earlier | isAgain
    · exact AccessMode.permits_trans (mode.stronger_permits_left again)
        (strongest.2 listedMode earlier)
    · cases List.mem_singleton.mp isAgain
      exact mode.stronger_permits_right _

theorem ofKeys_append_singleton (keys : List (StateKey × AccessMode)) (key : StateKey)
    (mode : AccessMode) : ofKeys (keys ++ [(key, mode)]) = (ofKeys keys).declare key mode := by
  simp only [ofKeys, List.foldl_append, List.foldl_cons, List.foldl_nil]

/-- A list declares the strongest access that it has for a key, and nothing for a key that it has
not. -/
theorem ofKeys_spec (keys : List (StateKey × AccessMode)) (key : StateKey) :
    match (ofKeys keys).get? key with
    | some mode => StrongestIn keys key mode
    | none => ∀ mode, (key, mode) ∉ keys := by
  induction keys using List.reverseRecOn with
  | nil => exact fun mode => List.not_mem_nil
  | append_singleton keys entry ih =>
      obtain ⟨other, otherMode⟩ := entry
      rw [ofKeys_append_singleton, declare, SortedMap.get?_insert]
      by_cases same : key = other
      · subst same
        rw [if_pos rfl]
        cases earlier : (ofKeys keys).get? key with
        | some declared =>
            rw [earlier] at ih
            exact ih.append_self otherMode
        | none =>
            rw [earlier] at ih
            refine ⟨List.mem_append_right _ List.mem_cons_self, fun mode listed => ?_⟩
            rcases List.mem_append.mp listed with earlierListed | isOther
            · exact absurd earlierListed (ih mode)
            · cases List.mem_singleton.mp isOther
              exact otherMode.permits_self
      · rw [if_neg same]
        cases earlier : (ofKeys keys).get? key with
        | some declared =>
            rw [earlier] at ih
            exact ih.append_of_ne same otherMode
        | none =>
            rw [earlier] at ih
            intro mode listed
            rcases List.mem_append.mp listed with earlierListed | isOther
            · exact ih mode earlierListed
            · cases List.mem_singleton.mp isOther
              exact same rfl

theorem get?_ofKeys_eq_some_iff (key : StateKey) (mode : AccessMode) :
    (ofKeys keys).get? key = some mode ↔ StrongestIn keys key mode := by
  have spec := ofKeys_spec keys key
  cases found : (ofKeys keys).get? key with
  | some declared =>
      rw [found] at spec
      rw [Option.some.injEq]
      exact ⟨fun same => same ▸ spec, spec.unique⟩
  | none =>
      rw [found] at spec
      simpa using fun strongest : StrongestIn keys key mode => spec mode strongest.1

theorem get?_ofKeys_eq_none_iff (key : StateKey) :
    (ofKeys keys).get? key = none ↔ ∀ mode, (key, mode) ∉ keys := by
  have spec := ofKeys_spec keys key
  cases found : (ofKeys keys).get? key with
  | some declared =>
      rw [found] at spec
      simpa using ⟨declared, spec.1⟩
  | none =>
      rw [found] at spec
      simpa using spec

/-- A listed key is declared with at least the listed access. -/
theorem get?_ofKeys (listed : (key, mode) ∈ keys) :
    ∃ declared, (ofKeys keys).get? key = some declared ∧ mode.strength ≤ declared.strength := by
  have spec := ofKeys_spec keys key
  cases found : (ofKeys keys).get? key with
  | some declared =>
      rw [found] at spec
      exact ⟨declared, rfl, of_decide_eq_true (spec.2 mode listed)⟩
  | none =>
      rw [found] at spec
      exact absurd listed (spec mode)

/-- A key has an access that is listed for it. -/
theorem mem_of_get?_ofKeys (declared : (ofKeys keys).get? key = some mode) : (key, mode) ∈ keys :=
  ((get?_ofKeys_eq_some_iff key mode).mp declared).1

/-- Lists declare the same if they have the same strongest accesses. -/
theorem ofKeys_eq_iff :
    ofKeys keys = ofKeys others ↔
      ∀ key mode, StrongestIn keys key mode ↔ StrongestIn others key mode := by
  constructor
  · intro same key mode
    rw [← get?_ofKeys_eq_some_iff, ← get?_ofKeys_eq_some_iff, same]
  · intro same
    apply SortedMap.ext_get?
    intro key
    apply Option.ext
    intro mode
    rw [get?_ofKeys_eq_some_iff, get?_ofKeys_eq_some_iff, same]

/-- Neither the order of a list nor its repetitions matter. -/
theorem ofKeys_congr (same : ∀ entry, entry ∈ keys ↔ entry ∈ others) :
    ofKeys keys = ofKeys others := by
  apply ofKeys_eq_iff.mpr
  intro key mode
  simp only [StrongestIn, same]

end Keys

/-! ## Overlaps from both sides -/

theorem overlapKind?_comm (mode other : AccessMode) :
    overlapKind? mode other = overlapKind? other mode := by
  cases mode <;> cases other <;> rfl

theorem pairwise_overlaps (declaration other : Declaration) :
    (declaration.overlaps other).Pairwise
      fun first second => compare first.1 second.1 = .lt := by
  rw [overlaps, List.pairwise_filterMap]
  apply declaration.ascending.imp
  intro first second below firstOverlap isFirst secondOverlap isSecond
  obtain ⟨_, _, isFirst⟩ := Option.bind_eq_some_iff.mp isFirst
  obtain ⟨_, _, isSecond⟩ := Option.bind_eq_some_iff.mp isSecond
  obtain ⟨_, _, rfl⟩ := Option.map_eq_some_iff.mp isFirst
  obtain ⟨_, _, rfl⟩ := Option.map_eq_some_iff.mp isSecond
  exact below

/-- The overlaps as a finite map. -/
def overlapMap (declaration other : Declaration) : SortedMap StateKey OverlapKind :=
  ⟨declaration.overlaps other, declaration.pairwise_overlaps other⟩

theorem get?_overlapMap_eq_some_iff (declaration other : Declaration) (key : StateKey)
    (kind : OverlapKind) :
    (declaration.overlapMap other).get? key = some kind ↔
      ∃ mode otherMode, declaration.get? key = some mode ∧ other.get? key = some otherMode ∧
        overlapKind? mode otherMode = some kind :=
  ((declaration.overlapMap other).mem_toList_iff key kind).symm.trans mem_overlaps

theorem overlaps_comm (declaration other : Declaration) :
    declaration.overlaps other = other.overlaps declaration := by
  have sameMap : declaration.overlapMap other = other.overlapMap declaration := by
    apply SortedMap.ext_get?
    intro key
    apply Option.ext
    intro kind
    simp only [get?_overlapMap_eq_some_iff]
    constructor
    · rintro ⟨mode, otherMode, here, there, isKind⟩
      exact ⟨otherMode, mode, there, here, overlapKind?_comm mode otherMode ▸ isKind⟩
    · rintro ⟨mode, otherMode, here, there, isKind⟩
      exact ⟨otherMode, mode, there, here, overlapKind?_comm mode otherMode ▸ isKind⟩
  exact congrArg SortedMap.entries sameMap

theorem conflict?_comm (declaration other : Declaration) :
    declaration.conflict? other = other.conflict? declaration := by
  rw [conflict?, conflict?, overlaps_comm]

/-! ## Least keys -/

/-- Both may change the value of the key. -/
def BothChange (declaration other : Declaration) (key : StateKey) : Prop :=
  ∃ mode otherMode, declaration.get? key = some mode ∧ other.get? key = some otherMode ∧
    mode.isMutating = true ∧ otherMode.isMutating = true

/-- Both declare the key, and exactly one of them may change its value. -/
def OneChanges (declaration other : Declaration) (key : StateKey) : Prop :=
  ∃ mode otherMode, declaration.get? key = some mode ∧ other.get? key = some otherMode ∧
    mode.isMutating ≠ otherMode.isMutating

/-- Of the keys with a property, the one whose bytes come first. -/
def LeastKey (holds : StateKey → Prop) (key : StateKey) : Prop :=
  holds key ∧ ∀ other, holds other → (compare key.bytes other.bytes).isLE = true

section Overlaps

variable {declaration other : Declaration} {key : StateKey}

theorem mem_overlaps_writeWrite :
    (key, .writeWrite) ∈ declaration.overlaps other ↔ declaration.BothChange other key := by
  rw [mem_overlaps]
  apply exists_congr
  intro mode
  apply exists_congr
  intro otherMode
  cases mode <;> cases otherMode <;> simp [overlapKind?, AccessMode.isMutating]

theorem mem_overlaps_readWrite :
    (key, .readWrite) ∈ declaration.overlaps other ↔ declaration.OneChanges other key := by
  rw [mem_overlaps]
  apply exists_congr
  intro mode
  apply exists_congr
  intro otherMode
  cases mode <;> cases otherMode <;> simp [overlapKind?, AccessMode.isMutating]

/-- The first overlap of a kind is the one with the least key. -/
theorem find?_overlaps_eq_some_iff {kind : OverlapKind} :
    (declaration.overlaps other).find? (·.2 = kind) = some (key, kind) ↔
      LeastKey (fun key => (key, kind) ∈ declaration.overlaps other) key := by
  rw [SortedMap.find?_eq_some_iff (declaration.pairwise_overlaps other)]
  constructor
  · rintro ⟨member, _, least⟩
    exact ⟨member, fun other listed => least (other, kind) listed (decide_eq_true rfl)⟩
  · rintro ⟨member, least⟩
    refine ⟨member, decide_eq_true rfl, ?_⟩
    rintro ⟨other, otherKind⟩ listed isKind
    cases of_decide_eq_true isKind
    exact least other listed

/-- The first overlap of any kind is searched only if no overlap lets both change a value. -/
theorem conflict?_eq_find? (declaration other : Declaration) :
    declaration.conflict? other =
      ((declaration.overlaps other).find? (·.2 = .writeWrite)).orElse fun _ =>
        (declaration.overlaps other).find? (·.2 = .readWrite) := by
  rw [conflict?]
  cases search : (declaration.overlaps other).find? (·.2 = .writeWrite) with
  | some found => rfl
  | none =>
      have allRead : ∀ overlap ∈ declaration.overlaps other, overlap.2 = .readWrite := by
        rintro ⟨key, kind⟩ member
        have notWrite := List.find?_eq_none.mp search _ member
        cases kind with
        | writeWrite => exact absurd (decide_eq_true rfl) notWrite
        | readWrite => rfl
      show (declaration.overlaps other).head? = _
      cases listed : declaration.overlaps other with
      | nil => rfl
      | cons first rest =>
          have firstRead := allRead first (listed ▸ List.mem_cons_self)
          simp [firstRead]

theorem conflict?_eq_writeWrite_iff :
    declaration.conflict? other = some (key, .writeWrite) ↔
      LeastKey (declaration.BothChange other) key := by
  have least : (declaration.overlaps other).find? (·.2 = .writeWrite) = some (key, .writeWrite) ↔
      LeastKey (declaration.BothChange other) key := by
    rw [find?_overlaps_eq_some_iff]
    simp only [mem_overlaps_writeWrite]
  rw [← least, conflict?_eq_find?]
  cases search : (declaration.overlaps other).find? (·.2 = .writeWrite) with
  | some found => exact Iff.rfl
  | none =>
      constructor
      · intro found
        have isRead : OverlapKind.writeWrite = .readWrite := by
          simpa using List.find?_some found
        cases isRead
      · rintro ⟨⟩

theorem conflict?_eq_readWrite_iff :
    declaration.conflict? other = some (key, .readWrite) ↔
      (∀ written, ¬ declaration.BothChange other written) ∧
        LeastKey (declaration.OneChanges other) key := by
  have least : (declaration.overlaps other).find? (·.2 = .readWrite) = some (key, .readWrite) ↔
      LeastKey (declaration.OneChanges other) key := by
    rw [find?_overlaps_eq_some_iff]
    simp only [mem_overlaps_readWrite]
  rw [← least, conflict?_eq_find?]
  cases search : (declaration.overlaps other).find? (·.2 = .writeWrite) with
  | some found =>
      obtain ⟨written, kind⟩ := found
      have isWrite : kind = .writeWrite := by simpa using List.find?_some search
      subst isWrite
      have bothChange := mem_overlaps_writeWrite.mp (List.mem_of_find?_eq_some search)
      constructor
      · rintro ⟨⟩
      · rintro ⟨noneWritten, _⟩
        exact absurd bothChange (noneWritten written)
  | none =>
      have noneWritten : ∀ written, ¬ declaration.BothChange other written := by
        intro written bothChange
        have member := mem_overlaps_writeWrite.mpr bothChange
        exact List.find?_eq_none.mp search _ member (decide_eq_true rfl)
      exact ⟨fun found => ⟨noneWritten, found⟩, fun found => found.2⟩

end Overlaps

/-- A list of keys declares the strongest access that it has for each of them, in whatever order
and however often they are listed.  The conflict of two declarations is the same from either side:
the least key that both may change, without one the least key that one may change and the other
looks at, and none exactly if no key that both declare may be changed by either. -/
theorem conflicts_are_canonical :
    (∀ (keys : List (StateKey × AccessMode)) (key : StateKey),
        (∀ mode, ofKeys (keys ++ [(key, mode)]) = (ofKeys keys).declare key mode) ∧
        (∀ mode, (ofKeys keys).get? key = some mode ↔
          (key, mode) ∈ keys ∧ ∀ other, (key, other) ∈ keys → mode.permits other = true) ∧
        ((ofKeys keys).get? key = none ↔ ∀ mode, (key, mode) ∉ keys)) ∧
      (∀ keys others : List (StateKey × AccessMode),
        (∀ entry, entry ∈ keys ↔ entry ∈ others) → ofKeys keys = ofKeys others) ∧
      ∀ declaration other : Declaration,
        declaration.conflict? other = other.conflict? declaration ∧
        (∀ key, declaration.conflict? other = some (key, .writeWrite) ↔
          LeastKey (declaration.BothChange other) key) ∧
        (∀ key, declaration.conflict? other = some (key, .readWrite) ↔
          (∀ written, ¬ declaration.BothChange other written) ∧
            LeastKey (declaration.OneChanges other) key) ∧
        (declaration.conflict? other = none ↔ ∀ key, ¬ declaration.ClashAt other key) := by
  refine ⟨fun keys key => ⟨?_, ?_, ?_⟩, fun keys others => ofKeys_congr, fun declaration other => ?_⟩
  · exact ofKeys_append_singleton keys key
  · exact get?_ofKeys_eq_some_iff key
  · exact get?_ofKeys_eq_none_iff key
  · refine ⟨conflict?_comm declaration other, fun key => conflict?_eq_writeWrite_iff,
      fun key => conflict?_eq_readWrite_iff, ?_⟩
    rw [conflict?_eq_none_iff, Clash, not_exists]

/-- A domain that is looked up, and one that is looked up and claimed. -/
def quayKeys : List (StateKey × AccessMode) :=
  [(.ofDomain "quay", .read), (.ofDomain "pier", .read), (.ofDomain "quay", .allocate)]

/-- Both domains are overwritten. -/
def pierKeys : List (StateKey × AccessMode) :=
  [(.ofDomain "quay", .write), (.ofDomain "pier", .write)]

/-- The conflict is on the greater key, since both may change its value. -/
theorem quayKeys_canonical :
    (∀ entry, entry ∈ quayKeys.reverse ++ quayKeys ↔ entry ∈ quayKeys) ∧
      ofKeys (quayKeys.reverse ++ quayKeys) = ofKeys quayKeys ∧
      (ofKeys quayKeys).get? (.ofDomain "quay") = some .allocate ∧
      (ofKeys pierKeys).conflict? (ofKeys quayKeys) = some (.ofDomain "quay", .writeWrite) ∧
      LeastKey ((ofKeys quayKeys).BothChange (ofKeys pierKeys)) (.ofDomain "quay") ∧
      (ofKeys pierKeys).ClashAt (ofKeys quayKeys) (.ofDomain "pier") := by
  have sameEntries : ∀ entry, entry ∈ quayKeys.reverse ++ quayKeys ↔ entry ∈ quayKeys := by
    simp
  have found : (ofKeys quayKeys).conflict? (ofKeys pierKeys) =
      some (.ofDomain "quay", .writeWrite) := by
    decide +kernel
  obtain ⟨declares, congruent, canonical⟩ := conflicts_are_canonical
  obtain ⟨symmetric, isWriteWrite, _, _⟩ := canonical (ofKeys quayKeys) (ofKeys pierKeys)
  have allocates : ∀ other : AccessMode, AccessMode.allocate.permits other = true := by
    intro other
    cases other <;> rfl
  have quay := ((declares quayKeys (.ofDomain "quay")).2.1 .allocate).mpr
    ⟨by decide +kernel, fun other _ => allocates other⟩
  have atPier : (ofKeys pierKeys).ClashAt (ofKeys quayKeys) (.ofDomain "pier") :=
    ⟨.write, .read, by decide +kernel, by decide +kernel, .inl rfl⟩
  exact ⟨sameEntries, congruent _ _ sameEntries, quay, symmetric.symm.trans found,
    (isWriteWrite _).mp found, atPier⟩

end Declaration

end PoolLedger
