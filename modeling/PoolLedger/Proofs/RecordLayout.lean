import PoolLedger.Proofs.FixedRecords

/-!
# Where the fields of a record lie

If no two fields of a schema have one name, the offset of a field is where its
value is written.  Every byte of a record then belongs to exactly one field, and
a field that gets another value changes its own bytes only.
-/

namespace PoolLedger

namespace Schema

/-- The index is that of a byte between the offset of a field and the field's end. -/
def InWindow (schema : Schema) (field : Field) (index : Nat) : Prop :=
  ∃ offset, schema.offset? field.name = some offset ∧ offset ≤ index ∧
    index < offset + field.kind.width

/-! ## Offsets -/

theorem offsetIn_eq_none_iff {wanted : String} {fields : List Field} :
    offsetIn wanted fields = none ↔ ∀ field ∈ fields, field.name ≠ wanted := by
  induction fields with
  | nil => simp [offsetIn]
  | cons field fields ih =>
      by_cases here : field.name = wanted
      · simp [offsetIn, here]
      · simp [offsetIn, here, ih]

theorem offsetIn_of_getElem? {fields : List Field} (distinct : (fields.map (·.name)).Nodup)
    {position : Nat} {field : Field} (listed : fields[position]? = some field) :
    offsetIn field.name fields = some (widthOf (fields.take position)) := by
  induction fields generalizing position with
  | nil => simp at listed
  | cons head fields ih =>
      obtain ⟨headFirst, restDistinct⟩ := List.nodup_cons.mp distinct
      cases position with
      | zero =>
          cases listed
          simp [offsetIn]
      | succ position =>
          have laterName : field.name ∈ fields.map (·.name) :=
            List.mem_map_of_mem (List.mem_of_getElem? listed)
          have otherName : head.name ≠ field.name := by
            intro same
            rw [← same] at laterName
            exact headFirst laterName
          rw [offsetIn, if_neg otherName, ih restDistinct listed, List.take_succ_cons, widthOf_cons]
          rfl

section Layout

variable {schema : Schema} (distinct : (schema.fields.map (·.name)).Nodup)
  {position index : Nat} {field : Field}

include distinct

theorem offset?_eq (listed : schema.fields[position]? = some field) :
    schema.offset? field.name = some (schema.startOf position) :=
  offsetIn_of_getElem? distinct listed

theorem inWindow_iff (listed : schema.fields[position]? = some field) :
    schema.InWindow field index ↔
      schema.startOf position ≤ index ∧ index < schema.startOf position + field.kind.width := by
  simp [InWindow, offset?_eq distinct listed]

/-! ## Windows -/

/-- Windows end before the next one begins, so two of them never meet. -/
theorem inWindow_unique {first second : Field} (isFirst : first ∈ schema.fields)
    (isSecond : second ∈ schema.fields) (inFirst : schema.InWindow first index)
    (inSecond : schema.InWindow second index) : first = second := by
  obtain ⟨here, listedHere⟩ := List.getElem?_of_mem isFirst
  obtain ⟨there, listedThere⟩ := List.getElem?_of_mem isSecond
  -- The field at a position ends where the one after it starts, and starts only grow.
  rw [inWindow_iff distinct listedHere, ← startOf_succ listedHere] at inFirst
  rw [inWindow_iff distinct listedThere, ← startOf_succ listedThere] at inSecond
  rcases Nat.lt_trichotomy here there with before | rfl | after
  · have apart := schema.startOf_mono (show here + 1 ≤ there from before)
    omega
  · exact Option.some.inj (listedHere.symm.trans listedThere)
  · have apart := schema.startOf_mono (show there + 1 ≤ here from after)
    omega

end Layout

/-- Every byte lies between the start and the end of some field. -/
theorem exists_position {fields : List Field} {index : Nat} (inside : index < widthOf fields) :
    ∃ position field, fields[position]? = some field ∧
      widthOf (fields.take position) ≤ index ∧
        index < widthOf (fields.take position) + field.kind.width := by
  induction fields generalizing index with
  | nil => cases inside
  | cons head fields ih =>
      rw [widthOf_cons] at inside
      by_cases here : index < head.kind.width
      · exact ⟨0, head, rfl, Nat.zero_le _, by simpa using here⟩
      · have restInside : index - head.kind.width < widthOf fields := by omega
        obtain ⟨position, field, listed, starts, ends⟩ := ih restInside
        refine ⟨position + 1, field, listed, ?_, ?_⟩ <;>
          · rw [List.take_succ_cons, widthOf_cons]
            omega

theorem lt_width_iff {schema : Schema} (distinct : (schema.fields.map (·.name)).Nodup)
    {index : Nat} :
    index < schema.width ↔ ∃ field ∈ schema.fields, schema.InWindow field index := by
  constructor
  · intro inside
    obtain ⟨position, field, listed, bounds⟩ := exists_position inside
    exact ⟨field, List.mem_of_getElem? listed, (inWindow_iff distinct listed).mpr bounds⟩
  · rintro ⟨field, isField, within⟩
    obtain ⟨position, listed⟩ := List.getElem?_of_mem isField
    have ends := ((inWindow_iff distinct listed).mp within).2
    exact Nat.lt_of_lt_of_le ends (startOf_add_width_le listed)

/-! ## Another value -/

section Exchange

variable {position index : Nat} {field : Field} {other : FieldValue}
  (sameKind : other.kind = field.kind)

include sameKind

theorem kinds_set {fields : List Field} {values : List FieldValue}
    (kinds : values.map (·.kind) = fields.map (·.kind))
    (listed : fields[position]? = some field) :
    (values.set position other).map (·.kind) = fields.map (·.kind) := by
  obtain ⟨inside, isField⟩ := List.getElem?_eq_some_iff.mp listed
  rw [List.map_set, kinds, sameKind, ← isField, ← List.map_set, List.set_getElem_self]

/-- A value of the same kind is written in the same place, and what is around it stays. -/
theorem getElem?_flatMap_set {fields : List Field} {values : List FieldValue}
    (kinds : values.map (·.kind) = fields.map (·.kind))
    (listed : fields[position]? = some field)
    (outside : ¬ (widthOf (fields.take position) ≤ index ∧
      index < widthOf (fields.take position) + field.kind.width)) :
    ((values.set position other).flatMap FieldValue.encode)[index]? =
      (values.flatMap FieldValue.encode)[index]? := by
  induction fields generalizing values position index with
  | nil => simp at listed
  | cons head fields ih =>
      obtain ⟨value, values, rfl, _, width, restKinds⟩ := exists_cons_of_kinds kinds
      cases position with
      | zero =>
          cases listed
          have newWidth : other.encode.length = field.kind.width := by
            rw [other.length_encode, sameKind]
          -- Nothing is written before the first field, so the index lies behind it.
          have beyond : field.kind.width ≤ index := by
            rw [List.take_zero, widthOf_nil] at outside
            omega
          rw [List.set_cons_zero, List.flatMap_cons, List.flatMap_cons,
            List.getElem?_append_right (by omega), List.getElem?_append_right (by omega),
            newWidth, width]
      | succ position =>
          rw [List.set_cons_succ, List.flatMap_cons, List.flatMap_cons]
          by_cases early : index < value.encode.length
          · rw [List.getElem?_append_left early, List.getElem?_append_left early]
          · rw [List.getElem?_append_right (by omega), List.getElem?_append_right (by omega)]
            apply ih restKinds listed
            rw [List.take_succ_cons, widthOf_cons] at outside
            omega

end Exchange

/-- In a written record every byte belongs to one field, the bytes of a field are those of its
value, and another value changes no others. -/
structure LaidOut (schema : Schema) (values : List FieldValue) (bytes : Bytes) : Prop where
  holds : ∀ (position : Nat) (field : Field), schema.fields[position]? = some field →
    ∃ offset value, schema.offset? field.name = some offset ∧ values[position]? = some value ∧
      (bytes.drop offset).take field.kind.width = value.encode
  covers : ∀ index, index < bytes.length ↔
    ∃ field ∈ schema.fields, schema.InWindow field index
  disjoint : ∀ first ∈ schema.fields, ∀ second ∈ schema.fields, ∀ index,
    schema.InWindow first index → schema.InWindow second index → first = second
  replaces : ∀ (position : Nat) (field : Field), schema.fields[position]? = some field →
    ∀ other : FieldValue, other.kind = field.kind →
      ∃ changed, schema.encode (values.set position other) = .ok changed ∧
        ∀ index, ¬ schema.InWindow field index → changed[index]? = bytes[index]?

/-- A schema has no offset for the names that no field has, and for no others.  If its names are
distinct, every record that is written lies in windows that begin at the offsets of its fields. -/
theorem fields_have_own_windows :
    (∀ (schema : Schema) (name : String),
        schema.offset? name = none ↔ ∀ field ∈ schema.fields, field.name ≠ name) ∧
      ∀ schema : Schema, (schema.fields.map (·.name)).Nodup →
        ∀ values bytes, schema.encode values = .ok bytes → schema.LaidOut values bytes := by
  refine ⟨fun schema name => offsetIn_eq_none_iff, fun schema distinct values bytes written => ?_⟩
  have whole := length_of_encode written
  refine ⟨?_, fun index => ?_, ?_, ?_⟩
  · intro position field listed
    obtain ⟨kinds, rfl⟩ := encode_eq_ok_iff.mp written
    obtain ⟨value, atPosition, _, slice⟩ := slice_flatMap kinds listed
    exact ⟨_, value, offset?_eq distinct listed, atPosition, slice⟩
  · rw [whole]
    exact lt_width_iff distinct
  · intro first isFirst second isSecond index
    exact inWindow_unique distinct isFirst isSecond
  · intro position field listed other sameKind
    obtain ⟨kinds, rfl⟩ := encode_eq_ok_iff.mp written
    refine ⟨_, encode_eq_ok_iff.mpr ⟨kinds_set sameKind kinds listed, rfl⟩, ?_⟩
    intro index outside
    rw [inWindow_iff distinct listed] at outside
    exact getElem?_flatMap_set sameKind kinds listed outside

end Schema

/-- A pool that holds 1000 of one token and 2000 of the other. -/
def lagoon : PoolRecord where
  functionId := 1
  tokenX := .zero
  tokenY := .zero
  fee := 30
  feeTo := .zero
  reserveX := 1000
  reserveY := 2000
  lpToken := .zero
  kLast := 0

/-- The reserve of the first token is in the eight bytes from 108 on, and no other bytes of the
pool change with it. -/
theorem lagoon_laid_out :
    (PoolRecord.schema.fields.map (·.name)).Nodup ∧
      PoolRecord.schema.offset? "reserve_x" = some 108 ∧
      PoolRecord.schema.offset? "reserve_z" = none ∧
      ∃ bytes, lagoon.encode = .ok bytes ∧
        (bytes.drop 108).take 8 = [0, 0, 0, 0, 0, 0, 3, 232] ∧
        ∃ changed, PoolRecord.encode { lagoon with reserveX := 65535 } = .ok changed ∧
          ∀ index, index < 108 ∨ 116 ≤ index → changed[index]? = bytes[index]? := by
  obtain ⟨absent, written⟩ := Schema.fields_have_own_windows
  have distinct : (PoolRecord.schema.fields.map (·.name)).Nodup := by decide
  have starts : PoolRecord.schema.offset? "reserve_x" = some 108 := by decide
  obtain ⟨bytes, encoded⟩ := PoolRecord.fixedWidth.writes lagoon
  have laidOut := written PoolRecord.schema distinct lagoon.toValues bytes encoded
  obtain ⟨offset, value, isOffset, isValue, slice⟩ := laidOut.holds 5 ⟨"reserve_x", .u64⟩ rfl
  cases starts.symm.trans isOffset
  cases isValue
  obtain ⟨changed, rewritten, kept⟩ :=
    laidOut.replaces 5 ⟨"reserve_x", .u64⟩ rfl (.u64 65535) rfl
  refine ⟨distinct, starts, (absent _ _).mpr (by decide), bytes, encoded, slice, changed,
    rewritten, fun index outside => kept index ?_⟩
  rintro ⟨offset, isOffset, above, below⟩
  cases starts.symm.trans isOffset
  have ends : index < 108 + 8 := below
  omega

end PoolLedger
