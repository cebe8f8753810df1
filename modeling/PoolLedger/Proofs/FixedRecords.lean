import PoolLedger.Checked
import PoolLedger.Proofs.RecordKeys

/-!
# Records of a fixed width

Under a schema the lists of values that fit its fields and the byte strings of
its width correspond one to one: each list is written as one such string, and
each such string is read as one such list, field by field from slices that lie
inside it.  Pools are the strings of 165 bytes, domain records those of 33.
-/

namespace PoolLedger

/-- Every byte string of a kind's width is written for a value of that kind. -/
theorem FieldKind.exists_value {kind : FieldKind} {bytes : Bytes}
    (whole : bytes.length = kind.width) :
    ∃ value : FieldValue, value.kind = kind ∧ value.encode = bytes := by
  cases kind with
  | u8 =>
      obtain ⟨byte, rfl⟩ := List.length_eq_one_iff.mp whole
      exact ⟨.u8 byte, rfl, rfl⟩
  | u64 =>
      have isEight : bytes.length = 8 := whole
      have bound := Bytes.ofBigEndian_lt bytes
      rw [isEight] at bound
      have word : (UInt64.ofNat (Bytes.ofBigEndian bytes)).toNat = Bytes.ofBigEndian bytes :=
        UInt64.toNat_ofNat_of_lt' bound
      refine ⟨.u64 (UInt64.ofNat (Bytes.ofBigEndian bytes)), rfl, ?_⟩
      rw [FieldValue.encode, word, ← isEight, Bytes.bigEndian_ofBigEndian]
  | address => exact ⟨.address ⟨bytes, whole⟩, rfl, rfl⟩

theorem FieldValue.decode?_encode (value : FieldValue) :
    value.kind.decode? value.encode = some value := by
  cases value with
  | u8 byte => rfl
  | u64 word =>
      have fits : word.toNat < 256 ^ 8 := word.toNat_lt
      simp [kind, encode, FieldKind.decode?, Bytes.ofBigEndian_bigEndian fits]
  | address address =>
      simp [kind, encode, FieldKind.decode?, Address.ofBytes_bytes, Except.toOption]

namespace Schema

/-! ## Widths -/

@[simp]
theorem widthOf_nil : widthOf [] = 0 :=
  rfl

theorem widthOf_append (first second : List Field) :
    widthOf (first ++ second) = widthOf first + widthOf second := by
  simp only [widthOf, ← List.sum_eq_foldl, List.map_append, List.sum_append]

@[simp]
theorem widthOf_cons (field : Field) (fields : List Field) :
    widthOf (field :: fields) = field.kind.width + widthOf fields := by
  rw [← List.singleton_append, widthOf_append]
  simp [widthOf]

/-- Values that fit a field and more fields begin with one as wide as the field. -/
theorem exists_cons_of_kinds {field : Field} {fields : List Field} {values : List FieldValue}
    (kinds : values.map (·.kind) = (field :: fields).map (·.kind)) :
    ∃ value rest, values = value :: rest ∧ value.kind = field.kind ∧
      value.encode.length = field.kind.width ∧ rest.map (·.kind) = fields.map (·.kind) := by
  obtain ⟨value, rest, isCons, sameKind, restKinds⟩ := List.map_eq_cons_iff.mp kinds
  exact ⟨value, rest, isCons, sameKind, value.length_encode.trans (congrArg _ sameKind),
    restKinds⟩

/-- Values are as wide as the fields that they fit. -/
theorem length_flatMap_encode {fields : List Field} {values : List FieldValue}
    (kinds : values.map (·.kind) = fields.map (·.kind)) :
    (values.flatMap FieldValue.encode).length = widthOf fields := by
  induction fields generalizing values with
  | nil =>
      cases List.map_eq_nil_iff.mp kinds
      rfl
  | cons field fields ih =>
      obtain ⟨value, values, rfl, _, width, restKinds⟩ := exists_cons_of_kinds kinds
      rw [List.flatMap_cons, List.length_append, width, ih restKinds, widthOf_cons]

/-- Every byte string of the fields' width is written for values that fit them. -/
theorem exists_values {fields : List Field} {bytes : Bytes}
    (whole : bytes.length = widthOf fields) :
    ∃ values : List FieldValue, values.map (·.kind) = fields.map (·.kind) ∧
      values.flatMap FieldValue.encode = bytes := by
  induction fields generalizing bytes with
  | nil => exact ⟨[], rfl, (List.eq_nil_of_length_eq_zero whole).symm⟩
  | cons field fields ih =>
      rw [widthOf_cons] at whole
      have firstWhole : (bytes.take field.kind.width).length = field.kind.width := by
        rw [List.length_take]
        omega
      have restWhole : (bytes.drop field.kind.width).length = widthOf fields := by
        rw [List.length_drop]
        omega
      obtain ⟨value, sameKind, written⟩ := FieldKind.exists_value firstWhole
      obtain ⟨values, restKinds, restWritten⟩ := ih restWhole
      refine ⟨value :: values, ?_, ?_⟩
      · rw [List.map_cons, List.map_cons, sameKind, restKinds]
      · rw [List.flatMap_cons, written, restWritten, List.take_append_drop]

/-! ## Writing and reading -/

theorem decodeFields_encode {fields : List Field} {values : List FieldValue}
    (kinds : values.map (·.kind) = fields.map (·.kind)) :
    decodeFields fields (values.flatMap FieldValue.encode) = .ok values := by
  induction fields generalizing values with
  | nil =>
      cases List.map_eq_nil_iff.mp kinds
      rfl
  | cons field fields ih =>
      obtain ⟨value, values, rfl, sameKind, width, restKinds⟩ := exists_cons_of_kinds kinds
      have first : field.kind.decode? value.encode = some value := by
        rw [← sameKind]
        exact value.decode?_encode
      simp only [List.flatMap_cons, decodeFields, List.take_left' width, List.drop_left' width,
        first, ih restKinds]
      rfl

section Codec

variable {schema : Schema} {values : List FieldValue} {bytes : Bytes}

theorem kinds_of_encodeFields {fields : List Field} (sameLength : values.length = fields.length)
    (written : encodeFields fields values = .ok bytes) :
    values.map (·.kind) = fields.map (·.kind) := by
  induction fields generalizing values bytes with
  | nil =>
      cases List.length_eq_zero_iff.mp sameLength
      rfl
  | cons field fields ih =>
      obtain ⟨value, values, rfl⟩ := List.exists_cons_of_length_eq_add_one sameLength
      rw [encodeFields] at written
      split at written
      · rename_i sameKind
        cases rest : encodeFields fields values with
        | error error =>
            rw [rest] at written
            cases written
        | ok restBytes =>
            have restKinds := ih (Nat.succ.inj sameLength) rest
            rw [List.map_cons, List.map_cons, sameKind, restKinds]
      · cases written

/-- Values that fit the fields are written one after the other, and no others are written. -/
theorem encode_eq_ok_iff :
    schema.encode values = .ok bytes ↔
      values.map (·.kind) = schema.fields.map (·.kind) ∧
        values.flatMap FieldValue.encode = bytes := by
  unfold encode
  constructor
  · intro written
    split at written
    · rename_i sameLength
      have kinds := kinds_of_encodeFields sameLength written
      cases (encodeFields_eq kinds).symm.trans written
      exact ⟨kinds, rfl⟩
    · cases written
  · rintro ⟨kinds, rfl⟩
    have sameLength : values.length = schema.fields.length := by
      simpa using congrArg List.length kinds
    rw [if_pos sameLength, encodeFields_eq kinds]

theorem length_of_encode (written : schema.encode values = .ok bytes) :
    bytes.length = schema.width := by
  obtain ⟨kinds, rfl⟩ := encode_eq_ok_iff.mp written
  exact length_flatMap_encode kinds

theorem decode_of_encode (written : schema.encode values = .ok bytes) :
    schema.decode bytes = .ok values := by
  have whole := length_of_encode written
  obtain ⟨kinds, rfl⟩ := encode_eq_ok_iff.mp written
  rw [decode, if_pos whole, decodeFields_encode kinds]

/-- Every byte string of the schema's width is read as the values that are written as it. -/
theorem exists_encode_of_length (whole : bytes.length = schema.width) :
    ∃ values, schema.encode values = .ok bytes := by
  obtain ⟨values, kinds, written⟩ := exists_values whole
  exact ⟨values, encode_eq_ok_iff.mpr ⟨kinds, written⟩⟩

theorem decode_eq_ok_iff : schema.decode bytes = .ok values ↔ schema.encode values = .ok bytes := by
  refine ⟨fun read => ?_, decode_of_encode⟩
  have whole : bytes.length = schema.width := by
    by_contra otherLength
    rw [decode, if_neg otherLength] at read
    cases read
  obtain ⟨others, written⟩ := exists_encode_of_length whole
  cases (decode_of_encode written).symm.trans read
  exact written

theorem decode_eq_error_iff {error : CodecError} :
    schema.decode bytes = .error error ↔ bytes.length ≠ schema.width ∧
      error = .invalidLength schema.name schema.width bytes.length := by
  by_cases whole : bytes.length = schema.width
  · obtain ⟨values, written⟩ := exists_encode_of_length whole
    simp [decode_of_encode written, whole]
  · rw [decode, if_neg whole]
    simp [whole, eq_comm]

end Codec

/-! ## Slices -/

/-- The bytes before the field at a position. -/
def startOf (schema : Schema) (position : Nat) : Nat :=
  widthOf (schema.fields.take position)

/-- A field's value is written where the fields before it end. -/
theorem slice_flatMap {fields : List Field} {values : List FieldValue}
    (kinds : values.map (·.kind) = fields.map (·.kind)) {position : Nat} {field : Field}
    (listed : fields[position]? = some field) :
    ∃ value, values[position]? = some value ∧ value.kind = field.kind ∧
      ((values.flatMap FieldValue.encode).drop (widthOf (fields.take position))).take
        field.kind.width = value.encode := by
  induction fields generalizing values position with
  | nil => simp at listed
  | cons head fields ih =>
      obtain ⟨value, values, rfl, sameKind, width, restKinds⟩ := exists_cons_of_kinds kinds
      cases position with
      | zero =>
          cases listed
          exact ⟨value, rfl, sameKind, by simp [List.take_left' width]⟩
      | succ position =>
          -- To skip the fields before it is to skip the first one and then the others.
          obtain ⟨found, atPosition, foundKind, slice⟩ := ih restKinds listed
          refine ⟨found, atPosition, foundKind, ?_⟩
          rw [List.flatMap_cons, List.take_succ_cons, widthOf_cons, ← List.drop_drop,
            List.drop_left' width, slice]

theorem startOf_succ {schema : Schema} {position : Nat} {field : Field}
    (listed : schema.fields[position]? = some field) :
    schema.startOf (position + 1) = schema.startOf position + field.kind.width := by
  obtain ⟨inside, rfl⟩ := List.getElem?_eq_some_iff.mp listed
  rw [startOf, ← List.take_append_getElem inside, widthOf_append, widthOf_cons, widthOf_nil]
  rfl

theorem startOf_mono (schema : Schema) {first second : Nat} (before : first ≤ second) :
    schema.startOf first ≤ schema.startOf second := by
  obtain ⟨distance, rfl⟩ := Nat.exists_eq_add_of_le before
  rw [startOf, startOf, List.take_add, widthOf_append]
  exact Nat.le_add_right _ _

theorem startOf_length (schema : Schema) : schema.startOf schema.fields.length = schema.width := by
  rw [startOf, List.take_length, width]

theorem startOf_add_width_le {schema : Schema} {position : Nat} {field : Field}
    (listed : schema.fields[position]? = some field) :
    schema.startOf position + field.kind.width ≤ schema.width := by
  obtain ⟨inside, _⟩ := List.getElem?_eq_some_iff.mp listed
  rw [← startOf_succ listed, ← schema.startOf_length]
  exact schema.startOf_mono inside

/-- Writing and reading are inverse to each other, between the lists of values that fit the fields
and the byte strings of the schema's width. -/
structure Bijective (schema : Schema) : Prop where
  writes_iff : ∀ values, (∃ bytes, schema.encode values = .ok bytes) ↔
    values.map (·.kind) = schema.fields.map (·.kind)
  length_eq : ∀ values bytes, schema.encode values = .ok bytes → bytes.length = schema.width
  reads_iff : ∀ bytes, (∃ values, schema.decode bytes = .ok values) ↔
    bytes.length = schema.width
  /-- The length is all that is ever wrong with a byte string. -/
  refuses : ∀ bytes error, schema.decode bytes = .error error →
    error = .invalidLength schema.name schema.width bytes.length
  inverse : ∀ values bytes, schema.decode bytes = .ok values ↔ schema.encode values = .ok bytes
  /-- Each value is read from a slice that lies inside the bytes. -/
  slices : ∀ values bytes, schema.decode bytes = .ok values →
    ∀ (position : Nat) (field : Field), schema.fields[position]? = some field →
      schema.startOf position + field.kind.width ≤ bytes.length ∧
        ∃ value, values[position]? = some value ∧
          field.kind.decode? ((bytes.drop (schema.startOf position)).take field.kind.width) =
            some value

theorem bijective (schema : Schema) : schema.Bijective where
  writes_iff values := by
    simp only [encode_eq_ok_iff, exists_and_left, exists_eq', and_true]
  length_eq _ _ := length_of_encode
  reads_iff bytes := by
    simp only [decode_eq_ok_iff]
    constructor
    · rintro ⟨values, written⟩
      exact length_of_encode written
    · exact exists_encode_of_length
  refuses _ _ refused := (decode_eq_error_iff.mp refused).2
  inverse _ _ := decode_eq_ok_iff
  slices values bytes read position field listed := by
    have written := decode_eq_ok_iff.mp read
    rw [length_of_encode written]
    refine ⟨startOf_add_width_le listed, ?_⟩
    obtain ⟨kinds, rfl⟩ := encode_eq_ok_iff.mp written
    obtain ⟨value, atPosition, sameKind, slice⟩ := slice_flatMap kinds listed
    refine ⟨value, atPosition, ?_⟩
    rw [startOf, slice, ← sameKind, value.decode?_encode]

end Schema

/-! ## Records -/

/-- Writing and reading are inverse to each other, between all records and all byte strings of one
width. -/
structure FixedWidth {α : Type} (encode : α → Except CodecError Bytes)
    (decode : Bytes → Except CodecError α) (width : Nat) : Prop where
  writes : ∀ record, ∃ bytes, encode record = .ok bytes
  reads_iff : ∀ bytes, (∃ record, decode bytes = .ok record) ↔ bytes.length = width
  inverse : ∀ record bytes, decode bytes = .ok record ↔ encode record = .ok bytes

/-- Records that correspond one to one to the lists of values that fit a schema are written and read
as exactly as these. -/
theorem Schema.fixedWidth {α : Type} (schema : Schema) {toValues : α → List FieldValue}
    {ofValues : List FieldValue → Except CodecError α}
    (kinds : ∀ record, (toValues record).map (·.kind) = schema.fields.map (·.kind))
    (undoes : ∀ record, ofValues (toValues record) = .ok record)
    (covers : ∀ values : List FieldValue, values.map (·.kind) = schema.fields.map (·.kind) →
      ∃ record, toValues record = values) :
    FixedWidth (fun record => schema.encode (toValues record))
      (fun bytes => schema.decode bytes >>= ofValues) schema.width := by
  have inverse : ∀ record bytes, (schema.decode bytes >>= ofValues) = .ok record ↔
      schema.encode (toValues record) = .ok bytes := by
    intro record bytes
    rw [bind_eq_ok_iff_exists]
    constructor
    · rintro ⟨values, read, isRecord⟩
      -- The values that were read fit, so they are those of some record, and of this one.
      have written := decode_eq_ok_iff.mp read
      obtain ⟨other, rfl⟩ := covers values (encode_eq_ok_iff.mp written).1
      cases (undoes other).symm.trans isRecord
      exact written
    · intro written
      exact ⟨toValues record, decode_of_encode written, undoes record⟩
  refine ⟨fun record => ⟨_, encode_eq_ok_iff.mpr ⟨kinds record, rfl⟩⟩, fun bytes => ?_, inverse⟩
  constructor
  · rintro ⟨record, read⟩
    exact length_of_encode ((inverse record bytes).mp read)
  · intro whole
    obtain ⟨values, written⟩ := exists_encode_of_length whole
    obtain ⟨record, rfl⟩ := covers values (encode_eq_ok_iff.mp written).1
    exact ⟨record, (inverse record bytes).mpr written⟩

namespace FieldValue

variable {value : FieldValue}

theorem exists_u8 (isByte : value.kind = .u8) : ∃ byte, value = .u8 byte :=
  match value, isByte with
  | .u8 byte, _ => ⟨byte, rfl⟩

theorem exists_u64 (isWord : value.kind = .u64) : ∃ word, value = .u64 word :=
  match value, isWord with
  | .u64 word, _ => ⟨word, rfl⟩

theorem exists_address (isAddress : value.kind = .address) : ∃ owner, value = .address owner :=
  match value, isAddress with
  | .address owner, _ => ⟨owner, rfl⟩

end FieldValue

theorem PoolRecord.ofValues_toValues (record : PoolRecord) :
    ofValues record.toValues = .ok record :=
  rfl

theorem PoolRecord.exists_toValues {values : List FieldValue}
    (kinds : values.map (·.kind) = schema.fields.map (·.kind)) :
    ∃ record : PoolRecord, record.toValues = values := by
  simp only [schema, List.map_cons, List.map_nil, List.map_eq_cons_iff, List.map_eq_nil_iff] at kinds
  obtain ⟨_, _, rfl, isFunction, _, _, rfl, isTokenX, _, _, rfl, isTokenY, _, _, rfl, isFee,
    _, _, rfl, isFeeTo, _, _, rfl, isReserveX, _, _, rfl, isReserveY, _, _, rfl, isLpToken,
    _, _, rfl, isKLast, rfl⟩ := kinds
  obtain ⟨functionId, rfl⟩ := FieldValue.exists_u8 isFunction
  obtain ⟨tokenX, rfl⟩ := FieldValue.exists_address isTokenX
  obtain ⟨tokenY, rfl⟩ := FieldValue.exists_address isTokenY
  obtain ⟨fee, rfl⟩ := FieldValue.exists_u64 isFee
  obtain ⟨feeTo, rfl⟩ := FieldValue.exists_address isFeeTo
  obtain ⟨reserveX, rfl⟩ := FieldValue.exists_u64 isReserveX
  obtain ⟨reserveY, rfl⟩ := FieldValue.exists_u64 isReserveY
  obtain ⟨lpToken, rfl⟩ := FieldValue.exists_address isLpToken
  obtain ⟨kLast, rfl⟩ := FieldValue.exists_u64 isKLast
  exact ⟨{ functionId, tokenX, tokenY, fee, feeTo, reserveX, reserveY, lpToken, kLast }, rfl⟩

theorem PoolRecord.fixedWidth : FixedWidth encode decode 165 :=
  schema.fixedWidth (fun _ => rfl) ofValues_toValues fun _ => exists_toValues

theorem PoolRecord.decode_encode (record : PoolRecord) :
    ∃ bytes, record.encode = .ok bytes ∧ decode bytes = .ok record := by
  obtain ⟨bytes, written⟩ := fixedWidth.writes record
  exact ⟨bytes, written, (fixedWidth.inverse record bytes).mpr written⟩

theorem DomainRecord.ofValues_toValues (record : DomainRecord) :
    ofValues record.toValues = .ok record :=
  rfl

theorem DomainRecord.exists_toValues {values : List FieldValue}
    (kinds : values.map (·.kind) = schema.fields.map (·.kind)) :
    ∃ record : DomainRecord, record.toValues = values := by
  simp only [schema, List.map_cons, List.map_nil, List.map_eq_cons_iff, List.map_eq_nil_iff] at kinds
  obtain ⟨_, _, rfl, isOwner, rfl⟩ := kinds
  obtain ⟨owner, rfl⟩ := FieldValue.exists_address isOwner
  exact ⟨{ owner }, rfl⟩

theorem DomainRecord.fixedWidth : FixedWidth encode decode 33 :=
  schema.fixedWidth (fun _ => rfl) ofValues_toValues fun _ => exists_toValues

/-- Under every schema, writing and reading are inverse to each other between the values that fit
the fields and the byte strings of the schema's width.  With the values of a pool and of a domain
record that makes them the strings of 165 and of 33 bytes. -/
theorem fixed_records_bijective :
    (∀ schema : Schema, schema.Bijective) ∧
      (FixedWidth PoolRecord.encode PoolRecord.decode 165 ∧
        ∀ record : PoolRecord, PoolRecord.ofValues record.toValues = .ok record) ∧
      FixedWidth DomainRecord.encode DomainRecord.decode 33 ∧
        ∀ record : DomainRecord, DomainRecord.ofValues record.toValues = .ok record :=
  ⟨Schema.bijective, ⟨PoolRecord.fixedWidth, PoolRecord.ofValues_toValues⟩,
    DomainRecord.fixedWidth, DomainRecord.ofValues_toValues⟩

/-- A schema with a field of each kind. -/
def tollSchema : Schema :=
  ⟨"toll", [⟨"lane", .u8⟩, ⟨"keeper", .address⟩, ⟨"fee", .u64⟩]⟩

/-- A toll travels in 42 bytes, and 41 of them are no toll.  Any 165 bytes are a pool. -/
theorem toll_travels :
    (∃ bytes, tollSchema.encode [.u8 7, .address .zero, .u64 258] = .ok bytes ∧
        bytes.length = 42 ∧ tollSchema.decode bytes = .ok [.u8 7, .address .zero, .u64 258] ∧
        tollSchema.decode (bytes.take 41) = .error (.invalidLength "toll" 42 41)) ∧
      ∃ pool, PoolRecord.decode (List.replicate 165 9) = .ok pool ∧
        pool.encode = .ok (List.replicate 165 9) := by
  obtain ⟨schemas, ⟨pools, _⟩, _⟩ := fixed_records_bijective
  have toll := schemas tollSchema
  obtain ⟨bytes, written⟩ := (toll.writes_iff [.u8 7, .address .zero, .u64 258]).mpr rfl
  have whole : bytes.length = 42 := toll.length_eq _ _ written
  have short : (bytes.take 41).length = 41 := by
    rw [List.length_take, whole]
    rfl
  refine ⟨⟨bytes, written, whole, (toll.inverse _ _).mpr written, ?_⟩, ?_⟩
  · cases read : tollSchema.decode (bytes.take 41) with
    | ok values =>
        have isWhole := (toll.reads_iff _).mp ⟨values, read⟩
        rw [short] at isWhole
        cases isWhole
    | error error =>
        rw [toll.refuses _ _ read, short]
        rfl
  · obtain ⟨pool, read⟩ := (pools.reads_iff (List.replicate 165 9)).mpr List.length_replicate
    exact ⟨pool, read, (pools.inverse _ _).mp read⟩

end PoolLedger
