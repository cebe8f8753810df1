import PoolLedger.Checked
import PoolLedger.Proofs.RecordRoundTrip

/-!
# The token record codec

A token record that fits has one written form and is read from no other byte
string.  A written form that is cut short ends inside one of its parts, and one
that goes on has trailing bytes.
-/

namespace PoolLedger

namespace TokenRecord

/-! ## Reading exactly -/

namespace Remainder

variable {left rest : Remainder} {segment : Bytes}

theorem append_of_take {count : Nat} (read : left.take count = .ok (segment, rest)) :
    segment.length = count ∧ segment ++ rest.bytes = left.bytes := by
  unfold take at read
  split at read
  · rename_i enough
    cases read
    exact ⟨List.length_take_of_le enough, List.take_append_drop count left.bytes⟩
  · cases read

/-- The two bytes before a segment are its length. -/
theorem append_of_takeSegment {field : String} {limit : Nat}
    (read : left.takeSegment field limit = .ok (segment, rest)) :
    segment.length ≤ limit ∧
      Bytes.bigEndian 2 segment.length ++ (segment ++ rest.bytes) = left.bytes := by
  obtain ⟨⟨lengthBytes, middle⟩, readLength, readRest⟩ := bind_eq_ok_iff_exists.mp read
  obtain ⟨isTwo, wholeLeft⟩ := append_of_take readLength
  simp only at readRest
  split at readRest
  · cases readRest
  · rename_i within
    obtain ⟨isLength, wholeMiddle⟩ := append_of_take readRest
    rw [isLength, wholeMiddle, ← isTwo, Bytes.bigEndian_ofBigEndian, wholeLeft]
    exact ⟨Nat.le_of_not_lt within, rfl⟩

end Remainder

/-- A record is read from its written form and from nothing else. -/
theorem decode_eq_ok_iff {bytes : Bytes} {record : TokenRecord} :
    decode bytes = .ok record ↔ record.Bounded ∧ record.written = bytes := by
  constructor
  · intro decoded
    simp only [decode, bind_eq_ok_iff_exists, Prod.exists] at decoded
    obtain ⟨name, afterName, readName, symbol, afterSymbol, readSymbol, metadata, afterMetadata,
      readMetadata, decimals, afterDecimals, readDecimals, ownerBytes, afterOwner, readOwner,
      accepted⟩ := decoded
    obtain ⟨nameFits, wholeBytes⟩ := Remainder.append_of_takeSegment readName
    obtain ⟨symbolFits, wholeName⟩ := Remainder.append_of_takeSegment readSymbol
    obtain ⟨metadataFits, wholeSymbol⟩ := Remainder.append_of_takeSegment readMetadata
    obtain ⟨isOne, wholeMetadata⟩ := Remainder.append_of_take readDecimals
    obtain ⟨_, wholeDecimals⟩ := Remainder.append_of_take readOwner
    obtain ⟨byte, rfl⟩ := List.length_eq_one_iff.mp isOne
    split at accepted
    · cases accepted
    · rename_i owner isOwner
      split at accepted
      · rename_i nothingLeft
        cases accepted
        rw [List.isEmpty_iff.mp nothingLeft, List.append_nil,
          ← Address.bytes_of_ofBytes isOwner] at wholeDecimals
        rw [← wholeName, ← wholeSymbol, ← wholeMetadata, ← wholeDecimals] at wholeBytes
        exact ⟨⟨nameFits, symbolFits, metadataFits⟩, wholeBytes⟩
      · cases accepted
  · rintro ⟨bounded, rfl⟩
    have whole := decode_written_append bounded []
    rwa [List.append_nil] at whole

/-! ## Written forms that are cut short -/

/-- The reading fails because the bytes end at the position `stop`, before the end of a part. -/
def EndsInside {α : Type} (stop : Nat) (read : Except CodecError α) : Prop :=
  ∃ offset needed, read = .error (.truncated "token_info" offset needed) ∧
    offset ≤ stop ∧ stop < offset + needed

theorem endsInside_bind {α β : Type} {stop : Nat} {read : Except CodecError α}
    {next : α → Except CodecError β}
    (ends : EndsInside stop read ∨ ∃ middle, read = .ok middle ∧ EndsInside stop (next middle)) :
    EndsInside stop (read >>= next) := by
  rcases ends with ⟨offset, needed, rfl, starts, short⟩ | ⟨middle, rfl, ends⟩
  · exact ⟨offset, needed, rfl, starts, short⟩
  · exact ends

namespace Remainder

variable {offset left stop : Nat}

/-- A part is read unless the bytes end before its end. -/
theorem take_cut {segment : Bytes} {count : Nat} (isLength : segment.length = count)
    (rest : Bytes) (isStop : offset + left = stop) :
    EndsInside stop (take count ⟨offset, (segment ++ rest).take left⟩) ∨
      ∃ after, offset + count + after = stop ∧
        take count ⟨offset, (segment ++ rest).take left⟩ =
          .ok (segment, ⟨offset + count, rest.take after⟩) := by
  by_cases short : left < count
  · left
    refine ⟨offset, count, ?_, by omega, by omega⟩
    have notEnough : ¬ count ≤ ((segment ++ rest).take left).length := by
      rw [List.length_take]
      omega
    rw [take, if_neg notEnough]
  · right
    refine ⟨left - count, by omega, ?_⟩
    have cut : (segment ++ rest).take left = segment ++ rest.take (left - count) := by
      rw [List.take_append, isLength, List.take_of_length_le (by omega)]
    rw [cut, take_append _ _ _ isLength]

theorem takeSegment_cut (field : String) {limit : Nat} {segment : Bytes}
    (within : segment.length ≤ limit) (narrow : limit < 256 ^ 2) (rest : Bytes)
    (isStop : offset + left = stop) :
    EndsInside stop (takeSegment field limit
        ⟨offset, (Bytes.bigEndian 2 segment.length ++ (segment ++ rest)).take left⟩) ∨
      ∃ after, offset + 2 + segment.length + after = stop ∧
        takeSegment field limit
            ⟨offset, (Bytes.bigEndian 2 segment.length ++ (segment ++ rest)).take left⟩ =
          .ok (segment, ⟨offset + 2 + segment.length, rest.take after⟩) := by
  have fits : segment.length < 256 ^ 2 := Nat.lt_of_le_of_lt within narrow
  have isTwo : (Bytes.bigEndian 2 segment.length).length = 2 := Bytes.length_bigEndian _ _
  rcases take_cut isTwo (segment ++ rest) isStop with ends | ⟨after, afterStop, readLength⟩
  · exact .inl (endsInside_bind (.inl ends))
  · rw [takeSegment, readLength]
    simp only [bind, Except.bind, Bytes.ofBigEndian_bigEndian fits, Nat.not_lt.mpr within,
      if_false]
    exact take_cut rfl rest afterStop

end Remainder

/-- A record is not read from less than its written form: one of its parts is missing. -/
theorem endsInside_decode {record : TokenRecord} (bounded : record.Bounded) {stop : Nat}
    (short : stop < record.written.length) : EndsInside stop (decode (record.written.take stop)) := by
  obtain ⟨name, symbol, metadata⟩ := bounded
  have isOwner := record.owner.length_eq
  have isOne : [record.decimals].length = 1 := List.length_singleton
  rw [length_written, width] at short
  rw [decode, written, ← List.append_nil record.owner.bytes]
  apply endsInside_bind
  apply (Remainder.takeSegment_cut "name" name (by decide) _ (Nat.zero_add stop)).imp_right
  rintro ⟨afterName, nameStop, readName⟩
  refine ⟨_, readName, endsInside_bind ?_⟩
  apply (Remainder.takeSegment_cut "symbol" symbol (by decide) _ nameStop).imp_right
  rintro ⟨afterSymbol, symbolStop, readSymbol⟩
  refine ⟨_, readSymbol, endsInside_bind ?_⟩
  apply (Remainder.takeSegment_cut "metadata" metadata (by decide) _ symbolStop).imp_right
  rintro ⟨afterMetadata, metadataStop, readMetadata⟩
  refine ⟨_, readMetadata, endsInside_bind ?_⟩
  apply (Remainder.take_cut isOne _ metadataStop).imp_right
  rintro ⟨afterDecimals, decimalsStop, readDecimals⟩
  refine ⟨_, readDecimals, endsInside_bind ?_⟩
  apply (Remainder.take_cut isOwner _ decimalsStop).imp_right
  -- All parts have been read, so the bytes were not short.
  rintro ⟨afterOwner, ownerStop, _⟩
  omega

/-! ## Records that do not fit -/

/-- The first segment of a record that is too long, as the error that reports it. -/
inductive Oversized (record : TokenRecord) : CodecError → Prop
  | name (exceeds : 64 < record.name.length) :
      Oversized record (.segmentTooLong "name" record.name.length 64)
  | symbol (nameFits : record.name.length ≤ 64) (exceeds : 8 < record.symbol.length) :
      Oversized record (.segmentTooLong "symbol" record.symbol.length 8)
  | metadata (nameFits : record.name.length ≤ 64) (symbolFits : record.symbol.length ≤ 8)
      (exceeds : 256 < record.metadata.length) :
      Oversized record (.segmentTooLong "metadata" record.metadata.length 256)

theorem encodeSegment_of_lt (field : String) {limit : Nat} {segment : Bytes}
    (exceeds : limit < segment.length) :
    encodeSegment field limit segment = .error (.segmentTooLong field segment.length limit) := by
  rw [encodeSegment, if_pos exceeds]

section Encoding

variable {record : TokenRecord}

theorem encode_of_oversized {error : CodecError} (oversized : record.Oversized error) :
    record.encode = .error error := by
  cases oversized with
  | name exceeds =>
      have nameExceeds : maxName < record.name.length := exceeds
      rw [encode, encodeSegment_of_lt _ nameExceeds]
      rfl
  | symbol nameFits exceeds =>
      have name : record.name.length ≤ maxName := nameFits
      have symbolExceeds : maxSymbol < record.symbol.length := exceeds
      rw [encode, encodeSegment_of_le _ name, encodeSegment_of_lt _ symbolExceeds]
      rfl
  | metadata nameFits symbolFits exceeds =>
      have name : record.name.length ≤ maxName := nameFits
      have symbol : record.symbol.length ≤ maxSymbol := symbolFits
      have metadataExceeds : maxMetadata < record.metadata.length := exceeds
      rw [encode, encodeSegment_of_le _ name, encodeSegment_of_le _ symbol,
        encodeSegment_of_lt _ metadataExceeds]
      rfl

theorem bounded_or_oversized (record : TokenRecord) :
    record.Bounded ∨ ∃ error, record.Oversized error := by
  by_cases nameFits : record.name.length ≤ 64
  · by_cases symbolFits : record.symbol.length ≤ 8
    · by_cases metadataFits : record.metadata.length ≤ 256
      · exact .inl ⟨nameFits, symbolFits, metadataFits⟩
      · exact .inr ⟨_, .metadata nameFits symbolFits (Nat.lt_of_not_le metadataFits)⟩
    · exact .inr ⟨_, .symbol nameFits (Nat.lt_of_not_le symbolFits)⟩
  · exact .inr ⟨_, .name (Nat.lt_of_not_le nameFits)⟩

theorem encode_eq_ok_iff {bytes : Bytes} :
    record.encode = .ok bytes ↔ record.Bounded ∧ record.written = bytes := by
  constructor
  · intro encoded
    rcases record.bounded_or_oversized with bounded | ⟨error, oversized⟩
    · cases (encode_eq_written bounded).symm.trans encoded
      exact ⟨bounded, rfl⟩
    · cases (encode_of_oversized oversized).symm.trans encoded
  · rintro ⟨bounded, rfl⟩
    exact encode_eq_written bounded

theorem encode_eq_error_iff {error : CodecError} :
    record.encode = .error error ↔ record.Oversized error := by
  constructor
  · intro refused
    rcases record.bounded_or_oversized with bounded | ⟨other, oversized⟩
    · cases (encode_eq_written bounded).symm.trans refused
    · cases (encode_of_oversized oversized).symm.trans refused
      exact oversized
  · exact encode_of_oversized

end Encoding

/-- A token record is written exactly if its segments are no longer than 64, 8 and 256 bytes, and
else refused for the first that is.  The written form is as wide as announced, is read as that
record, and is the only one that is.  Cut short it is refused as truncated where it ends, and with
more bytes behind it for their number. -/
theorem token_codec_exact :
    (∀ record : TokenRecord,
        ((∃ bytes, record.encode = .ok bytes) ↔
          record.name.length ≤ 64 ∧ record.symbol.length ≤ 8 ∧ record.metadata.length ≤ 256) ∧
        ∀ error, record.encode = .error error ↔ record.Oversized error) ∧
      (∀ bytes record, decode bytes = .ok record ↔ record.encode = .ok bytes) ∧
      ∀ (record : TokenRecord) bytes, record.encode = .ok bytes →
        bytes.length = record.width ∧
        (∀ stop, stop < bytes.length → ∃ offset needed,
          decode (bytes.take stop) = .error (.truncated "token_info" offset needed) ∧
            offset ≤ stop ∧ stop < offset + needed) ∧
        ∀ extra, extra ≠ [] →
          decode (bytes ++ extra) = .error (.trailingBytes "token_info" extra.length) := by
  refine ⟨fun record => ⟨?_, fun error => encode_eq_error_iff⟩, fun bytes record => ?_, ?_⟩
  · simp only [encode_eq_ok_iff, exists_and_left, exists_eq', and_true]
    exact Iff.rfl
  · rw [decode_eq_ok_iff, encode_eq_ok_iff]
  · intro record bytes encoded
    obtain ⟨bounded, rfl⟩ := encode_eq_ok_iff.mp encoded
    refine ⟨record.length_written, fun stop short => endsInside_decode bounded short, ?_⟩
    intro extra someExtra
    rw [decode_written_append bounded, if_neg (by simpa using someExtra)]

/-- A token with an empty symbol. -/
def pearl : TokenRecord where
  name := [112, 101, 97, 114, 108]
  symbol := []
  metadata := [7, 0]
  decimals := 9
  owner := .zero

/-- The form of a token with an empty segment takes 47 bytes.  Cut after 12 of them it lacks the
second of its two bytes of metadata. -/
theorem pearl_travels :
    pearl.encode = .ok pearl.written ∧ decode pearl.written = .ok pearl ∧
      pearl.written.length = 47 ∧
      (∃ offset needed, decode (pearl.written.take 12) =
        .error (.truncated "token_info" offset needed) ∧ offset ≤ 12 ∧ 12 < offset + needed) ∧
      decode (pearl.written ++ [0, 7]) = .error (.trailingBytes "token_info" 2) ∧
      { pearl with symbol := List.replicate 9 80 }.encode = .error (.segmentTooLong "symbol" 9 8) := by
  obtain ⟨writes, reads, exactly⟩ := token_codec_exact
  have encoded : pearl.encode = .ok pearl.written := by decide +kernel
  obtain ⟨isWidth, short, long⟩ := exactly pearl _ encoded
  refine ⟨encoded, (reads _ _).mpr encoded, isWidth, short 12 ?_, long [0, 7] (by simp), ?_⟩
  · rw [isWidth]
    decide
  · exact ((writes _).2 _).mpr (.symbol (by decide) (by decide))

end TokenRecord

end PoolLedger
