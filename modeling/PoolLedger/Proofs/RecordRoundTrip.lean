import PoolLedger.Proofs.RecordKeys

/-!
# Token records read back

What is written for a token is read back as that token, each segment after its
length.
-/

namespace PoolLedger

namespace TokenRecord

theorem Remainder.take_append (offset : Nat) (segment rest : Bytes) {count : Nat}
    (isLength : segment.length = count) :
    Remainder.take count ⟨offset, segment ++ rest⟩ =
      .ok (segment, ⟨offset + count, rest⟩) := by
  have enough : count ≤ (segment ++ rest).length := by
    rw [List.length_append]
    omega
  rw [Remainder.take, if_pos enough, List.take_left' isLength, List.drop_left' isLength]

/-- A segment that is not too long is read back after its length. -/
theorem Remainder.takeSegment_append (field : String) (offset : Nat) {limit : Nat}
    {segment : Bytes} (within : segment.length ≤ limit) (narrow : limit < 256 ^ 2)
    (rest : Bytes) :
    Remainder.takeSegment field limit
        ⟨offset, Bytes.bigEndian 2 segment.length ++ (segment ++ rest)⟩ =
      .ok (segment, ⟨offset + 2 + segment.length, rest⟩) := by
  have fits : segment.length < 256 ^ 2 := Nat.lt_of_le_of_lt within narrow
  rw [Remainder.takeSegment, Remainder.take_append _ _ _ (Bytes.length_bigEndian _ _)]
  simp only [bind, Except.bind, Bytes.ofBigEndian_bigEndian fits, Nat.not_lt.mpr within, if_false]
  exact Remainder.take_append _ _ _ rfl

/-- A record is read back as far as it was written, and then nothing may be left. -/
theorem decode_written_append {record : TokenRecord} (bounded : record.Bounded) (extra : Bytes) :
    decode (record.written ++ extra) =
      if extra.isEmpty then .ok record
      else .error (.trailingBytes "token_info" extra.length) := by
  obtain ⟨name, symbol, metadata⟩ := bounded
  simp only [written, List.append_assoc]
  rw [decode, Remainder.takeSegment_append _ _ name (by decide)]
  simp only [bind, Except.bind]
  rw [Remainder.takeSegment_append _ _ symbol (by decide)]
  simp only
  rw [Remainder.takeSegment_append _ _ metadata (by decide)]
  simp only
  rw [Remainder.take_append _ _ _ (List.length_singleton : [record.decimals].length = 1)]
  simp only
  rw [Remainder.take_append _ _ _ record.owner.length_eq]
  simp only [Address.ofBytes_bytes]
  rfl

theorem decode_encode {record : TokenRecord} (bounded : record.Bounded) :
    ∃ bytes, record.encode = .ok bytes ∧ decode bytes = .ok record := by
  have whole := decode_written_append bounded []
  rw [List.append_nil] at whole
  exact ⟨record.written, encode_eq_written bounded, whole⟩

end TokenRecord

end PoolLedger
