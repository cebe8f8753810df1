import PoolLedger.Action.Limits
import PoolLedger.Proofs.ByteWords
import PoolLedger.Record.Balance
import PoolLedger.Record.Domain
import PoolLedger.Record.Pool
import PoolLedger.Record.Token
import PoolLedger.StateKey

/-!
# Keys and the records under them

A key tells its family and how long its value may be, and the records of each
family are never longer.  Balance and domain records read back as they were
written.
-/

namespace PoolLedger

namespace Bytes

theorem ofText_inj {first second : String} : ofText first = ofText second ↔ first = second := by
  constructor
  · intro same
    have arrays : first.toByteArray = second.toByteArray := ByteArray.ext (Array.toList_inj.mp same)
    exact String.toByteArray_inj.mp arrays
  · exact congrArg ofText

theorem length_ofText (text : String) : (ofText text).length = text.utf8ByteSize := by
  rw [ofText, Array.length_toList]
  rfl

end Bytes

namespace StateKey

@[simp]
theorem kind?_ofBalance (account : Address) : (ofBalance account).kind? = some .balance :=
  rfl

@[simp]
theorem kind?_ofToken (token : Address) : (ofToken token).kind? = some .tokenInfo :=
  rfl

@[simp]
theorem kind?_ofPool (pool : Address) : (ofPool pool).kind? = some .liquidityPool :=
  rfl

@[simp]
theorem kind?_ofDomain (domain : String) : (ofDomain domain).kind? = some .domain :=
  rfl

section Build

variable (tag : UInt8) (segment : Bytes) (chunks : Nat)

theorem length_build : (build tag segment chunks).bytes.length = segment.length + 3 := by
  simp [build]

theorem segment_build : (build tag segment chunks).segment = segment := by
  have long : ¬ (build tag segment chunks).bytes.length < 3 := by
    rw [length_build]
    omega
  rw [StateKey.segment, if_neg long, length_build, Nat.add_sub_cancel, build, List.drop_one,
    List.tail_cons, List.take_left]

variable {chunks}

theorem maxChunks_build (fits : chunks < 256 ^ 2) :
    (build tag segment chunks).maxChunks = chunks := by
  have long : ¬ (build tag segment chunks).bytes.length < 3 := by
    rw [length_build]
    omega
  have split : (build tag segment chunks).bytes = (tag :: segment) ++ Bytes.bigEndian 2 chunks :=
    rfl
  have beforeChunks : segment.length + 3 - 2 = (tag :: segment).length := rfl
  rw [maxChunks, if_neg long, length_build, beforeChunks, split, List.drop_left,
    Bytes.ofBigEndian_bigEndian fits]

theorem maxValueLength_build (fits : chunks < 256 ^ 2) :
    (build tag segment chunks).maxValueLength = chunks * chunkSize := by
  rw [maxValueLength, maxChunks_build tag segment fits]

end Build

theorem build_inj {tag : UInt8} {first second : Bytes} {chunks : Nat} :
    build tag first chunks = build tag second chunks ↔ first = second := by
  simp [build]

theorem ofBalance_inj {first second : Address} :
    ofBalance first = ofBalance second ↔ first = second :=
  build_inj.trans ⟨Address.eq_of_bytes_eq, congrArg Address.bytes⟩

theorem ofToken_inj {first second : Address} : ofToken first = ofToken second ↔ first = second :=
  build_inj.trans ⟨Address.eq_of_bytes_eq, congrArg Address.bytes⟩

theorem ofPool_inj {first second : Address} : ofPool first = ofPool second ↔ first = second :=
  build_inj.trans ⟨Address.eq_of_bytes_eq, congrArg Address.bytes⟩

theorem ofDomain_inj {first second : String} : ofDomain first = ofDomain second ↔ first = second :=
  build_inj.trans Bytes.ofText_inj

end StateKey

namespace BalanceRecord

@[simp]
theorem length_encode (amount : UInt64) : (encode amount).length = 8 :=
  Bytes.length_bigEndian 8 _

@[simp]
theorem decode_encode (amount : UInt64) : decode (encode amount) = .ok amount := by
  have fits : amount.toNat < 256 ^ 8 := amount.toNat_lt
  rw [decode, if_pos (length_encode amount), encode, Bytes.ofBigEndian_bigEndian fits,
    UInt64.ofNat_toNat]

theorem length_le_max (account : Address) (amount : UInt64) :
    (encode amount).length ≤ (StateKey.ofBalance account).maxValueLength := by
  rw [length_encode, StateKey.ofBalance, StateKey.maxValueLength_build _ _ (by decide)]
  decide

end BalanceRecord

namespace Schema

/-- Values of the right kinds are written one after the other. -/
theorem encodeFields_eq {fields : List Field} {values : List FieldValue}
    (kinds : values.map (·.kind) = fields.map (·.kind)) :
    encodeFields fields values = .ok (values.flatMap FieldValue.encode) := by
  induction fields generalizing values with
  | nil =>
      cases List.map_eq_nil_iff.mp kinds
      rfl
  | cons field fields ih =>
      obtain ⟨value, values, rfl, sameKind, restKinds⟩ := List.map_eq_cons_iff.mp kinds
      rw [encodeFields, if_pos sameKind, ih restKinds]
      rfl

end Schema

namespace DomainRecord

theorem encode_eq (record : DomainRecord) : record.encode = .ok record.owner.bytes := by
  simp [encode, Schema.encode, Schema.encodeFields, toValues, schema, FieldValue.kind,
    FieldValue.encode, Except.map]

theorem decode_bytes (owner : Address) : decode owner.bytes = .ok { owner } := by
  have whole : owner.bytes.take 33 = owner.bytes :=
    List.take_of_length_le (Nat.le_of_eq owner.length_eq)
  have values : schema.decode owner.bytes = .ok [.address owner] := by
    simp [Schema.decode, schema, Schema.width, Schema.widthOf, FieldKind.width, owner.length_eq,
      Schema.decodeFields, whole, FieldKind.decode?, Address.ofBytes_bytes, Except.toOption,
      Except.map]
  rw [decode, values]
  rfl

theorem length_le_max (domain : String) (owner : Address) :
    owner.bytes.length ≤ (StateKey.ofDomain domain).maxValueLength := by
  rw [owner.length_eq, StateKey.ofDomain, StateKey.maxValueLength_build _ _ (by decide)]
  decide

end DomainRecord

namespace TokenRecord

/-- The fields are no longer than a token record allows. -/
def Bounded (record : TokenRecord) : Prop :=
  record.name.length ≤ maxName ∧ record.symbol.length ≤ maxSymbol ∧
    record.metadata.length ≤ maxMetadata

theorem encodeSegment_of_le (field : String) {limit : Nat} {segment : Bytes}
    (within : segment.length ≤ limit) :
    encodeSegment field limit segment = .ok (Bytes.bigEndian 2 segment.length ++ segment) := by
  rw [encodeSegment, if_neg (Nat.not_lt.mpr within)]

/-- The layout of a record: the segments, each after its length, then the decimals and the owner. -/
def written (record : TokenRecord) : Bytes :=
  Bytes.bigEndian 2 record.name.length ++ (record.name ++
    (Bytes.bigEndian 2 record.symbol.length ++ (record.symbol ++
      (Bytes.bigEndian 2 record.metadata.length ++ (record.metadata ++
        ([record.decimals] ++ record.owner.bytes))))))

theorem length_written (record : TokenRecord) : record.written.length = record.width := by
  simp [written, width, record.owner.length_eq]
  omega

theorem encode_eq_written {record : TokenRecord} (bounded : record.Bounded) :
    record.encode = .ok record.written := by
  obtain ⟨name, symbol, metadata⟩ := bounded
  simp only [encode, encodeSegment_of_le _ name, encodeSegment_of_le _ symbol,
    encodeSegment_of_le _ metadata, bind, Except.bind, pure, Except.pure]
  simp [written]

theorem encode_of_bounded {record : TokenRecord} (bounded : record.Bounded) :
    ∃ bytes, record.encode = .ok bytes ∧ bytes.length = record.width :=
  ⟨record.written, encode_eq_written bounded, record.length_written⟩

theorem length_le_max (token : Address) {record : TokenRecord} (bounded : record.Bounded) :
    record.width ≤ (StateKey.ofToken token).maxValueLength := by
  obtain ⟨name, symbol, metadata⟩ := bounded
  rw [StateKey.ofToken, StateKey.maxValueLength_build _ _ (by decide)]
  simp only [width, maxName, maxSymbol, maxMetadata, StateKey.chunkSize] at *
  omega

theorem bounded_of_checkFields {name symbol metadata : Bytes} {decimals : UInt8}
    (passed : checkFields name symbol metadata decimals = .ok ()) (owner : Address) :
    Bounded { name, symbol, metadata, decimals, owner } := by
  have nameFits : ¬ name.length > maxName := by
    intro exceeds
    simp only [checkFields, exceeds, if_true] at passed
    split at passed <;> cases passed
  have symbolFits : ¬ symbol.length > maxSymbol := by
    intro exceeds
    simp only [checkFields, exceeds, nameFits, if_true, if_false] at passed
    repeat' split at passed
    all_goals cases passed
  have metadataFits : ¬ metadata.length > maxMetadata := by
    intro exceeds
    simp only [checkFields, exceeds, nameFits, symbolFits, if_true, if_false] at passed
    repeat' split at passed
    all_goals cases passed
  exact ⟨Nat.le_of_not_lt nameFits, Nat.le_of_not_lt symbolFits, Nat.le_of_not_lt metadataFits⟩

theorem bounded_ofPool (pool : Address) : (ofPool pool).Bounded := by
  have name : (Bytes.ofText "CFMM-Pair").length ≤ maxName := by decide
  have symbol : (Bytes.ofText "CFMMP").length ≤ maxSymbol := by decide
  have metadata : (Bytes.ofText "A liquidity pool").length ≤ maxMetadata := by decide
  exact ⟨name, symbol, metadata⟩

end TokenRecord

namespace PoolRecord

theorem encode_eq (record : PoolRecord) :
    ∃ bytes, record.encode = .ok bytes ∧ bytes.length = 165 := by
  refine ⟨record.toValues.flatMap FieldValue.encode, Schema.encodeFields_eq rfl, ?_⟩
  simp [toValues, FieldValue.kind, FieldKind.width]

theorem length_le_max (pool : Address) :
    165 ≤ (StateKey.ofPool pool).maxValueLength := by
  rw [StateKey.ofPool, StateKey.maxValueLength_build _ _ (by decide)]
  decide

end PoolRecord

end PoolLedger
