import PoolLedger.Proofs.TokenCodec

/-!
# What a key names

The key of a record tells the family of the record and the bytes that identify
it there, so it is the key of no other record.  It leaves room for every value
that is written for its family.
-/

namespace PoolLedger

/-- A record of the ledger: its family, and what identifies it there. -/
inductive RecordName where
  | balance (account : Address)
  | token (address : Address)
  | pool (address : Address)
  | domain (text : String)
deriving DecidableEq

/-- A byte string that is written for some record of a family. -/
inductive KeyKind.Writes : KeyKind → Bytes → Prop where
  | balance (amount : UInt64) : Writes .balance (BalanceRecord.encode amount)
  | token {record : TokenRecord} {bytes : Bytes} (written : record.encode = .ok bytes) :
      Writes .tokenInfo bytes
  | pool {record : PoolRecord} {bytes : Bytes} (written : record.encode = .ok bytes) :
      Writes .liquidityPool bytes
  | domain {record : DomainRecord} {bytes : Bytes} (written : record.encode = .ok bytes) :
      Writes .domain bytes

namespace RecordName

def key : RecordName → StateKey
  | balance account => .ofBalance account
  | token address => .ofToken address
  | pool address => .ofPool address
  | domain text => .ofDomain text

def kind : RecordName → KeyKind
  | balance _ => .balance
  | token _ => .tokenInfo
  | pool _ => .liquidityPool
  | domain _ => .domain

/-- The bytes that identify the record in its family. -/
def identifier : RecordName → Bytes
  | balance account => account.bytes
  | token address => address.bytes
  | pool address => address.bytes
  | domain text => Bytes.ofText text

/-- How many chunks the records of the family may fill. -/
def chunks : RecordName → Nat
  | balance _ => 1
  | token _ => 6
  | pool _ => 3
  | domain _ => 1

section Key

variable (name : RecordName)

theorem kind?_key : name.key.kind? = some name.kind := by
  cases name <;> rfl

theorem segment_key : name.key.segment = name.identifier := by
  cases name <;> exact StateKey.segment_build _ _ _

theorem maxChunks_key : name.key.maxChunks = name.chunks := by
  cases name <;> exact StateKey.maxChunks_build _ _ (by decide)

end Key

theorem eq_of_identifier {first second : RecordName} (sameKind : first.kind = second.kind)
    (sameIdentifier : first.identifier = second.identifier) : first = second :=
  match first, second, sameKind with
  | balance _, balance _, _ => congrArg balance (Address.eq_of_bytes_eq sameIdentifier)
  | token _, token _, _ => congrArg token (Address.eq_of_bytes_eq sameIdentifier)
  | pool _, pool _, _ => congrArg pool (Address.eq_of_bytes_eq sameIdentifier)
  | domain _, domain _, _ => congrArg domain (Bytes.ofText_inj.mp sameIdentifier)

/-- A key names one record, because it shows the family and the identifier. -/
theorem key_injective : Function.Injective key := by
  intro first second sameKey
  have sameKind : first.kind = second.kind := by
    apply Option.some.inj
    rw [← kind?_key, ← kind?_key, sameKey]
  have sameIdentifier : first.identifier = second.identifier := by
    rw [← segment_key, ← segment_key, sameKey]
  exact eq_of_identifier sameKind sameIdentifier

/-- What is written for a record fits under the keys of its family. -/
theorem length_le_of_writes {name : RecordName} {value : Bytes} (writes : name.kind.Writes value) :
    value.length ≤ name.key.maxValueLength := by
  cases name with
  | balance account =>
      cases writes with
      | balance amount => exact BalanceRecord.length_le_max account amount
  | token address =>
      cases writes with
      | token written =>
          obtain ⟨bounded, rfl⟩ := TokenRecord.encode_eq_ok_iff.mp written
          rw [TokenRecord.length_written]
          exact TokenRecord.length_le_max address bounded
  | pool address =>
      cases writes with
      | pool written =>
          obtain ⟨bytes, encoded, whole⟩ := PoolRecord.encode_eq _
          cases encoded.symm.trans written
          rw [whole]
          exact PoolRecord.length_le_max address
  | domain text =>
      cases writes with
      | @domain record _ written =>
          cases record.encode_eq.symm.trans written
          exact DomainRecord.length_le_max text record.owner

/-- The keys of two records are equal exactly if the records are of one family and have one
identifier there, whatever the domains.  A key shows the family, the identifier and the number of
chunks, and these have room for whatever is written for a record of the family. -/
theorem keys_name_records :
    (∀ first second : RecordName, first.key = second.key ↔ first = second) ∧
      ∀ name : RecordName, name.key.kind? = some name.kind ∧
        name.key.segment = name.identifier ∧ name.key.maxChunks = name.chunks ∧
        ∀ value, name.kind.Writes value → value.length ≤ name.key.maxValueLength := by
  refine ⟨fun first second => key_injective.eq_iff, fun name => ?_⟩
  exact ⟨name.kind?_key, name.segment_key, name.maxChunks_key, fun _ => length_le_of_writes⟩

end RecordName

/-- An account whose bytes can be read as a text. -/
def spelledAccount : Address :=
  ⟨List.replicate 33 120, List.length_replicate⟩

/-- A token none of whose fields can be longer. -/
def longestToken : TokenRecord where
  name := List.replicate 64 1
  symbol := List.replicate 8 2
  metadata := List.replicate 256 3
  decimals := 18
  owner := spelledAccount

/-- A domain that is spelled like an address has the identifier of the account there, and another
key.  The key of a token leaves room for the longest of their records. -/
theorem RecordName.keys_of_one_identifier :
    (domain "xxxxxxxxxxxxxxxxxxxxxxxxxxxxxxxxx").identifier =
        (balance spelledAccount).identifier ∧
      (domain "xxxxxxxxxxxxxxxxxxxxxxxxxxxxxxxxx").key ≠ (balance spelledAccount).key ∧
      (domain "ab").key ≠ (domain "ab\u0000\u0001").key ∧
      ∃ value, longestToken.encode = .ok value ∧ value.length = 368 ∧
        value.length ≤ (token spelledAccount).key.maxValueLength := by
  obtain ⟨identify, describe⟩ := keys_name_records
  have bounded : longestToken.Bounded := by
    unfold TokenRecord.Bounded
    decide +kernel
  have written := TokenRecord.encode_eq_written bounded
  have width : longestToken.width = 368 := by decide +kernel
  obtain ⟨_, _, _, fits⟩ := describe (token spelledAccount)
  refine ⟨by decide +kernel, fun same => ?_, fun same => ?_, longestToken.written, written,
    longestToken.length_written.trans width, fits _ (.token written)⟩
  · exact absurd ((identify _ _).mp same) (by decide)
  · exact absurd ((identify _ _).mp same) (by decide)

end PoolLedger
