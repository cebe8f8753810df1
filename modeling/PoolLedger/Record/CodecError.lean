/-!
# Codec errors

Why a record cannot be written, or why a byte string is not a record.
-/

namespace PoolLedger

inductive FieldKind where
  | u8
  | u64
  | address
deriving DecidableEq, Repr

namespace FieldKind

def width : FieldKind → Nat
  | u8 => 1
  | u64 => 8
  | address => 33

def label : FieldKind → String
  | u8 => "u8"
  | u64 => "u64"
  | address => "address"

def name : FieldKind → String
  | u8 => "U8"
  | u64 => "U64"
  | address => "Address"

end FieldKind

inductive CodecError where
  | invalidLength (record : String) (expected actual : Nat)
  /-- The bytes end before the `needed` bytes at `offset`. -/
  | truncated (record : String) (offset needed : Nat)
  /-- `extra` bytes follow the record. -/
  | trailingBytes (record : String) (extra : Nat)
  /-- The value of `field` is not of the `expected` type. -/
  | fieldMismatch (field : String) (expected : FieldKind)
  /-- The segment `field` has `length` bytes, more than `limit`. -/
  | segmentTooLong (field : String) (length limit : Nat)
deriving DecidableEq, Repr

def CodecError.name : CodecError → String
  | invalidLength .. => "InvalidLength"
  | truncated .. => "Truncated"
  | trailingBytes .. => "TrailingBytes"
  | fieldMismatch .. => "FieldMismatch"
  | segmentTooLong .. => "SegmentTooLong"

def CodecError.message : CodecError → String
  | invalidLength record expected actual =>
      "Invalid length for " ++ record ++ ": expected " ++ toString expected ++ " bytes, got " ++
        toString actual
  | truncated record offset needed =>
      "Truncated " ++ record ++ ": needed " ++ toString needed ++ " bytes at offset " ++
        toString offset
  | trailingBytes record extra =>
      "Trailing bytes in " ++ record ++ ": " ++ toString extra ++ " unread"
  | fieldMismatch field expected =>
      "Field " ++ field ++ " does not match schema: expected " ++ expected.label
  | segmentTooLong field length limit =>
      "Segment " ++ field ++ " too long: " ++ toString length ++ " > " ++ toString limit

end PoolLedger
