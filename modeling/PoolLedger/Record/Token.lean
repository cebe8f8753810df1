import PoolLedger.Address
import PoolLedger.Record.CodecError

/-!
# Token records

A token record holds three bounded byte strings, each written after its length
in two bytes, then the number of decimals and the owner.
-/

namespace PoolLedger

structure TokenRecord where
  name : Bytes
  symbol : Bytes
  metadata : Bytes
  decimals : UInt8
  owner : Address
deriving DecidableEq

namespace TokenRecord

def maxName : Nat := 64

def maxSymbol : Nat := 8

def maxMetadata : Nat := 256

/-- How many decimals a token may have. -/
def maxDecimals : UInt8 := 18

def ofPool (pool : Address) : TokenRecord where
  name := Bytes.ofText "CFMM-Pair"
  symbol := Bytes.ofText "CFMMP"
  metadata := Bytes.ofText "A liquidity pool"
  decimals := 0
  owner := pool

def width (record : TokenRecord) : Nat :=
  3 * 2 + record.name.length + record.symbol.length + record.metadata.length + 1 + 33

/-- A segment after its length in two bytes, if it is not too long. -/
def encodeSegment (field : String) (limit : Nat) (segment : Bytes) : Except CodecError Bytes :=
  if segment.length > limit then .error (.segmentTooLong field segment.length limit)
  else .ok (Bytes.bigEndian 2 segment.length ++ segment)

def encode (record : TokenRecord) : Except CodecError Bytes := do
  let name ← encodeSegment "name" maxName record.name
  let symbol ← encodeSegment "symbol" maxSymbol record.symbol
  let metadata ← encodeSegment "metadata" maxMetadata record.metadata
  return name ++ symbol ++ metadata ++ record.decimals :: record.owner.bytes

/-- What is left of a byte string, and how many bytes came before it. -/
structure Remainder where
  offset : Nat
  bytes : Bytes
deriving DecidableEq

/-- The next `count` bytes, and what is left after them. -/
def Remainder.take (count : Nat) (left : Remainder) : Except CodecError (Bytes × Remainder) :=
  if count ≤ left.bytes.length then
    .ok (left.bytes.take count, ⟨left.offset + count, left.bytes.drop count⟩)
  else .error (.truncated "token_info" left.offset count)

/-- The next segment, and what is left after it. -/
def Remainder.takeSegment (field : String) (limit : Nat) (left : Remainder) :
    Except CodecError (Bytes × Remainder) := do
  let (lengthBytes, left) ← left.take 2
  let length := Bytes.ofBigEndian lengthBytes
  if length > limit then .error (.segmentTooLong field length limit)
  else left.take length

def decode (bytes : Bytes) : Except CodecError TokenRecord := do
  let (name, left) ← Remainder.takeSegment "name" maxName ⟨0, bytes⟩
  let (symbol, left) ← left.takeSegment "symbol" maxSymbol
  let (metadata, left) ← left.takeSegment "metadata" maxMetadata
  let (decimals, left) ← left.take 1
  let (ownerBytes, left) ← left.take 33
  match Address.ofBytes ownerBytes with
  | .error _ => .error (.fieldMismatch "owner" .address)
  | .ok owner =>
      if left.bytes.isEmpty then
        return { name, symbol, metadata, decimals := decimals.headD 0, owner }
      else .error (.trailingBytes "token_info" left.bytes.length)

end TokenRecord

end PoolLedger
