import PoolLedger.Record.Schema

/-!
# Liquidity pool records

A pool names its pricing model, its two tokens, its fee and who receives it,
its reserves, and the token given to liquidity providers.
-/

namespace PoolLedger

structure PoolRecord where
  functionId : UInt8
  tokenX : Address
  tokenY : Address
  fee : UInt64
  feeTo : Address
  reserveX : UInt64
  reserveY : UInt64
  lpToken : Address
  kLast : UInt64
deriving DecidableEq

namespace PoolRecord

/-- The fields of a pool record, 165 bytes together. -/
def schema : Schema :=
  ⟨"liquidity_pool",
    [⟨"function_id", .u8⟩, ⟨"token_x", .address⟩, ⟨"token_y", .address⟩, ⟨"fee", .u64⟩,
      ⟨"fee_to", .address⟩, ⟨"reserve_x", .u64⟩, ⟨"reserve_y", .u64⟩, ⟨"lp_token", .address⟩,
      ⟨"k_last", .u64⟩]⟩

/-- A new pool, which holds nothing yet. -/
def opened (functionId : UInt8) (tokenX tokenY : Address) (fee : UInt64)
    (feeTo lpToken : Address) : PoolRecord :=
  { functionId, tokenX, tokenY, fee, feeTo, reserveX := 0, reserveY := 0, lpToken, kLast := 0 }

def toValues (record : PoolRecord) : List FieldValue :=
  [.u8 record.functionId, .address record.tokenX, .address record.tokenY, .u64 record.fee,
    .address record.feeTo, .u64 record.reserveX, .u64 record.reserveY, .address record.lpToken,
    .u64 record.kLast]

def reader : FieldReader PoolRecord := do
  let functionId ← FieldReader.byte
  let tokenX ← FieldReader.address
  let tokenY ← FieldReader.address
  let fee ← FieldReader.word
  let feeTo ← FieldReader.address
  let reserveX ← FieldReader.word
  let reserveY ← FieldReader.word
  let lpToken ← FieldReader.address
  let kLast ← FieldReader.word
  return { functionId, tokenX, tokenY, fee, feeTo, reserveX, reserveY, lpToken, kLast }

/-- The record of a list of values; values after the last field are not looked at. -/
def ofValues (values : List FieldValue) : Except CodecError PoolRecord :=
  reader.run schema values

def encode (record : PoolRecord) : Except CodecError Bytes :=
  schema.encode record.toValues

def decode (bytes : Bytes) : Except CodecError PoolRecord := do
  ofValues (← schema.decode bytes)

end PoolRecord

end PoolLedger
