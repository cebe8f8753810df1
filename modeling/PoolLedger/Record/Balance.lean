import PoolLedger.Record.CodecError
import PoolLedger.Bytes

/-!
# Balance records

A balance is stored as eight bytes, most significant byte first.
-/

namespace PoolLedger

namespace BalanceRecord

def encode (amount : UInt64) : Bytes :=
  Bytes.bigEndian 8 amount.toNat

/-- The balance that a byte string spells. -/
def decode (bytes : Bytes) : Except CodecError UInt64 :=
  if bytes.length = 8 then .ok (UInt64.ofNat (Bytes.ofBigEndian bytes))
  else .error (.invalidLength "balance" 8 bytes.length)

end BalanceRecord

end PoolLedger
