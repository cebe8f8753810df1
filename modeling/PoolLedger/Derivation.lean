import PoolLedger.Address

/-!
# Content addresses

Tokens, pools and pool tokens have addresses computed from what defines them:
the kind byte and the digest of a canonical byte string.  A pool belongs to an
unordered pair of tokens.
-/

namespace PoolLedger

namespace Address

/-- The address of the given kind whose identifier is the digest of `payload`. -/
def derive (kind : AddressKind) (payload : Bytes) : Address :=
  create kind (Digest.ofMessage payload)

/-- A segment after its length in two bytes; lengths from 65535 on all read 65535. -/
def lengthTagged (segment : Bytes) : Bytes :=
  Bytes.bigEndian 2 (min segment.length 65535) ++ segment

/-- The bytes that define a token. -/
def tokenPayload (name symbol metadata : Bytes) : Bytes :=
  lengthTagged name ++ lengthTagged symbol ++ lengthTagged metadata

/-- The address of the token with the given name, symbol and metadata. -/
def ofToken (name symbol metadata : Bytes) : Address :=
  derive .token (tokenPayload name symbol metadata)

/-- Two addresses with the greater one first. -/
def canonicalOrder (first second : Address) : Address × Address :=
  if (compare first second).isGE then (first, second) else (second, first)

/-- The bytes that define a pool: its two tokens, the greater one first. -/
def poolPayload (tokenX tokenY : Address) : Bytes :=
  let ordered := canonicalOrder tokenX tokenY
  ordered.1.bytes ++ ordered.2.bytes

/-- The address of the pool that trades two tokens against each other. -/
def ofPool (tokenX tokenY : Address) : Address :=
  derive .liquidityPool (poolPayload tokenX tokenY)

/-- The address of the token that a pool gives to its liquidity providers. -/
def ofPoolToken (pool : Address) : Address :=
  derive .liquidityPoolToken pool.bytes

end Address

end PoolLedger
