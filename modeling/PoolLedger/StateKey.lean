import PoolLedger.Address

/-!
# State keys

A state key is a tag byte for the record family, the bytes that identify the
record within the family, and two bytes that say how many 64-byte chunks the
value may fill.  The tag separates the families and the chunk bound is fixed
per family, so a key determines its family and identifier.
-/

namespace PoolLedger

/-- A byte string that names one value of the ledger state. -/
structure StateKey where
  bytes : Bytes
deriving DecidableEq, Repr

/-- The family of records that a tag byte stands for. -/
inductive KeyKind where
  | balance
  | tokenInfo
  | liquidityPool
  | domain
  /-- A tag that is set aside and that no record uses. -/
  | reserved (tag : UInt8)
deriving DecidableEq, Repr

namespace KeyKind

def ofTag? : UInt8 → Option KeyKind
  | 0x00 => some balance
  | 0x01 => some (reserved 0x01)
  | 0x02 => some (reserved 0x02)
  | 0x03 => some (reserved 0x03)
  | 0x04 => some tokenInfo
  | 0x05 => some (reserved 0x05)
  | 0x06 => some liquidityPool
  | 0x07 => some domain
  | _ => none

def name : KeyKind → String
  | balance => "Balance"
  | tokenInfo => "TokenInfo"
  | liquidityPool => "LiquidityPool"
  | domain => "Domain"
  | reserved tag => "Reserved(" ++ toString tag.toNat ++ ")"

end KeyKind

namespace StateKey

instance : Inhabited StateKey := ⟨⟨[]⟩⟩

instance : Ord StateKey := ⟨fun first second => compare first.bytes second.bytes⟩

theorem eq_of_bytes_eq {first second : StateKey} (same : first.bytes = second.bytes) :
    first = second := by
  cases first; cases second; cases same; rfl

instance : Std.TransOrd StateKey where
  eq_swap {first second} := Std.OrientedCmp.eq_swap (a := first.bytes) (b := second.bytes)
  isLE_trans {first second third} firstLe secondLe :=
    Std.TransCmp.isLE_trans (a := first.bytes) (b := second.bytes) (c := third.bytes)
      firstLe secondLe

instance : Std.LawfulEqOrd StateKey where
  compare_self {key} := Std.ReflCmp.compare_self (a := key.bytes)
  eq_of_compare {_ _} same := eq_of_bytes_eq (Std.LawfulEqCmp.eq_of_compare same)

/-- How many bytes fill one chunk. -/
def chunkSize : Nat := 64

/-- The key with the given tag, identifying bytes and chunk bound. -/
def build (tag : UInt8) (segment : Bytes) (chunks : Nat) : StateKey :=
  ⟨tag :: (segment ++ Bytes.bigEndian 2 chunks)⟩

/-- The key of an account's balance, one chunk long. -/
def ofBalance (account : Address) : StateKey :=
  build 0x00 account.bytes 1

/-- The key of a token record, up to six chunks long. -/
def ofToken (token : Address) : StateKey :=
  build 0x04 token.bytes 6

/-- The key of a liquidity pool record, up to three chunks long. -/
def ofPool (pool : Address) : StateKey :=
  build 0x06 pool.bytes 3

/-- The key of a domain record, one chunk long. -/
def ofDomain (domain : String) : StateKey :=
  build 0x07 (Bytes.ofText domain) 1

def tag? (key : StateKey) : Option UInt8 :=
  key.bytes.head?

def kind? (key : StateKey) : Option KeyKind :=
  key.tag?.bind KeyKind.ofTag?

/-- The bytes between the tag and the chunk bound, none if the key is too short for both. -/
def segment (key : StateKey) : Bytes :=
  if key.bytes.length < 3 then [] else (key.bytes.drop 1).take (key.bytes.length - 3)

/-- How many chunks the value may fill; zero if the key is too short to say. -/
def maxChunks (key : StateKey) : Nat :=
  if key.bytes.length < 3 then 0
  else Bytes.ofBigEndian (key.bytes.drop (key.bytes.length - 2))

def maxValueLength (key : StateKey) : Nat :=
  key.maxChunks * chunkSize

/-- The identifying bytes as an address, if there are as many as an address has. -/
def address? (key : StateKey) : Option Address :=
  (Address.ofBytes key.segment).toOption

def render (key : StateKey) : String :=
  "0x" ++ Hex.encode key.bytes

def describe (key : StateKey) : String :=
  "StateKey(" ++ key.render ++ ")"

end StateKey

end PoolLedger
