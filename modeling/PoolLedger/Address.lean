import PoolLedger.Digest
import PoolLedger.Hex

/-!
# Addresses

An address is a kind byte followed by a 32-byte identifier.  It is shown as
`0x` and 66 lowercase hexadecimal digits, and read back from such a text in
either letter case, with or without the leading `0x`.
-/

namespace PoolLedger

/-- What an address names: an account under some signature scheme, or an entity of the ledger. -/
inductive AddressKind where
  | ed25519
  | secp256r1
  | bls
  | token
  | liquidityPool
  | liquidityPoolToken
deriving DecidableEq, Repr

namespace AddressKind

def toByte : AddressKind → UInt8
  | ed25519 => 0x00
  | secp256r1 => 0x01
  | bls => 0x02
  | token => 0x10
  | liquidityPool => 0x11
  | liquidityPoolToken => 0x12

def ofByte? : UInt8 → Option AddressKind
  | 0x00 => some ed25519
  | 0x01 => some secp256r1
  | 0x02 => some bls
  | 0x10 => some token
  | 0x11 => some liquidityPool
  | 0x12 => some liquidityPoolToken
  | _ => none

def isDerived : AddressKind → Bool
  | ed25519 | secp256r1 | bls => false
  | token | liquidityPool | liquidityPoolToken => true

def name : AddressKind → String
  | ed25519 => "Ed25519"
  | secp256r1 => "Secp256r1"
  | bls => "Bls"
  | token => "Token"
  | liquidityPool => "LiquidityPool"
  | liquidityPoolToken => "LiquidityPoolToken"

theorem ofByte?_toByte (kind : AddressKind) : ofByte? kind.toByte = some kind := by
  cases kind <;> rfl

end AddressKind

/-- A string of exactly 33 bytes: a kind byte and an identifier. -/
structure Address where
  bytes : Bytes
  length_eq : bytes.length = 33
deriving DecidableEq

inductive AddressError where
  | invalidHex (fault : Hex.Fault)
  | invalidLength (actual : Nat)
deriving DecidableEq, Repr

def AddressError.message : AddressError → String
  | invalidHex fault => "Invalid address hex: " ++ fault.message
  | invalidLength actual =>
      "Invalid address length: expected 33 bytes, got " ++ toString actual

namespace Address

def width : Nat := 33

/-- The address whose bytes are all zero, which stands for "no owner". -/
def zero : Address :=
  ⟨List.replicate 33 0, rfl⟩

instance : Inhabited Address := ⟨zero⟩

instance : Ord Address := ⟨fun first second => compare first.bytes second.bytes⟩

theorem eq_of_bytes_eq {first second : Address} (same : first.bytes = second.bytes) :
    first = second := by
  cases first; cases second; cases same; rfl

instance : Std.TransOrd Address where
  eq_swap {first second} := Std.OrientedCmp.eq_swap (a := first.bytes) (b := second.bytes)
  isLE_trans {first second third} firstLe secondLe :=
    Std.TransCmp.isLE_trans (a := first.bytes) (b := second.bytes) (c := third.bytes)
      firstLe secondLe

instance : Std.LawfulEqOrd Address where
  compare_self {address} := Std.ReflCmp.compare_self (a := address.bytes)
  eq_of_compare {_ _} same := eq_of_bytes_eq (Std.LawfulEqCmp.eq_of_compare same)

def ofBytes (bytes : Bytes) : Except AddressError Address :=
  if length_eq : bytes.length = 33 then .ok ⟨bytes, length_eq⟩
  else .error (.invalidLength bytes.length)

theorem ofBytes_bytes (address : Address) : ofBytes address.bytes = .ok address := by
  simp [ofBytes, address.length_eq]

theorem bytes_of_ofBytes {bytes : Bytes} {address : Address}
    (read : ofBytes bytes = .ok address) : address.bytes = bytes := by
  unfold ofBytes at read
  split at read
  · cases read; rfl
  · cases read

/-- The address of the given kind and identifier. -/
def create (kind : AddressKind) (identifier : Digest) : Address :=
  ⟨kind.toByte :: identifier.bytes, by simp [identifier.length_eq]⟩

def kindByte (address : Address) : UInt8 :=
  address.bytes.headD 0

def kind? (address : Address) : Option AddressKind :=
  AddressKind.ofByte? address.kindByte

/-- The 32 bytes after the kind byte. -/
def identifier (address : Address) : Bytes :=
  address.bytes.tail

def isZero (address : Address) : Bool :=
  address == zero

def toHex (address : Address) : String :=
  Hex.encode address.bytes

def render (address : Address) : String :=
  "0x" ++ address.toHex

def describe (address : Address) : String :=
  "Address(" ++ address.render ++ ")"

/-- The bytes of a text without one leading `0x`. -/
def dropTag : Bytes → Bytes
  | 48 :: 120 :: rest => rest
  | text => text

/-- The address that a text spells. -/
def parse (text : String) : Except AddressError Address :=
  match Hex.decode (dropTag (Bytes.ofText text)) with
  | .error fault => .error (.invalidHex fault)
  | .ok bytes => ofBytes bytes

end Address

end PoolLedger
