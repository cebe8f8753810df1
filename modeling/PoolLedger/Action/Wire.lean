import PoolLedger.Action.Basic
import PoolLedger.Text

/-!
# Wire form of actions

An action travels as its type id followed by its parameters in order: integers
in fixed width with the least significant byte first, and byte strings, texts
and addresses after their length in eight bytes.  Nothing may follow the last
parameter, so every action has one wire form.
-/

namespace PoolLedger

namespace Wire

inductive Fault where
  /-- An integer, or a byte of a byte string, is missing. -/
  | endOfInput
  /-- A text or an address is longer than what is left. -/
  | shortInput
  /-- An address has `actual` bytes. -/
  | addressLength (actual : Nat)
  | notText (fault : Text.Fault)
  /-- Bytes follow the last parameter. -/
  | leftover
deriving DecidableEq, Repr

def Fault.message : Fault → String
  | endOfInput => "io error: unexpected end of file"
  | shortInput => "io error: "
  | addressLength actual => (AddressError.invalidLength actual).message
  | notText fault => "string is not valid utf8: " ++ fault.message
  | leftover => "Slice had bytes remaining after deserialization"

/-- Reads a value from the front of a byte string and leaves the rest. -/
abbrev Reader := StateT Bytes (Except Fault)

/-- Read `count` bytes; fail with `fault` if there are not as many. -/
def take (count : Nat) (fault : Fault) : Reader Bytes := fun bytes =>
  if count ≤ bytes.length then .ok (bytes.take count, bytes.drop count) else .error fault

def readByte : Reader UInt8 := do
  return (← take 1 .endOfInput).headD 0

def readWord : Reader UInt64 := do
  return UInt64.ofNat (Bytes.ofLittleEndian (← take 8 .endOfInput))

def readBytes : Reader Bytes := do
  take (← readWord).toNat .endOfInput

def readText : Reader String := do
  match Text.ofBytes (← take (← readWord).toNat .shortInput) with
  | .ok text => return text
  | .error fault => throw (.notText fault)

def readAddress : Reader Address := do
  let bytes ← take (← readWord).toNat .shortInput
  match Address.ofBytes bytes with
  | .ok address => return address
  | .error _ => throw (.addressLength bytes.length)

def word (value : UInt64) : Bytes :=
  Bytes.littleEndian 8 value.toNat

/-- A byte string after its length. -/
def counted (bytes : Bytes) : Bytes :=
  Bytes.littleEndian 8 bytes.length ++ bytes

end Wire

inductive WireError where
  | empty
  /-- No action has this type id. -/
  | unknownActionType (typeId : UInt8)
  | malformed (kind : ActionKind) (fault : Wire.Fault)
deriving DecidableEq, Repr

def WireError.name : WireError → String
  | empty => "Empty"
  | unknownActionType .. => "UnknownActionType"
  | malformed .. => "Malformed"

def WireError.message : WireError → String
  | empty => "Empty action payload"
  | unknownActionType typeId => "Unknown action type: " ++ toString typeId.toNat
  | malformed kind fault => "Malformed " ++ kind.name ++ " payload: " ++ fault.message

namespace Action

open Wire

def encodeParameters : Action → Bytes
  | transfer recipient value memo => counted recipient.bytes ++ word value ++ counted memo
  | hi name => counted name
  | claimDomain domain | whois domain => counted (Bytes.ofText domain)
  | createToken name symbol metadata decimals =>
      counted name ++ counted symbol ++ counted metadata ++ [decimals]
  | getTokenAddress name symbol metadata => counted name ++ counted symbol ++ counted metadata
  | createLiquidityPool functionId tokenX tokenY fee =>
      functionId :: (counted tokenX.bytes ++ counted tokenY.bytes ++ word fee)

def encode (action : Action) : Bytes :=
  action.kind.typeId :: action.encodeParameters

def readParameters : ActionKind → Reader Action
  | .transfer => return .transfer (← readAddress) (← readWord) (← readBytes)
  | .hi => return .hi (← readBytes)
  | .claimDomain => return .claimDomain (← readText)
  | .whois => return .whois (← readText)
  | .createToken =>
      return .createToken (← readBytes) (← readBytes) (← readBytes) (← readByte)
  | .getTokenAddress => return .getTokenAddress (← readBytes) (← readBytes) (← readBytes)
  | .createLiquidityPool =>
      return .createLiquidityPool (← readByte) (← readAddress) (← readAddress) (← readWord)

def decode : Bytes → Except WireError Action
  | [] => .error .empty
  | typeId :: payload =>
      match ActionKind.ofTypeId? typeId with
      | none => .error (.unknownActionType typeId)
      | some kind =>
          match readParameters kind payload with
          | .error fault => .error (.malformed kind fault)
          | .ok (action, []) => .ok action
          | .ok (_, _ :: _) => .error (.malformed kind .leftover)

end Action

end PoolLedger
