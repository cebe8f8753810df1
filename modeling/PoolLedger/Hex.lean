import PoolLedger.Bytes
import PoolLedger.Checked

/-!
# Hexadecimal text

Bytes are written as two lowercase digits each.  Reading accepts both letter
cases.  A text of odd length is refused before its digits are looked at;
otherwise the first byte that is no digit is reported with its position.
-/

namespace PoolLedger

namespace Hex

inductive Fault where
  /-- The text has an odd number of bytes. -/
  | oddLength
  /-- The byte at `position` is not a hexadecimal digit. -/
  | badDigit (byte : UInt8) (position : Nat)
deriving DecidableEq, Repr

/-- The lowercase digit of a number below sixteen. -/
def digit (value : Nat) : Char :=
  if value < 10 then Char.ofNat (48 + value) else Char.ofNat (87 + value)

/-- The two lowercase digits of a byte. -/
def digitsOfByte (byte : UInt8) : List Char :=
  [digit (byte.toNat / 16), digit (byte.toNat % 16)]

/-- The digits of a byte string. -/
def digits (bytes : Bytes) : List Char :=
  bytes.flatMap digitsOfByte

/-- The lowercase hexadecimal text of a byte string. -/
def encode (bytes : Bytes) : String :=
  String.ofList (digits bytes)

/-- The value of an ASCII hexadecimal digit of either case. -/
def digitValue? (byte : UInt8) : Option Nat :=
  if 48 ≤ byte ∧ byte ≤ 57 then some (byte.toNat - 48)
  else if 97 ≤ byte ∧ byte ≤ 102 then some (byte.toNat - 87)
  else if 65 ≤ byte ∧ byte ≤ 70 then some (byte.toNat - 55)
  else none

/-- Read pairs of digits, the first of which stands at `position`. -/
def decodePairs (position : Nat) : Bytes → Except Fault Bytes
  | high :: low :: rest =>
      match digitValue? high, digitValue? low with
      | none, _ => .error (.badDigit high position)
      | some _, none => .error (.badDigit low (position + 1))
      | some upper, some lower =>
          (decodePairs (position + 2) rest).map (UInt8.ofNat (16 * upper + lower) :: ·)
  | _ => .ok []

/-- The byte string whose hexadecimal text has the given bytes. -/
def decode (text : Bytes) : Except Fault Bytes :=
  if text.length % 2 = 1 then .error .oddLength else decodePairs 0 text

/-- A character between single quotes, with an escape wherever it would not show. -/
def quoteChar (char : Char) : String :=
  let shown : List Char :=
    if char = '\x00' then ['\\', '0']
    else if char = '\t' then ['\\', 't']
    else if char = '\n' then ['\\', 'n']
    else if char = '\r' then ['\\', 'r']
    else if char = '\'' then ['\\', '\'']
    else if char = '\\' then ['\\', '\\']
    else if char.toNat < 32 ∨ (127 ≤ char.toNat ∧ char.toNat ≤ 160) ∨ char.toNat = 173 then
      ['\\', 'u', '\x7b'] ++ Nat.toDigits 16 char.toNat ++ ['\x7d']
    else [char]
  String.ofList (['\''] ++ shown ++ ['\''])

/-- The wording of a fault; a stray byte is shown as the character of that code point. -/
def Fault.message : Fault → String
  | .oddLength => "Odd number of digits"
  | .badDigit byte position =>
      "Invalid character " ++ quoteChar (Char.ofNat byte.toNat) ++ " at position " ++
        toString position

end Hex

end PoolLedger
