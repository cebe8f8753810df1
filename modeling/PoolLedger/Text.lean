import PoolLedger.Bytes
import PoolLedger.Checked

/-!
# UTF-8 text

A byte string that is not UTF-8 is refused with the index of the first
character that is ill-formed or cut off, and with the number of bytes that
already show it to be ill-formed.
-/

namespace PoolLedger

namespace Text

inductive Fault where
  /-- The `count` bytes from `index` start no character. -/
  | invalid (count index : Nat)
  /-- The last character, from `index`, is cut off. -/
  | incomplete (index : Nat)
deriving DecidableEq, Repr

def Fault.message : Fault → String
  | invalid count index =>
      "invalid utf-8 sequence of " ++ toString count ++ " bytes from index " ++ toString index
  | incomplete index => "incomplete utf-8 byte sequence from index " ++ toString index

/-- Whether a byte continues a character. -/
def isContinuation (byte : UInt8) : Bool :=
  128 ≤ byte && byte ≤ 191

/-- Whether a second byte may follow the first byte of a character of three bytes:
short forms and surrogates are excluded. -/
def mayFollowInThree (first second : UInt8) : Bool :=
  if first = 0xe0 then 0xa0 ≤ second && second ≤ 0xbf
  else if first = 0xed then 0x80 ≤ second && second ≤ 0x9f
  else isContinuation second

/-- Whether a second byte may follow the first byte of a character of four bytes:
short forms and code points from 0x110000 on are excluded. -/
def mayFollowInFour (first second : UInt8) : Bool :=
  if first = 0xf0 then 0x90 ≤ second && second ≤ 0xbf
  else if first = 0xf4 then 0x80 ≤ second && second ≤ 0x8f
  else isContinuation second

/-- The first fault in the bytes from `index` on, if there is one. -/
def firstFault? (index : Nat) : Bytes → Option Fault
  | [] => none
  | first :: rest =>
      if first < 128 then firstFault? (index + 1) rest
      else if 0xc2 ≤ first ∧ first ≤ 0xdf then
        match rest with
        | [] => some (.incomplete index)
        | second :: rest =>
            if isContinuation second then firstFault? (index + 2) rest
            else some (.invalid 1 index)
      else if 0xe0 ≤ first ∧ first ≤ 0xef then
        match rest with
        | [] => some (.incomplete index)
        | second :: rest =>
            if !mayFollowInThree first second then some (.invalid 1 index)
            else
              match rest with
              | [] => some (.incomplete index)
              | third :: rest =>
                  if isContinuation third then firstFault? (index + 3) rest
                  else some (.invalid 2 index)
      else if 0xf0 ≤ first ∧ first ≤ 0xf4 then
        match rest with
        | [] => some (.incomplete index)
        | second :: rest =>
            if !mayFollowInFour first second then some (.invalid 1 index)
            else
              match rest with
              | [] => some (.incomplete index)
              | third :: rest =>
                  if !isContinuation third then some (.invalid 2 index)
                  else
                    match rest with
                    | [] => some (.incomplete index)
                    | fourth :: rest =>
                        if isContinuation fourth then firstFault? (index + 4) rest
                        else some (.invalid 3 index)
      else some (.invalid 1 index)

/-- The text with the given UTF-8 bytes. -/
def ofBytes (bytes : Bytes) : Except Fault String :=
  match String.fromUTF8? ⟨bytes.toArray⟩ with
  | some text => .ok text
  | none => .error ((firstFault? 0 bytes).getD (.incomplete bytes.length))

end Text

end PoolLedger
