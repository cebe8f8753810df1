import PoolLedger.Json.Basic

/-!
# Reading JSON

The reader is strict: one value, blanks around tokens, and nothing else.  It
works on the list of characters; each reader returns what it found together
with the characters that follow.
-/

namespace PoolLedger

namespace Json

/-- Whether a character may stand between tokens. -/
def isBlank (char : Char) : Bool :=
  char = ' ' || char = '\t' || char = '\n' || char = '\r'

/-- The characters after leading blanks. -/
def skipBlanks (chars : List Char) : List Char :=
  chars.dropWhile isBlank

def isDigit (char : Char) : Bool :=
  '0' ≤ char && char ≤ '9'

def ofDigits (digits : List Char) : Nat :=
  digits.foldl (fun number digit => 10 * number + (digit.toNat - 48)) 0

def hexValue? (char : Char) : Option Nat :=
  if '0' ≤ char ∧ char ≤ '9' then some (char.toNat - 48)
  else if 'a' ≤ char ∧ char ≤ 'f' then some (char.toNat - 87)
  else if 'A' ≤ char ∧ char ≤ 'F' then some (char.toNat - 55)
  else none

/-- An element of a string: a character, or a 16-bit code unit given by an escape. -/
inductive StringUnit where
  | char (char : Char)
  | code (unit : Nat)
deriving DecidableEq, Repr

def shortEscape? : Char → Option Char
  | '"' => some '"'
  | '\\' => some '\\'
  | '/' => some '/'
  | 'b' => some '\x08'
  | 'f' => some '\x0c'
  | 'n' => some '\n'
  | 'r' => some '\r'
  | 't' => some '\t'
  | _ => none

def codeUnit? (first second third fourth : Char) : Option Nat := do
  let first ← hexValue? first
  let second ← hexValue? second
  let third ← hexValue? third
  let fourth ← hexValue? fourth
  return ((first * 16 + second) * 16 + third) * 16 + fourth

def readUnits : List Char → Option (List StringUnit × List Char)
  | '"' :: rest => some ([], rest)
  | '\\' :: 'u' :: first :: second :: third :: fourth :: rest => do
      let unit ← codeUnit? first second third fourth
      let (units, rest) ← readUnits rest
      return (.code unit :: units, rest)
  | '\\' :: letter :: rest => do
      let char ← shortEscape? letter
      let (units, rest) ← readUnits rest
      return (.char char :: units, rest)
  | char :: rest =>
      if char.toNat < 32 ∨ char = '\\' then none
      else do
        let (units, rest) ← readUnits rest
        return (.char char :: units, rest)
  | [] => none

/-- Whether a code unit is the first half of a surrogate pair. -/
def isHighSurrogate (unit : Nat) : Bool :=
  0xd800 ≤ unit && unit ≤ 0xdbff

/-- Whether a code unit is the second half of a surrogate pair. -/
def isLowSurrogate (unit : Nat) : Bool :=
  0xdc00 ≤ unit && unit ≤ 0xdfff

/-- The characters of a string, unless a surrogate stands alone. -/
def charsOfUnits : List StringUnit → Option (List Char)
  | [] => some []
  | .char char :: units => (charsOfUnits units).map (char :: ·)
  | .code high :: .code low :: units =>
      if isHighSurrogate high then
        if isLowSurrogate low then
          (charsOfUnits units).map
            (Char.ofNat (0x10000 + (high - 0xd800) * 0x400 + (low - 0xdc00)) :: ·)
        else none
      else if isLowSurrogate high then none
      else (charsOfUnits (.code low :: units)).map (Char.ofNat high :: ·)
  | .code unit :: units =>
      if isHighSurrogate unit || isLowSurrogate unit then none
      else (charsOfUnits units).map (Char.ofNat unit :: ·)

def readString (chars : List Char) : Option (Option String × List Char) := do
  let (units, rest) ← readUnits chars
  return ((charsOfUnits units).map String.ofList, rest)

/-- Read a fraction, if there is one, and say whether there was. -/
def readFraction : List Char → Option (Bool × List Char)
  | '.' :: rest =>
      if (rest.takeWhile isDigit).isEmpty then none else some (true, rest.dropWhile isDigit)
  | chars => some (false, chars)

def readExponentDigits (chars : List Char) : Option (Bool × List Char) :=
  if (chars.takeWhile isDigit).isEmpty then none else some (true, chars.dropWhile isDigit)

/-- Read an exponent, if there is one, and say whether there was. -/
def readExponent : List Char → Option (Bool × List Char)
  | 'e' :: '+' :: rest | 'e' :: '-' :: rest | 'E' :: '+' :: rest | 'E' :: '-' :: rest
  | 'e' :: rest | 'E' :: rest => readExponentDigits rest
  | chars => some (false, chars)

def readMagnitude (negative : Bool) (chars : List Char) : Option (Json × List Char) := do
  let whole := chars.takeWhile isDigit
  if whole.isEmpty || (whole.head? == some '0' && whole.length > 1) then none
  else
    let (fraction, rest) ← readFraction (chars.dropWhile isDigit)
    let (exponent, rest) ← readExponent rest
    return (if fraction || exponent then inexact else integer negative (ofDigits whole), rest)

def readNumber : List Char → Option (Json × List Char)
  | '-' :: rest => readMagnitude true rest
  | chars => readMagnitude false chars

mutual

/-- Read a value.  The fuel bounds the depth of the calls. -/
def readValue : Nat → List Char → Option (Json × List Char)
  | 0, _ => none
  | fuel + 1, chars =>
      match skipBlanks chars with
      | 'n' :: 'u' :: 'l' :: 'l' :: rest => some (null, rest)
      | 't' :: 'r' :: 'u' :: 'e' :: rest => some (bool true, rest)
      | 'f' :: 'a' :: 'l' :: 's' :: 'e' :: rest => some (bool false, rest)
      | '"' :: rest => (readString rest).map fun (text, rest) => (string text, rest)
      | '[' :: rest =>
          match skipBlanks rest with
          | ']' :: rest => some (array [], rest)
          | _ => (readItems fuel rest).map fun (items, rest) => (array items, rest)
      | '\x7b' :: rest =>
          match skipBlanks rest with
          | '\x7d' :: rest => some (object [], rest)
          | _ => (readMembers fuel rest).map fun (members, rest) => (object members, rest)
      | chars => readNumber chars

def readItems : Nat → List Char → Option (List Json × List Char)
  | 0, _ => none
  | fuel + 1, chars => do
      let (item, rest) ← readValue fuel chars
      match skipBlanks rest with
      | ',' :: rest =>
          let (items, rest) ← readItems fuel rest
          return (item :: items, rest)
      | ']' :: rest => return ([item], rest)
      | _ => none

def readMembers : Nat → List Char → Option (List (Option String × Json) × List Char)
  | 0, _ => none
  | fuel + 1, chars => do
      match skipBlanks chars with
      | '"' :: rest =>
          let (key, rest) ← readString rest
          match skipBlanks rest with
          | ':' :: rest =>
              let (value, rest) ← readValue fuel rest
              match skipBlanks rest with
              | ',' :: rest =>
                  let (members, rest) ← readMembers fuel rest
                  return ((key, value) :: members, rest)
              | '\x7d' :: rest => return ([(key, value)], rest)
              | _ => none
          | _ => none
      | _ => none

end

/-- The value that a text spells, blanks around it aside. -/
def parse (text : String) : Option Json :=
  let chars := text.toList
  match readValue (2 * chars.length + 2) chars with
  | some (value, rest) => if (skipBlanks rest).isEmpty then some value else none
  | none => none

end Json

end PoolLedger
