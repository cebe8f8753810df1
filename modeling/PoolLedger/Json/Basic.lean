import PoolLedger.Hex

/-!
# JSON values and their compact text

A value is written without blanks, object members in the order given.  Texts
keep every character that may stand in a string; quotes, backslashes and
control characters are escaped.
-/

namespace PoolLedger

/-- A JSON value.  Numbers are told apart only as far as the ledger reads them, and a string
whose escapes leave a surrogate unpaired denotes no text. -/
inductive Json where
  | null
  | bool (value : Bool)
  /-- A number without fraction and exponent; `negative` records a minus sign. -/
  | integer (negative : Bool) (magnitude : Nat)
  /-- A number with a fraction or an exponent. -/
  | inexact
  | string (text : Option String)
  | array (items : List Json)
  | object (members : List (Option String × Json))

namespace Json

/-- A text as a value. -/
def ofText (text : String) : Json :=
  string (some text)

/-- A natural number as a value. -/
def ofNat (number : Nat) : Json :=
  integer false number

/-- An integer as a value. -/
def ofInt (number : Int) : Json :=
  integer (number < 0) number.natAbs

/-- An object with the given members. -/
def ofFields (fields : List (String × Json)) : Json :=
  object (fields.map fun field => (some field.1, field.2))

/-- The decimal digits of a number. -/
def digits (number : Nat) : List Char :=
  Nat.toDigits 10 number

/-- How a character stands in a string. -/
def escape (char : Char) : List Char :=
  if char = '"' then ['\\', '"']
  else if char = '\\' then ['\\', '\\']
  else if char = '\x08' then ['\\', 'b']
  else if char = '\t' then ['\\', 't']
  else if char = '\n' then ['\\', 'n']
  else if char = '\x0c' then ['\\', 'f']
  else if char = '\r' then ['\\', 'r']
  else if char.toNat < 32 then
    ['\\', 'u', '0', '0', Hex.digit (char.toNat / 16), Hex.digit (char.toNat % 16)]
  else [char]

/-- The text of a string.  One that denotes no text is shown as an unpaired surrogate. -/
def renderString : Option String → List Char
  | some text => '"' :: (text.toList.flatMap escape ++ ['"'])
  | none => ['"', '\\', 'u', 'd', '8', '0', '0', '"']

mutual

def renderChars : Json → List Char
  | null => ['n', 'u', 'l', 'l']
  | bool true => ['t', 'r', 'u', 'e']
  | bool false => ['f', 'a', 'l', 's', 'e']
  | integer negative magnitude => (if negative then ['-'] else []) ++ digits magnitude
  | inexact => ['0', '.', '0']
  | string text => renderString text
  | array [] => ['[', ']']
  | array (item :: items) => '[' :: (renderChars item ++ renderItems items)
  | object [] => ['\x7b', '\x7d']
  | object ((key, value) :: members) =>
      '\x7b' :: (renderString key ++ ':' :: (renderChars value ++ renderMembers members))

def renderItems : List Json → List Char
  | [] => [']']
  | item :: items => ',' :: (renderChars item ++ renderItems items)

def renderMembers : List (Option String × Json) → List Char
  | [] => ['\x7d']
  | (key, value) :: members =>
      ',' :: (renderString key ++ ':' :: (renderChars value ++ renderMembers members))

end

/-- The compact text of a value. -/
def render (value : Json) : String :=
  String.ofList value.renderChars

end Json

end PoolLedger
