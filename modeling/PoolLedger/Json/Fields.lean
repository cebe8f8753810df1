import PoolLedger.Address
import PoolLedger.Json.Parser

/-!
# Reading values of known shape

A record is an object with its fields in any order, or an array of its fields
in their own order.  An object may hold other members besides, but no field
twice.  A variant is an object with one member whose key names it.
-/

namespace PoolLedger

namespace Json

/-- The text that a value is. -/
def toText? : Json → Option String
  | string text => text
  | _ => none

/-- The truth value that a value is. -/
def toBool? : Json → Option Bool
  | bool value => some value
  | _ => none

/-- The natural number up to `greatest` that a value is; minus zero is none. -/
def toNat? (greatest : Nat) : Json → Option Nat
  | integer false magnitude => if magnitude ≤ greatest then some magnitude else none
  | _ => none

/-- The 64-bit signed integer that a value is; minus zero is none. -/
def toInt64? : Json → Option Int64
  | integer false magnitude =>
      if magnitude < Int64.size / 2 then some (Int64.ofNat magnitude) else none
  | integer true magnitude =>
      if 0 < magnitude ∧ magnitude ≤ Int64.size / 2 then some (Int64.ofInt (-magnitude)) else none
  | _ => none

def toByte? (value : Json) : Option UInt8 :=
  (value.toNat? 255).map UInt8.ofNat

/-- The 64-bit word that a value is. -/
def toWord? (value : Json) : Option UInt64 :=
  (value.toNat? (UInt64.size - 1)).map UInt64.ofNat

/-- The count that a value is; counts are 64-bit words too. -/
def toCount? (value : Json) : Option Nat :=
  value.toNat? (UInt64.size - 1)

/-- The values of a list, each read by `item`. -/
def toList? {α : Type} (item : Json → Option α) : Json → Option (List α)
  | array items => items.mapM item
  | _ => none

/-- The byte string that a value is. -/
def toBytes? : Json → Option Bytes :=
  toList? toByte?

/-- The address that a value is. -/
def toAddress? (value : Json) : Option Address :=
  value.toText?.bind fun text => (Address.parse text).toOption

/-- A 64-bit word as a value. -/
def ofWord (value : UInt64) : Json :=
  ofNat value.toNat

/-- A byte as a value. -/
def ofByte (value : UInt8) : Json :=
  ofNat value.toNat

def ofBytes (bytes : Bytes) : Json :=
  array (bytes.map ofByte)

/-- An address as a value. -/
def ofAddress (address : Address) : Json :=
  ofText address.render

/-- The member of an object under a key, none if it is missing; nothing if it is there twice. -/
def member? (members : List (Option String × Json)) (key : String) : Option (Option Json) :=
  match members.filter fun member => member.1 == some key with
  | [] => some none
  | [member] => some (some member.2)
  | _ => none

/-- The values of the named fields of a record, none for a field that is missing. -/
def fields? (names : List String) : Json → Option (List (Option Json))
  | object members =>
      if members.all fun member => member.1.isSome then names.mapM (member? members) else none
  | array items =>
      if items.length ≤ names.length then
        some (items.map some ++ List.replicate (names.length - items.length) none)
      else none
  | _ => none

def required {α : Type} (read : Json → Option α) (field : Option Json) : Option α :=
  field.bind read

def optional {α : Type} (read : Json → Option α) (default : α) : Option Json → Option α
  | none => some default
  | some value => read value

def variant? : Json → Option (String × Json)
  | object [(some name, content)] => some (name, content)
  | _ => none

/-- The name of a variant without content: the name alone, or with null as its content. -/
def unit? : Json → Option String
  | string text => text
  | object [(some name, null)] => some name
  | _ => none

end Json

end PoolLedger
