import PoolLedger.Address
import PoolLedger.Record.CodecError

/-!
# Fixed-width record schemas

A schema is a list of named, typed fields.  A record is written as the bytes
of its values in field order, integers with the most significant byte first,
and a byte string of the schema's length is read back field by field.
-/

namespace PoolLedger

structure Field where
  name : String
  kind : FieldKind
deriving DecidableEq, Repr

inductive FieldValue where
  | u8 (value : UInt8)
  | u64 (value : UInt64)
  | address (value : Address)
deriving DecidableEq

namespace FieldValue

def kind : FieldValue → FieldKind
  | u8 _ => .u8
  | u64 _ => .u64
  | address _ => .address

def encode : FieldValue → Bytes
  | u8 value => [value]
  | u64 value => Bytes.bigEndian 8 value.toNat
  | address value => value.bytes

@[simp]
theorem length_encode (value : FieldValue) : value.encode.length = value.kind.width := by
  cases value with
  | u8 value => rfl
  | u64 value => simp [encode, kind, FieldKind.width]
  | address value => simp [encode, kind, FieldKind.width, value.length_eq]

end FieldValue

/-- The value of a given type that a byte string spells. -/
def FieldKind.decode? : FieldKind → Bytes → Option FieldValue
  | .u8, [byte] => some (.u8 byte)
  | .u8, _ => none
  | .u64, bytes =>
      if bytes.length = 8 then some (.u64 (UInt64.ofNat (Bytes.ofBigEndian bytes))) else none
  | .address, bytes => (Address.ofBytes bytes).toOption.map .address

/-- A named list of fields that describes a fixed-width record. -/
structure Schema where
  name : String
  fields : List Field
deriving DecidableEq, Repr

namespace Schema

def widthOf (fields : List Field) : Nat :=
  (fields.map (·.kind.width)).foldl (· + ·) 0

def width (schema : Schema) : Nat :=
  widthOf schema.fields

/-- Where the first field of a given name starts in a list of fields. -/
def offsetIn (wanted : String) : List Field → Option Nat
  | [] => none
  | field :: rest =>
      if field.name = wanted then some 0 else (offsetIn wanted rest).map (field.kind.width + ·)

/-- Where the field of a given name starts. -/
def offset? (schema : Schema) (field : String) : Option Nat :=
  offsetIn field schema.fields

/-- Write values under a list of fields, refusing the first value of a wrong type. -/
def encodeFields : List Field → List FieldValue → Except CodecError Bytes
  | field :: fields, value :: values =>
      if value.kind = field.kind then (encodeFields fields values).map (value.encode ++ ·)
      else .error (.fieldMismatch field.name field.kind)
  | _, _ => .ok []

def encode (schema : Schema) (values : List FieldValue) : Except CodecError Bytes :=
  if values.length = schema.fields.length then encodeFields schema.fields values
  else .error (.invalidLength schema.name schema.fields.length values.length)

def decodeFields : List Field → Bytes → Except CodecError (List FieldValue)
  | [], _ => .ok []
  | field :: fields, bytes =>
      match field.kind.decode? (bytes.take field.kind.width) with
      | none => .error (.fieldMismatch field.name field.kind)
      | some value =>
          (decodeFields fields (bytes.drop field.kind.width)).map (value :: ·)

def decode (schema : Schema) (bytes : Bytes) : Except CodecError (List FieldValue) :=
  if bytes.length = schema.width then decodeFields schema.fields bytes
  else .error (.invalidLength schema.name schema.width bytes.length)

end Schema

/-- A position in the values of a record. -/
structure FieldCursor where
  schema : Schema
  values : List FieldValue
  position : Nat
deriving DecidableEq

namespace FieldCursor

def start (schema : Schema) (values : List FieldValue) : FieldCursor :=
  ⟨schema, values, 0⟩

/-- Read the next value if its field and the value itself are of the `wanted` type.
A value of another type is passed over; past the end the position stays. -/
def read (wanted : FieldKind) (cursor : FieldCursor) :
    Except CodecError FieldValue × FieldCursor :=
  match cursor.schema.fields[cursor.position]?, cursor.values[cursor.position]? with
  | some field, some value =>
      let next := { cursor with position := cursor.position + 1 }
      if field.kind = wanted ∧ value.kind = wanted then (.ok value, next)
      else (.error (.fieldMismatch field.name wanted), next)
  | _, _ => (.error (.truncated cursor.schema.name cursor.position 1), cursor)

end FieldCursor

/-- A computation that reads the values of a record in order. -/
abbrev FieldReader := ExceptT CodecError (StateM FieldCursor)

namespace FieldReader

def value (wanted : FieldKind) : FieldReader FieldValue :=
  FieldCursor.read wanted

def byte : FieldReader UInt8 := do
  match ← value .u8 with
  | .u8 byte => return byte
  | _ => return 0

def word : FieldReader UInt64 := do
  match ← value .u64 with
  | .u64 word => return word
  | _ => return 0

def address : FieldReader Address := do
  match ← value .address with
  | .address address => return address
  | _ => return .zero

def run {α : Type} (reader : FieldReader α) (schema : Schema) (values : List FieldValue) :
    Except CodecError α :=
  (StateT.run (ExceptT.run reader) (.start schema values)).1

end FieldReader

end PoolLedger
