import PoolLedger.Record.Schema

/-!
# Domain records

A claimed domain is stored as the address of its owner.
-/

namespace PoolLedger

structure DomainRecord where
  owner : Address
deriving DecidableEq

namespace DomainRecord

/-- The one field of a domain record. -/
def schema : Schema :=
  ⟨"domain", [⟨"owner", .address⟩]⟩

def toValues (record : DomainRecord) : List FieldValue :=
  [.address record.owner]

def reader : FieldReader DomainRecord := do
  return { owner := ← FieldReader.address }

/-- The record of a list of values; values after the last field are not looked at. -/
def ofValues (values : List FieldValue) : Except CodecError DomainRecord :=
  reader.run schema values

def encode (record : DomainRecord) : Except CodecError Bytes :=
  schema.encode record.toValues

def decode (bytes : Bytes) : Except CodecError DomainRecord := do
  ofValues (← schema.decode bytes)

end DomainRecord

end PoolLedger
