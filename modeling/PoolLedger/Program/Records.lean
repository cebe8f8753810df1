import PoolLedger.Program
import PoolLedger.Record.Balance
import PoolLedger.Record.Domain
import PoolLedger.Record.Pool
import PoolLedger.Record.Token

/-!
# Programs that read and write records

Balances, tokens, domains and pools by their identifiers.  An account without
a stored balance has zero.  A stored value that is no record of its family is
a fault; the two existence tests do not look at the value.
-/

namespace PoolLedger

namespace Program

variable {ε α : Type} [CarriesFault ε]

def read (key : StateKey) (decode : Bytes → Except CodecError α) : Program ε (Option α) :=
  get key fun
    | none => done none
    | some bytes =>
        match decode bytes with
        | .ok record => done (some record)
        | .error cause => fail (CarriesFault.ofFault (.corruptValue key cause))

/-- Put a record under a key. -/
def write (key : StateKey) : Except CodecError Bytes → Program ε Unit
  | .ok bytes => insert key bytes (done ())
  | .error cause => fail (CarriesFault.ofFault (.corruptValue key cause))

def hasValue (key : StateKey) : Program ε Bool :=
  get key fun found => done found.isSome

def balance (account : Address) : Program ε UInt64 := do
  return (← read (.ofBalance account) BalanceRecord.decode).getD 0

def setBalance (account : Address) (amount : UInt64) : Program ε Unit :=
  insert (.ofBalance account) (BalanceRecord.encode amount) (done ())

def token (token : Address) : Program ε (Option TokenRecord) :=
  read (.ofToken token) TokenRecord.decode

def hasToken (token : Address) : Program ε Bool :=
  hasValue (.ofToken token)

def setToken (token : Address) (record : TokenRecord) : Program ε Unit :=
  write (.ofToken token) record.encode

def domainOwner (domain : String) : Program ε (Option Address) := do
  return (← read (.ofDomain domain) DomainRecord.decode).map (·.owner)

def setDomainOwner (domain : String) (owner : Address) : Program ε Unit :=
  write (.ofDomain domain) (DomainRecord.encode { owner })

def pool (pool : Address) : Program ε (Option PoolRecord) :=
  read (.ofPool pool) PoolRecord.decode

def hasPool (pool : Address) : Program ε Bool :=
  hasValue (.ofPool pool)

def setPool (pool : Address) (record : PoolRecord) : Program ε Unit :=
  write (.ofPool pool) record.encode

end Program

end PoolLedger
