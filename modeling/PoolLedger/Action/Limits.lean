import PoolLedger.Action.Basic
import PoolLedger.Action.Error
import PoolLedger.Record.Token

/-!
# Limits on parameters

Bounds on memos, names, domains and token fields, the price of a domain, and
the timestamps at which an action may be included.
-/

namespace PoolLedger

namespace Action

def maxMemo : Nat := 256

def maxName : Nat := 256

def minDomain : Nat := 2

def maxDomain : Nat := 10

/-- The price of a domain of `length` bytes: each byte less costs ten times more.
Domains that cannot be claimed have no price. -/
def domainPrice? (length : Nat) : Option Amount :=
  if minDomain ≤ length ∧ length ≤ maxDomain then some (UInt64.pow 10 (11 - length)) else none

end Action

namespace TokenRecord

/-- Check the fields of a token, in order: name, symbol, metadata, decimals. -/
def checkFields (name symbol metadata : Bytes) (decimals : UInt8) : Except ActionError Unit :=
  if name.isEmpty then .error .emptyTokenName
  else if name.length > maxName then .error (.tokenNameTooLarge name.length maxName)
  else if symbol.isEmpty then .error .emptyTokenSymbol
  else if symbol.length > maxSymbol then .error (.tokenSymbolTooLarge symbol.length maxSymbol)
  else if metadata.length > maxMetadata then
    .error (.tokenMetadataTooLarge metadata.length maxMetadata)
  else if decimals > maxDecimals then .error (.tooManyDecimals decimals maxDecimals)
  else .ok ()

end TokenRecord

/-- A range of timestamps; a negative bound is open. -/
structure ValidityWindow where
  start : Int64
  stop : Int64
deriving DecidableEq

namespace ValidityWindow

def always : ValidityWindow := ⟨-1, -1⟩

def isAlways (window : ValidityWindow) : Bool :=
  window == always

/-- Whether a timestamp lies in the window. -/
def contains (window : ValidityWindow) (timestamp : Int64) : Bool :=
  (window.start < 0 || window.start ≤ timestamp) && (window.stop < 0 || timestamp ≤ window.stop)

end ValidityWindow

/-- When an action may be included: always. -/
def Action.validity (_ : Action) : ValidityWindow :=
  .always

end PoolLedger
