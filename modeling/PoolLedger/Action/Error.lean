import PoolLedger.Amount
import PoolLedger.Program

/-!
# Action errors

An action is refused because its parameters are malformed, because something
does or does not exist, or because the actor cannot pay.  A failed state access
is no refusal but a fault.
-/

namespace PoolLedger

/-- Coarse grouping of action errors. -/
inductive ErrorClass where
  /-- The parameters are malformed, whatever the state. -/
  | validation
  /-- Something exists that must not, or does not exist that must. -/
  | existence
  | resource
  /-- The state itself is at fault. -/
  | fatal
deriving DecidableEq, Repr

def ErrorClass.name : ErrorClass → String
  | validation => "Validation"
  | existence => "Existence"
  | resource => "Resource"
  | fatal => "Fatal"

inductive ActionError where
  | zeroTransfer
  | memoTooLarge (length limit : Nat)
  | nameTooLarge (length limit : Nat)
  | domainTooShort (length least : Nat)
  | domainTooLong (length limit : Nat)
  | emptyTokenName
  | tokenNameTooLarge (length limit : Nat)
  | emptyTokenSymbol
  | tokenSymbolTooLarge (length limit : Nat)
  | tokenMetadataTooLarge (length limit : Nat)
  | tooManyDecimals (decimals limit : UInt8)
  | invalidFee
  | domainAlreadyTaken (domain : String)
  | tokenAlreadyExists (token : Address)
  | tokenXDoesNotExist
  | tokenYDoesNotExist
  | functionDoesNotExist (functionId : UInt8)
  | poolAlreadyExists (pool : Address)
  | insufficientFunds (required available : Amount)
  | balanceOverflow
  | state (fault : StateError)
deriving DecidableEq

namespace ActionError

instance : CarriesFault ActionError := ⟨state⟩

def errorClass : ActionError → ErrorClass
  | zeroTransfer | memoTooLarge .. | nameTooLarge .. | domainTooShort .. | domainTooLong ..
  | emptyTokenName | tokenNameTooLarge .. | emptyTokenSymbol | tokenSymbolTooLarge ..
  | tokenMetadataTooLarge .. | tooManyDecimals .. | invalidFee => .validation
  | domainAlreadyTaken .. | tokenAlreadyExists .. | tokenXDoesNotExist | tokenYDoesNotExist
  | functionDoesNotExist .. | poolAlreadyExists .. => .existence
  | insufficientFunds .. | balanceOverflow => .resource
  | state .. => .fatal

def isFatal (error : ActionError) : Bool :=
  error.errorClass = .fatal

def name : ActionError → String
  | zeroTransfer => "ZeroTransfer"
  | memoTooLarge .. => "MemoTooLarge"
  | nameTooLarge .. => "NameTooLarge"
  | domainTooShort .. => "DomainTooShort"
  | domainTooLong .. => "DomainTooLong"
  | emptyTokenName => "EmptyTokenName"
  | tokenNameTooLarge .. => "TokenNameTooLarge"
  | emptyTokenSymbol => "EmptyTokenSymbol"
  | tokenSymbolTooLarge .. => "TokenSymbolTooLarge"
  | tokenMetadataTooLarge .. => "TokenMetadataTooLarge"
  | tooManyDecimals .. => "TooManyDecimals"
  | invalidFee => "InvalidFee"
  | domainAlreadyTaken .. => "DomainAlreadyTaken"
  | tokenAlreadyExists .. => "TokenAlreadyExists"
  | tokenXDoesNotExist => "TokenXDoesNotExist"
  | tokenYDoesNotExist => "TokenYDoesNotExist"
  | functionDoesNotExist .. => "FunctionDoesNotExist"
  | poolAlreadyExists .. => "LiquidityPoolAlreadyExists"
  | insufficientFunds .. => "InsufficientFunds"
  | balanceOverflow => "BalanceOverflow"
  | state .. => "State"

/-- A count of bytes that is over its limit. -/
def excess (length limit : Nat) : String :=
  toString length ++ " > " ++ toString limit ++ " bytes"

def message : ActionError → String
  | zeroTransfer => "Transfer value must be non-zero"
  | memoTooLarge length limit => "Memo is too large: " ++ excess length limit
  | nameTooLarge length limit => "Name is too large: " ++ excess length limit
  | domainTooShort length least =>
      "Domain is too short: " ++ toString length ++ " < " ++ toString least
  | domainTooLong length limit =>
      "Domain is too long: " ++ toString length ++ " > " ++ toString limit
  | emptyTokenName => "Token name must be non-empty"
  | tokenNameTooLarge length limit => "Token name is too large: " ++ excess length limit
  | emptyTokenSymbol => "Token symbol must be non-empty"
  | tokenSymbolTooLarge length limit => "Token symbol is too large: " ++ excess length limit
  | tokenMetadataTooLarge length limit => "Token metadata is too large: " ++ excess length limit
  | tooManyDecimals decimals limit =>
      "Token decimals out of range: " ++ toString decimals.toNat ++ " > " ++
        toString limit.toNat
  | invalidFee => "Pool fee must be non-zero"
  | domainAlreadyTaken domain => "Domain " ++ domain ++ " is already taken"
  | tokenAlreadyExists token => "Token " ++ token.render ++ " already exists"
  | tokenXDoesNotExist => "Token X does not exist"
  | tokenYDoesNotExist => "Token Y does not exist"
  | functionDoesNotExist functionId =>
      "Pricing model " ++ toString functionId.toNat ++ " does not exist"
  | poolAlreadyExists pool => "Liquidity pool " ++ pool.render ++ " already exists"
  | insufficientFunds required available =>
      "Insufficient funds: required " ++ toString required.toNat ++ ", available " ++
        toString available.toNat
  | balanceOverflow => "Balance overflow"
  | state fault => "State fault: " ++ fault.message

end ActionError

end PoolLedger
