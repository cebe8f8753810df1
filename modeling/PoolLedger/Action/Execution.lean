import PoolLedger.Action.Basic
import PoolLedger.Params
import PoolLedger.Program.Records

/-!
# Execution of actions

Each action is a program over the ledger state.  Its checks come in a fixed
order and all of them precede its first write.
-/

namespace PoolLedger

namespace Program

/-- Take `amount` from an account and answer what is left. -/
def debit (account : Address) (amount : Amount) : Program ActionError Amount := do
  let available ← balance account
  match Amount.sub? available amount with
  | none => fail (.insufficientFunds amount available)
  | some remaining =>
      setBalance account remaining
      return remaining

/-- Give `amount` to an account and answer its new balance. -/
def credit (account : Address) (amount : Amount) : Program ActionError Amount := do
  let current ← balance account
  match Amount.add? current amount with
  | none => fail .balanceOverflow
  | some updated =>
      setBalance account updated
      return updated

/-- Go on if a check on parameters passes. -/
def require : Except ActionError Unit → Program ActionError Unit
  | .ok () => done ()
  | .error error => fail error

end Program

namespace Action

open Program

/-- Move coins; a transfer to oneself changes nothing. -/
def runTransfer (actor recipient : Address) (value : Amount) (memo : Bytes) :
    Program ActionError Output := do
  check (value != 0) .zeroTransfer
  check (memo.length ≤ maxMemo) (.memoTooLarge memo.length maxMemo)
  let available ← balance actor
  match Amount.sub? available value with
  | none => fail (.insufficientFunds value available)
  | some remaining =>
      if actor = recipient then
        return .transfer available available
      else
        let received ← credit recipient value
        setBalance actor remaining
        return .transfer remaining received

def runHi (actor : Address) (name : Bytes) : Program ActionError Output := do
  check (name.length ≤ maxName) (.nameTooLarge name.length maxName)
  let amount ← balance actor
  return .hi (Bytes.ofText "Hi, " ++ name) amount

/-- Register a domain; the price is paid to nobody. -/
def runClaimDomain (actor : Address) (domain : String) : Program ActionError Output := do
  let length := (Bytes.ofText domain).length
  check (minDomain ≤ length) (.domainTooShort length minDomain)
  check (length ≤ maxDomain) (.domainTooLong length maxDomain)
  let owner ← domainOwner domain
  check owner.isNone (.domainAlreadyTaken domain)
  let price := (domainPrice? length).getD (.ofNat (UInt64.size - 1))
  let _ ← debit actor price
  setDomainOwner domain actor
  return .claimDomain price

def runWhois (domain : String) : Program ActionError Output := do
  let owner ← domainOwner domain
  return .whois owner.isSome (owner.getD .zero)

def runCreateToken (actor : Address) (name symbol metadata : Bytes) (decimals : UInt8) :
    Program ActionError Output := do
  require (TokenRecord.checkFields name symbol metadata decimals)
  let address := Address.ofToken name symbol metadata
  let registered ← hasToken address
  check (!registered) (.tokenAlreadyExists address)
  setToken address { name, symbol, metadata, decimals, owner := actor }
  return .createToken address

/-- Compute the address of a token, whether or not its fields are valid. -/
def runGetTokenAddress (name symbol metadata : Bytes) : Program ActionError Output := do
  let address := Address.ofToken name symbol metadata
  let registered ← hasToken address
  return .getTokenAddress address registered

/-- Open a pool together with its pool token; the actor receives the fees. -/
def runCreateLiquidityPool (params : Params) (actor : Address) (functionId : UInt8)
    (tokenX tokenY : Address) (fee : UInt64) : Program ActionError Output := do
  check (fee != 0) .invalidFee
  check (← hasToken tokenX) .tokenXDoesNotExist
  check (← hasToken tokenY) .tokenYDoesNotExist
  check (params.models.contains functionId) (.functionDoesNotExist functionId)
  let pool := Address.ofPool tokenX tokenY
  check (!(← hasPool pool)) (.poolAlreadyExists pool)
  let lpToken := Address.ofPoolToken pool
  setToken lpToken (.ofPool pool)
  setPool pool (.opened functionId tokenX tokenY fee actor lpToken)
  return .createLiquidityPool pool lpToken

/-- What an action does to the state when `actor` performs it. -/
def program (params : Params) (actor : Address) : Action → Program ActionError Output
  | transfer recipient value memo => runTransfer actor recipient value memo
  | hi name => runHi actor name
  | claimDomain domain => runClaimDomain actor domain
  | whois domain => runWhois domain
  | createToken name symbol metadata decimals =>
      runCreateToken actor name symbol metadata decimals
  | getTokenAddress name symbol metadata => runGetTokenAddress name symbol metadata
  | createLiquidityPool functionId tokenX tokenY fee =>
      runCreateLiquidityPool params actor functionId tokenX tokenY fee

end Action

end PoolLedger
