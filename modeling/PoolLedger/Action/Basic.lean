import PoolLedger.Amount
import PoolLedger.Access
import PoolLedger.Derivation

/-!
# Actions

The seven actions with their parameters, the outputs they produce, and the
keys that each of them declares.
-/

namespace PoolLedger

inductive ActionKind where
  | transfer
  | hi
  | claimDomain
  | whois
  | createToken
  | getTokenAddress
  | createLiquidityPool
deriving DecidableEq, Repr

namespace ActionKind

def all : List ActionKind :=
  [transfer, hi, claimDomain, whois, createToken, getTokenAddress, createLiquidityPool]

def typeId : ActionKind → UInt8
  | transfer => 0
  | hi => 1
  | claimDomain => 2
  | whois => 3
  | createToken => 4
  | getTokenAddress => 5
  | createLiquidityPool => 6

def ofTypeId? : UInt8 → Option ActionKind
  | 0 => some transfer
  | 1 => some hi
  | 2 => some claimDomain
  | 3 => some whois
  | 4 => some createToken
  | 5 => some getTokenAddress
  | 6 => some createLiquidityPool
  | _ => none

def name : ActionKind → String
  | transfer => "transfer"
  | hi => "hi"
  | claimDomain => "claim_domain"
  | whois => "whois"
  | createToken => "create_token"
  | getTokenAddress => "get_token_address"
  | createLiquidityPool => "create_liquidity_pool"

/-- How many compute units an action of this kind takes. -/
def computeUnits : ActionKind → UInt64
  | transfer | hi | createToken | createLiquidityPool => 1
  | claimDomain => 2
  | whois | getTokenAddress => 0

/-- The type ids and names as they stand in diagnostics. -/
def table : String :=
  "\x7b" ++
    ", ".intercalate (all.map fun kind => toString kind.typeId.toNat ++ ": \"" ++ kind.name ++ "\"") ++
    "\x7d"

theorem ofTypeId?_typeId (kind : ActionKind) : ofTypeId? kind.typeId = some kind := by
  cases kind <;> rfl

end ActionKind

inductive Action where
  | transfer (recipient : Address) (value : Amount) (memo : Bytes)
  | hi (name : Bytes)
  | claimDomain (domain : String)
  /-- Look up the owner of a domain. -/
  | whois (domain : String)
  | createToken (name symbol metadata : Bytes) (decimals : UInt8)
  | getTokenAddress (name symbol metadata : Bytes)
  | createLiquidityPool (functionId : UInt8) (tokenX tokenY : Address) (fee : UInt64)
deriving DecidableEq

inductive Output where
  | transfer (senderBalance receiverBalance : Amount)
  | hi (greeting : Bytes) (balance : Amount)
  | claimDomain (amountPaid : Amount)
  | whois (found : Bool) (owner : Address)
  | createToken (address : Address)
  | getTokenAddress (address : Address) (registered : Bool)
  | createLiquidityPool (poolAddress poolTokenAddress : Address)
deriving DecidableEq

namespace Action

def kind : Action → ActionKind
  | transfer .. => .transfer
  | hi .. => .hi
  | claimDomain .. => .claimDomain
  | whois .. => .whois
  | createToken .. => .createToken
  | getTokenAddress .. => .getTokenAddress
  | createLiquidityPool .. => .createLiquidityPool

/-- The keys that an action declares when `actor` performs it. -/
def declared (actor : Address) : Action → Declaration
  | transfer recipient _ _ =>
      .ofKeys [(.ofBalance actor, .write), (.ofBalance recipient, .allocate)]
  | hi _ => .ofKeys [(.ofBalance actor, .read)]
  | claimDomain domain =>
      .ofKeys [(.ofBalance actor, .write), (.ofDomain domain, .allocate)]
  | whois domain => .ofKeys [(.ofDomain domain, .read)]
  | createToken name symbol metadata _ =>
      .ofKeys [(.ofToken (.ofToken name symbol metadata), .allocate)]
  | getTokenAddress name symbol metadata =>
      .ofKeys [(.ofToken (.ofToken name symbol metadata), .read)]
  | createLiquidityPool _ tokenX tokenY _ =>
      let pool := Address.ofPool tokenX tokenY
      .ofKeys
        [(.ofToken tokenX, .read), (.ofToken tokenY, .read), (.ofPool pool, .allocate),
          (.ofToken (.ofPoolToken pool), .allocate)]

end Action

end PoolLedger
