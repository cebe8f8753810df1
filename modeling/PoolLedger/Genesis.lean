import PoolLedger.Params
import PoolLedger.Program.Records

/-!
# Genesis

The first state of a ledger holds the record of the native coin and the
initial balances.  Their sum is the supply, which must fit into an amount, and
no account may be listed twice.
-/

namespace PoolLedger

/-- The initial balance of an account. -/
structure Allocation where
  address : Address
  balance : Amount
deriving DecidableEq

structure GenesisConfig where
  ledger : LedgerConfig := {}
  allocations : List Allocation := []
deriving DecidableEq

inductive GenesisError where
  | config (cause : ConfigError)
  | duplicateAllocation (address : Address)
  | supplyOverflow
  | state (fault : StateError)
deriving DecidableEq

namespace GenesisError

instance : CarriesFault GenesisError := ⟨state⟩

def message : GenesisError → String
  | config cause => "Invalid ledger config: " ++ cause.message
  | duplicateAllocation address => "Duplicate allocation for " ++ address.render
  | supplyOverflow => "Total supply overflows u64"
  | state fault => "State error: " ++ fault.message

end GenesisError

/-- A checked genesis. -/
structure Genesis where
  params : Params
  allocations : List Allocation
  supply : Amount
deriving DecidableEq

namespace Genesis

/-- Add up balances, starting from `total`. -/
def sumFrom (total : Amount) : List Allocation → Option Amount
  | [] => some total
  | allocation :: rest =>
      (Amount.add? total allocation.balance).bind fun total => sumFrom total rest

/-- The sum of all initial balances, if it fits. -/
def supply? (config : GenesisConfig) : Option Amount :=
  sumFrom 0 config.allocations

/-- The first address that repeats one in `seen` or an earlier one. -/
def firstRepeated? : List Address → List Allocation → Option Address
  | _, [] => none
  | seen, allocation :: rest =>
      if seen.contains allocation.address then some allocation.address
      else firstRepeated? (allocation.address :: seen) rest

/-- Check a configuration: the ledger, the supply, then the accounts. -/
def ofConfig (config : GenesisConfig) : Except GenesisError Genesis :=
  match config.ledger.params with
  | .error cause => .error (.config cause)
  | .ok params =>
      match supply? config with
      | none => .error .supplyOverflow
      | some supply =>
          match firstRepeated? [] config.allocations with
          | some address => .error (.duplicateAllocation address)
          | none => .ok { params, allocations := config.allocations, supply }

/-- Write the balances one after the other. -/
def writeAllocations : List Allocation → Program GenesisError Unit
  | [] => return ()
  | allocation :: rest => do
      Program.setBalance allocation.address allocation.balance
      writeAllocations rest

/-- Write the record of the native coin, then the balances. -/
def program (genesis : Genesis) : Program GenesisError Unit := do
  Program.setToken genesis.params.coin genesis.params.coinRecord
  writeAllocations genesis.allocations

/-- The first state of the ledger. -/
def initialStore (genesis : Genesis) : Except GenesisError Store :=
  match genesis.program.run .store .empty with
  | (.ok (), store) => .ok store
  | (.error error, _) => .error error

end Genesis

end PoolLedger
