import PoolLedger.Action.Limits
import PoolLedger.Derivation

/-!
# Ledger configuration

What an operator chooses: the native coin and the pricing models that pools
may name.  A valid configuration yields the parameters of the ledger.
-/

namespace PoolLedger

/-- A pricing model that pools may name. -/
structure PricingModel where
  id : UInt8
  label : String
deriving DecidableEq, Repr

structure LedgerConfig where
  coinName : String := "CFMMVM"
  coinSymbol : String := "CVM"
  coinMetadata : String := "A constant-function market-maker VM implementation"
  coinDecimals : UInt8 := 9
  pricingModels : List PricingModel := [⟨0, "constant-sum"⟩, ⟨1, "constant-product"⟩]
deriving DecidableEq, Repr

instance : Inhabited LedgerConfig := ⟨{}⟩

/-- The labels of the pricing models by their ids. -/
abbrev PricingModels := SortedMap UInt8 String

/-- The parameters that every action is executed with. -/
structure Params where
  coin : Address
  coinRecord : TokenRecord
  models : PricingModels
deriving DecidableEq

inductive ConfigError where
  | invalidCoin (cause : ActionError)
  | duplicatePricingModel (id : UInt8)
deriving DecidableEq

def ConfigError.message : ConfigError → String
  | invalidCoin cause => "Invalid native coin: " ++ cause.message
  | duplicatePricingModel id => "Duplicate pricing model id: " ++ toString id.toNat

namespace LedgerConfig

/-- Collect the models, refusing the first id that repeats an earlier one. -/
def collectModels : List PricingModel → PricingModels → Except ConfigError PricingModels
  | [], models => .ok models
  | model :: rest, models =>
      if models.contains model.id then .error (.duplicatePricingModel model.id)
      else collectModels rest (models.insert model.id model.label)

/-- The record of the native coin, which nobody owns. -/
def coinRecord (config : LedgerConfig) : TokenRecord where
  name := Bytes.ofText config.coinName
  symbol := Bytes.ofText config.coinSymbol
  metadata := Bytes.ofText config.coinMetadata
  decimals := config.coinDecimals
  owner := .zero

/-- The parameters of a valid configuration. -/
def params (config : LedgerConfig) : Except ConfigError Params :=
  let record := config.coinRecord
  match TokenRecord.checkFields record.name record.symbol record.metadata record.decimals with
  | .error cause => .error (.invalidCoin cause)
  | .ok () =>
      match collectModels config.pricingModels .empty with
      | .error error => .error error
      | .ok models =>
          .ok
            { coin := .ofToken record.name record.symbol record.metadata
              coinRecord := record
              models }

end LedgerConfig

end PoolLedger
