import PoolLedger.Batch.Plan
import PoolLedger.Genesis
import PoolLedger.Json.Fields
import PoolLedger.Telemetry.Settings

/-!
# JSON form of configurations and schedules

Fields that are missing from a configuration take their defaults; models,
allocations, groups and schedules must be complete.
-/

namespace PoolLedger

namespace PricingModel

def toJson (model : PricingModel) : Json :=
  .ofFields [("id", .ofByte model.id), ("label", .ofText model.label)]

def ofJson? (json : Json) : Option PricingModel := do
  match ← json.fields? ["id", "label"] with
  | [id, label] =>
      return ⟨← Json.required Json.toByte? id, ← Json.required Json.toText? label⟩
  | _ => none

end PricingModel

namespace LedgerConfig

def toJson (config : LedgerConfig) : Json :=
  .ofFields
    [("coin_name", .ofText config.coinName), ("coin_symbol", .ofText config.coinSymbol),
      ("coin_metadata", .ofText config.coinMetadata), ("coin_decimals", .ofByte config.coinDecimals),
      ("pricing_models", .array (config.pricingModels.map PricingModel.toJson))]

def ofJson? (json : Json) : Option LedgerConfig := do
  let fields ← json.fields?
    ["coin_name", "coin_symbol", "coin_metadata", "coin_decimals", "pricing_models"]
  let defaults : LedgerConfig := {}
  match fields with
  | [name, symbol, metadata, decimals, models] =>
      return {
        coinName := ← Json.optional Json.toText? defaults.coinName name
        coinSymbol := ← Json.optional Json.toText? defaults.coinSymbol symbol
        coinMetadata := ← Json.optional Json.toText? defaults.coinMetadata metadata
        coinDecimals := ← Json.optional Json.toByte? defaults.coinDecimals decimals
        pricingModels :=
          ← Json.optional (Json.toList? PricingModel.ofJson?) defaults.pricingModels models }
  | _ => none

/-- The ledger configuration that a text spells. -/
def parse (text : String) : Option LedgerConfig :=
  (Json.parse text).bind ofJson?

end LedgerConfig

namespace Allocation

def toJson (allocation : Allocation) : Json :=
  .ofFields [("address", .ofAddress allocation.address), ("balance", .ofWord allocation.balance)]

def ofJson? (json : Json) : Option Allocation := do
  match ← json.fields? ["address", "balance"] with
  | [address, balance] =>
      return ⟨← Json.required Json.toAddress? address, ← Json.required Json.toWord? balance⟩
  | _ => none

end Allocation

namespace GenesisConfig

def toJson (config : GenesisConfig) : Json :=
  .ofFields
    [("ledger", config.ledger.toJson),
      ("allocations", .array (config.allocations.map Allocation.toJson))]

def ofJson? (json : Json) : Option GenesisConfig := do
  match ← json.fields? ["ledger", "allocations"] with
  | [ledger, allocations] =>
      return {
        ledger := ← Json.optional LedgerConfig.ofJson? {} ledger
        allocations := ← Json.optional (Json.toList? Allocation.ofJson?) [] allocations }
  | _ => none

/-- The genesis configuration that a text spells. -/
def parse (text : String) : Option GenesisConfig :=
  (Json.parse text).bind ofJson?

end GenesisConfig

namespace Batch.Config

def toJson (config : Config) : Json :=
  .ofFields
    [("max_batch_size", .ofNat config.maxBatchSize), ("max_edge_count", .ofNat config.maxEdgeCount),
      ("conflict_threshold_percent", .ofByte config.conflictThresholdPercent),
      ("parallel_threshold", .ofNat config.parallelThreshold)]

def ofJson? (json : Json) : Option Config := do
  let fields ← json.fields?
    ["max_batch_size", "max_edge_count", "conflict_threshold_percent", "parallel_threshold"]
  let defaults : Config := {}
  match fields with
  | [size, edges, threshold, parallel] =>
      return {
        maxBatchSize := ← Json.optional Json.toCount? defaults.maxBatchSize size
        maxEdgeCount := ← Json.optional Json.toCount? defaults.maxEdgeCount edges
        conflictThresholdPercent :=
          ← Json.optional Json.toByte? defaults.conflictThresholdPercent threshold
        parallelThreshold := ← Json.optional Json.toCount? defaults.parallelThreshold parallel }
  | _ => none

/-- The batch configuration that a text spells. -/
def parse (text : String) : Option Config :=
  (Json.parse text).bind ofJson?

end Batch.Config

namespace Batch.Group

def toJson (group : Group) : Json :=
  .ofFields [("group_id", .ofNat group.id), ("indices", .array (group.indices.map .ofNat))]

def ofJson? (json : Json) : Option Group := do
  match ← json.fields? ["group_id", "indices"] with
  | [id, indices] =>
      return ⟨← Json.required Json.toCount? id,
        ← Json.required (Json.toList? Json.toCount?) indices⟩
  | _ => none

end Batch.Group

namespace Batch.Schedule

def toJson (schedule : Schedule) : Json :=
  .ofFields
    [("parallel_groups", .array (schedule.groups.map Group.toJson)),
      ("total_actions", .ofNat schedule.totalActions),
      ("max_parallelism", .ofNat schedule.maxParallelism)]

/-- The schedule of a JSON value; its two counts are taken as they are. -/
def ofJson? (json : Json) : Option Schedule := do
  match ← json.fields? ["parallel_groups", "total_actions", "max_parallelism"] with
  | [groups, total, parallelism] =>
      return ⟨← Json.required (Json.toList? Group.ofJson?) groups,
        ← Json.required Json.toCount? total, ← Json.required Json.toCount? parallelism⟩
  | _ => none

end Batch.Schedule

namespace Telemetry.Settings

def toJson (settings : Settings) : Json :=
  .ofFields
    [("service_name", .ofText settings.serviceName), ("log_level", .ofText settings.logLevel),
      ("json_logs", .bool settings.jsonLogs)]

def ofJson? (json : Json) : Option Settings := do
  let fields ← json.fields? ["service_name", "log_level", "json_logs"]
  let defaults : Settings := {}
  match fields with
  | [name, level, logs] =>
      return {
        serviceName := ← Json.optional Json.toText? defaults.serviceName name
        logLevel := ← Json.optional Json.toText? defaults.logLevel level
        jsonLogs := ← Json.optional Json.toBool? defaults.jsonLogs logs }
  | _ => none

end Telemetry.Settings

end PoolLedger
