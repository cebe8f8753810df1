import PoolLedger.Proofs.Books
import PoolLedger.Proofs.GenesisSupply

/-!
# Checks of a genesis

A genesis is accepted exactly if its coin, its pricing models, its supply and
its accounts are valid, and refused for the first of these that is not.
-/

namespace PoolLedger

/-! ## The ledger -/

namespace LedgerConfig

/-- The fields of the native coin have the length that they need. -/
structure CoinFits (config : LedgerConfig) : Prop where
  name : 1 ≤ config.coinName.utf8ByteSize ∧ config.coinName.utf8ByteSize ≤ 64
  symbol : 1 ≤ config.coinSymbol.utf8ByteSize ∧ config.coinSymbol.utf8ByteSize ≤ 8
  metadata : config.coinMetadata.utf8ByteSize ≤ 256
  decimals : config.coinDecimals ≤ 18

/-- The reasons to refuse the native coin, in the order in which they are looked at. -/
def coinRefusals (config : LedgerConfig) : List Refusal :=
  Books.fieldRefusals config.coinRecord.name config.coinRecord.symbol config.coinRecord.metadata
    config.coinRecord.decimals

/-- The ids of the pricing models, in the order in which they are listed. -/
def modelIds (config : LedgerConfig) : List UInt8 :=
  config.pricingModels.map (·.id)

theorem coinFits_iff (config : LedgerConfig) :
    config.CoinFits ↔ Refusal.first? config.coinRefusals = none := by
  rw [Refusal.first?_eq_none_iff]
  simp only [coinRefusals, Books.fieldRefusals, coinRecord, List.forall_mem_cons,
    List.not_mem_nil, false_implies, implies_true, and_true, decide_eq_false_iff_not,
    ← List.length_eq_zero_iff, Bytes.length_ofText, Nat.not_lt]
  constructor
  · rintro ⟨name, symbol, metadata, decimals⟩
    exact ⟨by omega, name.2, by omega, symbol.2, metadata,
      decide_eq_false (UInt8.not_lt.mpr decimals)⟩
  · rintro ⟨someName, name, someSymbol, symbol, metadata, decimals⟩
    exact ⟨⟨by omega, name⟩, ⟨by omega, symbol⟩, metadata,
      UInt8.not_lt.mp (of_decide_eq_false decimals)⟩

/-- Once the ids in `before` are collected, the first id that repeats is refused. -/
theorem collectModels_spec (before : List UInt8) {models : PricingModels}
    (collected : ∀ id, id ∈ models.keys ↔ id ∈ before) (nodup : before.Nodup)
    (rest : List PricingModel) :
    match collectModels rest models with
    | .ok _ => (before ++ rest.map (·.id)).Nodup
    | .error error => ∃ id, error = .duplicatePricingModel id ∧
        FirstRepeated (before ++ rest.map (·.id)) id := by
  induction rest generalizing before models with
  | nil => simpa [collectModels] using nodup
  | cons head rest ih =>
      rw [collectModels]
      by_cases seen : head.id ∈ models.keys
      · rw [if_pos ((SortedMap.contains_iff_mem_keys _ _).mpr seen)]
        exact ⟨head.id, rfl, before, rest.map (·.id), rfl, nodup, (collected head.id).mp seen⟩
      · rw [if_neg (mt (SortedMap.contains_iff_mem_keys _ _).mp seen), List.map_cons,
          List.append_cons]
        apply ih
        · intro id
          rw [SortedMap.mem_keys_insert, List.mem_append, List.mem_singleton, collected, or_comm]
        · exact nodup_append_singleton nodup (mt (collected head.id).mpr seen)

theorem collectModels_empty (config : LedgerConfig) :
    match collectModels config.pricingModels .empty with
    | .ok _ => config.modelIds.Nodup
    | .error error => ∃ id, error = .duplicatePricingModel id ∧
        FirstRepeated config.modelIds id := by
  apply collectModels_spec []
  · simp [SortedMap.mem_keys_iff]
  · exact List.nodup_nil

theorem params_eq (config : LedgerConfig) :
    config.params =
      match Refusal.first? config.coinRefusals with
      | some cause => .error (.invalidCoin cause)
      | none => (collectModels config.pricingModels .empty).map fun models =>
          { coin := .ofToken config.coinRecord.name config.coinRecord.symbol
              config.coinRecord.metadata
            coinRecord := config.coinRecord
            models } := by
  have checked := Books.checkFields_eq config.coinRecord.name config.coinRecord.symbol
    config.coinRecord.metadata config.coinRecord.decimals
  rw [← coinRefusals] at checked
  simp only [params, checked]
  cases Refusal.first? config.coinRefusals with
  | some cause => rfl
  | none => cases collectModels config.pricingModels .empty <;> rfl

theorem coinRecord_of_params {config : LedgerConfig} {params : Params}
    (valid : config.params = .ok params) : params.coinRecord = config.coinRecord := by
  rw [params_eq] at valid
  split at valid
  · cases valid
  · cases collected : collectModels config.pricingModels .empty with
    | error error =>
        rw [collected] at valid
        cases valid
    | ok models =>
        rw [collected] at valid
        cases valid
        rfl

theorem exists_params_iff (config : LedgerConfig) :
    (∃ params, config.params = .ok params) ↔ config.CoinFits ∧ config.modelIds.Nodup := by
  rw [params_eq, coinFits_iff]
  cases Refusal.first? config.coinRefusals with
  | some cause => simp
  | none =>
      have spec := collectModels_empty config
      cases collected : collectModels config.pricingModels .empty with
      | ok models =>
          rw [collected] at spec
          simpa [Except.map] using spec
      | error error =>
          rw [collected] at spec
          obtain ⟨id, _, repeats⟩ := spec
          simpa [Except.map] using repeats.not_nodup

theorem params_eq_error_iff (config : LedgerConfig) (error : ConfigError) :
    config.params = .error error ↔
      (∃ cause, Refusal.first? config.coinRefusals = some cause ∧ error = .invalidCoin cause) ∨
        (config.CoinFits ∧
          ∃ id, FirstRepeated config.modelIds id ∧ error = .duplicatePricingModel id) := by
  rw [params_eq, coinFits_iff]
  cases Refusal.first? config.coinRefusals with
  | some cause => simp [eq_comm]
  | none =>
      have spec := collectModels_empty config
      cases collected : collectModels config.pricingModels .empty with
      | ok models =>
          rw [collected] at spec
          simp only [Except.map, reduceCtorEq, false_and, exists_false, true_and, false_or,
            false_iff, not_exists, not_and]
          intro id repeats
          exact absurd spec repeats.not_nodup
      | error found =>
          rw [collected] at spec
          obtain ⟨id, rfl, repeats⟩ := spec
          simp only [Except.map, reduceCtorEq, false_and, exists_false, true_and, false_or,
            Except.error.injEq]
          constructor
          · rintro rfl
            exact ⟨id, repeats, rfl⟩
          · rintro ⟨other, otherRepeats, rfl⟩
            rw [repeats.unique otherRepeats]

end LedgerConfig

/-! ## The allocations -/

namespace Genesis

/-- A sum has no amount exactly if it does not fit into a word. -/
theorem sumFrom_eq_none_iff (total : Amount) (allocations : List Allocation) :
    sumFrom total allocations = none ↔
      2 ^ 64 ≤ total.toNat + (allocations.map (·.balance.toNat)).sum := by
  induction allocations generalizing total with
  | nil =>
      have bound := total.toNat_lt
      simpa [sumFrom] using bound
  | cons head rest ih =>
      rw [sumFrom, List.map_cons, List.sum_cons]
      cases added : Amount.add? total head.balance with
      | none =>
          have overflows : 2 ^ 64 ≤ total.toNat + head.balance.toNat :=
            Amount.size_le_of_add? added
          simp only [Option.bind_none, true_iff]
          omega
      | some next =>
          have nextTotal := Amount.toNat_of_add? added
          rw [Option.bind_some, ih]
          omega

end Genesis

/-! ## The genesis -/

namespace GenesisConfig

/-- The accounts that are listed, in order. -/
def addresses (config : GenesisConfig) : List Address :=
  config.allocations.map (·.address)

/-- The sum of the initial balances. -/
def total (config : GenesisConfig) : Nat :=
  (config.allocations.map (·.balance.toNat)).sum

/-- What a genesis is accepted for. -/
structure Valid (config : GenesisConfig) : Prop where
  coin : config.ledger.CoinFits
  models : config.ledger.modelIds.Nodup
  supply : config.total < 2 ^ 64
  accounts : config.addresses.Nodup

/-- Why a genesis is refused: the first of its checks that fails. -/
inductive Refused (config : GenesisConfig) : GenesisError → Prop
  | invalidCoin {cause : ActionError}
      (first : Refusal.first? config.ledger.coinRefusals = some cause) :
      Refused config (.config (.invalidCoin cause))
  | duplicatePricingModel (coin : config.ledger.CoinFits) {id : UInt8}
      (repeats : FirstRepeated config.ledger.modelIds id) :
      Refused config (.config (.duplicatePricingModel id))
  | supplyOverflow (coin : config.ledger.CoinFits) (models : config.ledger.modelIds.Nodup)
      (exceeds : 2 ^ 64 ≤ config.total) : Refused config .supplyOverflow
  | duplicateAllocation (coin : config.ledger.CoinFits) (models : config.ledger.modelIds.Nodup)
      (supply : config.total < 2 ^ 64) {address : Address}
      (repeats : FirstRepeated config.addresses address) :
      Refused config (.duplicateAllocation address)

end GenesisConfig

namespace Genesis

/-- A checked genesis has what its configuration says. -/
structure Describes (genesis : Genesis) (config : GenesisConfig) : Prop where
  coinRecord : genesis.params.coinRecord = config.ledger.coinRecord
  coin : genesis.params.coin =
    .ofToken genesis.params.coinRecord.name genesis.params.coinRecord.symbol
      genesis.params.coinRecord.metadata
  allocations : genesis.allocations = config.allocations
  supply : genesis.supply.toNat = config.total

variable {config : GenesisConfig}

theorem supply?_eq_none_iff (config : GenesisConfig) :
    supply? config = none ↔ 2 ^ 64 ≤ config.total := by
  rw [supply?, sumFrom_eq_none_iff, GenesisConfig.total, UInt64.toNat_zero, Nat.zero_add]

theorem exists_supply?_iff (config : GenesisConfig) :
    (∃ supply, supply? config = some supply) ↔ config.total < 2 ^ 64 := by
  rw [← Nat.not_le, ← supply?_eq_none_iff, ← Ne, Option.ne_none_iff_exists']

theorem ofConfig_of_params_error {cause : ConfigError}
    (invalid : config.ledger.params = .error cause) :
    ofConfig config = .error (.config cause) := by
  rw [ofConfig, invalid]

theorem ofConfig_of_params {params : Params} (valid : config.ledger.params = .ok params) :
    ofConfig config =
      match supply? config, firstRepeated? [] config.allocations with
      | none, _ => .error .supplyOverflow
      | some _, some address => .error (.duplicateAllocation address)
      | some supply, none => .ok { params, allocations := config.allocations, supply } := by
  rw [ofConfig, valid]
  cases supply? config with
  | none => rfl
  | some supply => cases firstRepeated? [] config.allocations <;> rfl

theorem describes_of_ofConfig {genesis : Genesis} (accepted : ofConfig config = .ok genesis) :
    genesis.Describes config := by
  obtain ⟨valid, fits, _⟩ := of_ofConfig accepted
  have listed : genesis.allocations = config.allocations := by
    rw [ofConfig_of_params valid] at accepted
    split at accepted
    · cases accepted
    · cases accepted
    · exact (congrArg allocations (Except.ok.inj accepted)).symm
  have supply := toNat_of_sumFrom fits
  rw [listed, UInt64.toNat_zero, Nat.zero_add] at supply
  exact ⟨LedgerConfig.coinRecord_of_params valid, (LedgerConfig.coin_of_params valid).1, listed,
    supply⟩

theorem exists_ofConfig_iff (config : GenesisConfig) :
    (∃ genesis, ofConfig config = .ok genesis) ↔ config.Valid := by
  have finds := findsRepeat_firstRepeated? config.allocations
  constructor
  · rintro ⟨genesis, accepted⟩
    obtain ⟨valid, fits, _⟩ := of_ofConfig accepted
    obtain ⟨coin, models⟩ := config.ledger.exists_params_iff.mp ⟨genesis.params, valid⟩
    rw [ofConfig_of_params valid] at accepted
    split at accepted
    · cases accepted
    · cases accepted
    · rename_i supply isSupply noRepeat
      exact ⟨coin, models, (exists_supply?_iff config).mp ⟨supply, isSupply⟩,
        finds.eq_none_iff.mp noRepeat⟩
  · rintro ⟨coin, models, supply, accounts⟩
    obtain ⟨params, valid⟩ := config.ledger.exists_params_iff.mpr ⟨coin, models⟩
    obtain ⟨amount, isSupply⟩ := (exists_supply?_iff config).mpr supply
    rw [ofConfig_of_params valid, isSupply, finds.eq_none_iff.mpr accounts]
    exact ⟨_, rfl⟩

theorem refused_of_ofConfig {error : GenesisError} (refused : ofConfig config = .error error) :
    config.Refused error := by
  have finds := findsRepeat_firstRepeated? config.allocations
  cases ledger : config.ledger.params with
  | error cause =>
      rw [ofConfig_of_params_error ledger] at refused
      cases refused
      rcases (config.ledger.params_eq_error_iff cause).mp ledger with
        ⟨reason, first, rfl⟩ | ⟨coin, id, repeats, rfl⟩
      · exact .invalidCoin first
      · exact .duplicatePricingModel coin repeats
  | ok params =>
      obtain ⟨coin, models⟩ := config.ledger.exists_params_iff.mp ⟨params, ledger⟩
      rw [ofConfig_of_params ledger] at refused
      split at refused
      · rename_i overflows
        cases refused
        exact .supplyOverflow coin models ((supply?_eq_none_iff config).mp overflows)
      · rename_i supply address isSupply found
        cases refused
        exact .duplicateAllocation coin models
          ((exists_supply?_iff config).mp ⟨supply, isSupply⟩) (finds.eq_some_iff.mp found)
      · cases refused

theorem ofConfig_eq_error_iff (config : GenesisConfig) (error : GenesisError) :
    ofConfig config = .error error ↔ config.Refused error := by
  constructor
  · exact refused_of_ofConfig
  · intro refused
    have finds := findsRepeat_firstRepeated? config.allocations
    cases refused with
    | invalidCoin first =>
        exact ofConfig_of_params_error
          ((config.ledger.params_eq_error_iff _).mpr (.inl ⟨_, first, rfl⟩))
    | duplicatePricingModel coin repeats =>
        exact ofConfig_of_params_error
          ((config.ledger.params_eq_error_iff _).mpr (.inr ⟨coin, _, repeats, rfl⟩))
    | supplyOverflow coin models exceeds =>
        obtain ⟨params, valid⟩ := config.ledger.exists_params_iff.mpr ⟨coin, models⟩
        rw [ofConfig_of_params valid, (supply?_eq_none_iff config).mpr exceeds]
    | duplicateAllocation coin models supply repeats =>
        obtain ⟨params, valid⟩ := config.ledger.exists_params_iff.mpr ⟨coin, models⟩
        obtain ⟨amount, isSupply⟩ := (exists_supply?_iff config).mpr supply
        rw [ofConfig_of_params valid, isSupply, finds.eq_some_iff.mpr repeats]

end Genesis

end PoolLedger
