import PoolLedger.Proofs.GenesisChecks
import PoolLedger.Proofs.RecordIsolation

/-!
# Records of a genesis

The first state of an accepted genesis has the record of the native coin and
one balance for each allocation, and nothing else.
-/

namespace PoolLedger

namespace Genesis

/-- The balances that are allocated, under their keys. -/
def balanceEntries (allocations : List Allocation) : List (StateKey × Bytes) :=
  allocations.map fun allocation =>
    (.ofBalance allocation.address, BalanceRecord.encode allocation.balance)

/-- A store has the coin and the balances of a genesis, and nothing else. -/
structure WrittenIn (genesis : Genesis) (store : Store) : Prop where
  entries : ∃ bytes, genesis.params.coinRecord.encode = .ok bytes ∧
    store.toList.Perm ((.ofToken genesis.params.coin, bytes) :: balanceEntries genesis.allocations)
  token : ∀ address, (Query.token address).ask store =
    (.ok (if address = genesis.params.coin then some genesis.params.coinRecord else none), store)
  allocated : ∀ allocation ∈ genesis.allocations,
    (Query.balance allocation.address).ask store = (.ok allocation.balance, store)
  others : ∀ account, account ∉ genesis.allocations.map (·.address) →
    (Query.balance account).ask store = (.ok 0, store)
  total : store.coinTotal = genesis.supply.toNat

theorem balanceKey_ne_tokenKey (account token : Address) :
    StateKey.ofBalance account ≠ StateKey.ofToken token := by
  have different : RecordName.balance account ≠ .token token := nofun
  exact RecordName.key_injective.ne different

section Entries

variable {allocations : List Allocation}

theorem allocate_eq_foldl_insert (store : Store) (allocations : List Allocation) :
    allocate store allocations =
      (balanceEntries allocations).foldl (fun store entry => store.insert entry.1 entry.2)
        store := by
  rw [balanceEntries, List.foldl_map]
  rfl

theorem nodup_keys_balanceEntries (distinct : (allocations.map (·.address)).Nodup) :
    ((balanceEntries allocations).map (·.1)).Nodup := by
  have keys : (balanceEntries allocations).map (·.1) =
      (allocations.map (·.address)).map StateKey.ofBalance := by
    simp [balanceEntries, Function.comp_def]
  rw [keys]
  exact distinct.map fun first second => StateKey.ofBalance_inj.mp

/-- To allocate balances in a store without any of them is to add their entries. -/
theorem perm_allocate {store : Store} (distinct : (allocations.map (·.address)).Nodup)
    (fresh : ∀ account, store.get? (.ofBalance account) = none) :
    (allocate store allocations).toList.Perm (balanceEntries allocations ++ store.toList) := by
  rw [allocate_eq_foldl_insert]
  apply SortedMap.perm_foldl_insert
  · intro entry member
    obtain ⟨allocation, _, rfl⟩ := List.mem_map.mp member
    exact fresh allocation.address
  · exact nodup_keys_balanceEntries distinct

end Entries

section Written

variable {config : GenesisConfig} {genesis : Genesis} {store : Store}

theorem entries_of_initialStore (accepted : ofConfig config = .ok genesis)
    (initial : genesis.initialStore = .ok store) :
    ∃ bytes, genesis.params.coinRecord.encode = .ok bytes ∧
      store.toList.Perm
        ((.ofToken genesis.params.coin, bytes) :: balanceEntries genesis.allocations) := by
  obtain ⟨valid, _, distinct⟩ := of_ofConfig accepted
  have written := TokenRecord.encode_eq_written (LedgerConfig.bounded_coinRecord valid)
  refine ⟨_, written, ?_⟩
  rw [initialStore_eq accepted, Except.ok.injEq] at initial
  rw [← initial, Store.setToken, written, Store.setEncoded]
  have fresh : ∀ account, (SortedMap.insert (.empty : Store) (.ofToken genesis.params.coin)
      genesis.params.coinRecord.written).get? (.ofBalance account) = none := by
    intro account
    have ne := balanceKey_ne_tokenKey account genesis.params.coin
    rw [SortedMap.get?_insert_of_ne _ _ ne, SortedMap.get?_empty]
  exact (perm_allocate distinct fresh).trans (List.perm_append_singleton _ _)

/-- A value is under a key exactly if it is written there. -/
theorem get?_eq_some_iff {entries : List (StateKey × Bytes)} (written : store.toList.Perm entries)
    (key : StateKey) (value : Bytes) : store.get? key = some value ↔ (key, value) ∈ entries := by
  rw [← SortedMap.mem_toList_iff, written.mem_iff]

theorem token_mem_entries_iff {coin : Address} {bytes : Bytes} {allocations : List Allocation}
    (address : Address) (value : Bytes) :
    (StateKey.ofToken address, value) ∈
        (StateKey.ofToken coin, bytes) :: balanceEntries allocations ↔
      address = coin ∧ value = bytes := by
  rw [List.mem_cons, Prod.mk.injEq, StateKey.ofToken_inj, or_iff_left]
  intro member
  obtain ⟨allocation, _, same⟩ := List.mem_map.mp member
  exact balanceKey_ne_tokenKey allocation.address address (congrArg Prod.fst same)

theorem balance_mem_entries_iff {coin : Address} {bytes : Bytes} {allocations : List Allocation}
    (account : Address) (value : Bytes) :
    (StateKey.ofBalance account, value) ∈
        (StateKey.ofToken coin, bytes) :: balanceEntries allocations ↔
      ∃ allocation ∈ allocations, allocation.address = account ∧
        BalanceRecord.encode allocation.balance = value := by
  have notCoin : StateKey.ofBalance account ≠ StateKey.ofToken coin :=
    balanceKey_ne_tokenKey account coin
  simp [balanceEntries, notCoin, StateKey.ofBalance_inj]

/-- The first state of an accepted genesis has the records of the genesis. -/
theorem writtenIn_initialStore (accepted : ofConfig config = .ok genesis)
    (initial : genesis.initialStore = .ok store) : genesis.WrittenIn store := by
  obtain ⟨bytes, encoded, entries⟩ := entries_of_initialStore accepted initial
  have decoded : TokenRecord.decode bytes = .ok genesis.params.coinRecord :=
    TokenRecord.decode_eq_ok_iff.mpr (TokenRecord.encode_eq_ok_iff.mp encoded)
  refine ⟨⟨bytes, encoded, entries⟩, ?_, ?_, ?_, ?_⟩
  · intro address
    rw [Query.ask_eq, Query.answer, Query.record, RecordName.key]
    split
    · rename_i isCoin
      have found := (get?_eq_some_iff entries _ bytes).mpr
        ((token_mem_entries_iff address bytes).mpr ⟨isCoin, rfl⟩)
      rw [found, Program.found_of_decode decoded]
    · rename_i notCoin
      have absent : store.get? (.ofToken address) = none := by
        apply Option.eq_none_iff_forall_ne_some.mpr
        intro value found
        exact notCoin ((token_mem_entries_iff _ _).mp ((get?_eq_some_iff entries _ _).mp found)).1
      rw [absent, Program.found]
  · intro allocation member
    have found := (get?_eq_some_iff entries _ _).mpr
      ((balance_mem_entries_iff allocation.address _).mpr ⟨allocation, member, rfl, rfl⟩)
    rw [Query.ask_eq, Query.answer, Query.record, RecordName.key, found,
      Program.found_of_decode (BalanceRecord.decode_encode _)]
    rfl
  · intro account absent
    have noBalance : store.get? (.ofBalance account) = none := by
      apply Option.eq_none_iff_forall_ne_some.mpr
      intro value found
      obtain ⟨allocation, member, rfl, _⟩ :=
        (balance_mem_entries_iff _ _).mp ((get?_eq_some_iff entries _ _).mp found)
      exact absent (List.mem_map_of_mem member)
    rw [Query.ask_eq, Query.answer, Query.record, RecordName.key, noBalance]
    rfl
  · obtain ⟨other, otherInitial, _, total⟩ := initialStore_of_ofConfig accepted
    cases initial.symm.trans otherInitial
    exact total

end Written

end Genesis

/-- A genesis is accepted exactly if its configuration is valid, and refused for the first check
that fails.  An accepted genesis can be written to an empty store; the store then has the record of
the native coin, one balance for each allocation and nothing else, and its coins are the supply. -/
theorem genesis_checked_and_written (config : GenesisConfig) :
    ((∃ genesis, Genesis.ofConfig config = .ok genesis) ↔ config.Valid) ∧
      (∀ error, Genesis.ofConfig config = .error error ↔ config.Refused error) ∧
      ∀ genesis, Genesis.ofConfig config = .ok genesis →
        genesis.Describes config ∧
          ∃ store, genesis.initialStore = .ok store ∧ genesis.WrittenIn store := by
  refine ⟨Genesis.exists_ofConfig_iff config, Genesis.ofConfig_eq_error_iff config, ?_⟩
  intro genesis accepted
  have initial := Genesis.initialStore_eq accepted
  exact ⟨Genesis.describes_of_ofConfig accepted, _, initial,
    Genesis.writtenIn_initialStore accepted initial⟩

/-- A genesis that allocates as many coins as fit into an amount. -/
def harbourGenesis : GenesisConfig where
  ledger :=
    { coinName := "Harbour"
      coinSymbol := "HRB"
      coinMetadata := ""
      coinDecimals := 18
      pricingModels := [⟨3, "constant-sum"⟩, ⟨1, "constant-product"⟩] }
  allocations := [⟨.zero, 7⟩, ⟨⟨List.replicate 33 1, rfl⟩, 18446744073709551608⟩]

/-- A genesis that lists one account twice. -/
def doubledGenesis : GenesisConfig :=
  { harbourGenesis with allocations := [⟨.zero, 7⟩, ⟨.zero, 0⟩] }

theorem valid_harbourGenesis : harbourGenesis.Valid where
  coin := ⟨by decide, by decide, by decide, by decide⟩
  models := by decide
  supply := by decide
  accounts := by decide

theorem harbourGenesis_written :
    ∃ genesis, Genesis.ofConfig harbourGenesis = .ok genesis ∧
      ∃ store, genesis.initialStore = .ok store ∧
        (Query.balance .zero).ask store = (.ok 7, store) ∧
        store.coinTotal = 18446744073709551615 ∧
        Genesis.ofConfig doubledGenesis = .error (.duplicateAllocation .zero) := by
  obtain ⟨accepts, _, written⟩ := genesis_checked_and_written harbourGenesis
  obtain ⟨_, refuses, _⟩ := genesis_checked_and_written doubledGenesis
  obtain ⟨genesis, accepted⟩ := accepts.mpr valid_harbourGenesis
  obtain ⟨described, store, initial, records⟩ := written genesis accepted
  have first : (⟨.zero, 7⟩ : Allocation) ∈ genesis.allocations := by
    rw [described.allocations]
    decide
  refine ⟨genesis, accepted, store, initial, records.allocated _ first, ?_, ?_⟩
  · rw [records.total, described.supply]
    decide
  · have coin : doubledGenesis.ledger.CoinFits := valid_harbourGenesis.coin
    have models : doubledGenesis.ledger.modelIds.Nodup := valid_harbourGenesis.models
    have repeats : FirstRepeated doubledGenesis.addresses .zero :=
      ⟨[.zero], [], rfl, by decide, by decide⟩
    exact (refuses _).mpr (.duplicateAllocation coin models (by decide) repeats)

end PoolLedger
