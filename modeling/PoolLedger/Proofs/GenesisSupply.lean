import PoolLedger.Genesis
import PoolLedger.Proofs.ActionSafety
import PoolLedger.Proofs.FirstRepeats

/-!
# The first state

An accepted genesis can be written to an empty store.  The store is sound, and
its coins are the supply.
-/

namespace PoolLedger

namespace Genesis

/-- Once the addresses in `before` are seen, the search finds the first address that repeats. -/
theorem findsRepeat_of_seen (before : List Address) {seen : List Address}
    (sameSeen : ∀ address, address ∈ seen ↔ address ∈ before) (nodup : before.Nodup)
    (rest : List Allocation) :
    FindsRepeat (before ++ rest.map (·.address)) (firstRepeated? seen rest) := by
  induction rest generalizing before seen with
  | nil => simpa [firstRepeated?, FindsRepeat] using nodup
  | cons head rest ih =>
      simp only [firstRepeated?, List.map_cons, List.contains_iff_mem]
      by_cases headSeen : head.address ∈ seen
      · rw [if_pos headSeen]
        exact findsRepeat_of_mem nodup ((sameSeen _).mp headSeen)
      · rw [if_neg headSeen, List.append_cons]
        apply ih
        · intro address
          rw [List.mem_cons, List.mem_append, List.mem_singleton, sameSeen, or_comm]
        · exact nodup_append_singleton nodup (mt (sameSeen _).mpr headSeen)

theorem findsRepeat_firstRepeated? (allocations : List Allocation) :
    FindsRepeat (allocations.map (·.address)) (firstRepeated? [] allocations) :=
  findsRepeat_of_seen [] (fun _ => Iff.rfl) List.nodup_nil allocations

theorem toNat_of_sumFrom {total supply : Amount} {allocations : List Allocation}
    (sum : sumFrom total allocations = some supply) :
    supply.toNat = total.toNat + (allocations.map (·.balance.toNat)).sum := by
  induction allocations generalizing total with
  | nil =>
      cases sum
      rfl
  | cons head rest ih =>
      rw [sumFrom] at sum
      obtain ⟨next, added, restSum⟩ := Option.bind_eq_some_iff.mp sum
      have nextTotal := Amount.toNat_of_add? added
      rw [ih restSum, List.map_cons, List.sum_cons]
      omega

/-- A store after some balances were set one after the other. -/
def allocate (store : Store) (allocations : List Allocation) : Store :=
  allocations.foldl (fun store allocation =>
    store.setBalance allocation.address allocation.balance) store

theorem run_writeAllocations (allocations : List Allocation) (store : Store) :
    (writeAllocations allocations).run .store store = (.ok (), allocate store allocations) := by
  induction allocations generalizing store with
  | nil => rfl
  | cons head rest ih =>
      rw [writeAllocations, Program.run_bind_of_ok (Program.run_setBalance _ _), ih]
      rfl

theorem readable_allocate {store : Store} (readable : store.Readable)
    (allocations : List Allocation) : (allocate store allocations).Readable := by
  induction allocations generalizing store with
  | nil => exact readable
  | cons head rest ih => exact ih (readable.setBalance head.address head.balance)

/-- Balances of distinct accounts that had none add up. -/
theorem coinTotal_allocate {store : Store} {allocations : List Allocation}
    (distinct : (allocations.map (·.address)).Nodup)
    (fresh : ∀ allocation ∈ allocations, store.balance allocation.address = .ok 0) :
    (allocate store allocations).coinTotal =
      store.coinTotal + (allocations.map (·.balance.toNat)).sum := by
  induction allocations generalizing store with
  | nil => simp [allocate]
  | cons head rest ih =>
      obtain ⟨headAbsent, restDistinct⟩ := List.nodup_cons.mp distinct
      have added := Store.coinTotal_setBalance (fresh head List.mem_cons_self) head.balance
      have restFresh : ∀ allocation ∈ rest,
          (store.setBalance head.address head.balance).balance allocation.address = .ok 0 := by
        intro allocation member
        have ne : allocation.address ≠ head.address := by
          intro same
          exact headAbsent (List.mem_map.mpr ⟨allocation, member, same⟩)
        rw [Store.balance_setBalance_of_ne store ne]
        exact fresh allocation (List.mem_cons_of_mem _ member)
      have restSum := ih restDistinct restFresh
      simp only [UInt64.toNat_zero, Nat.add_zero] at added
      rw [List.map_cons, List.sum_cons, allocate, List.foldl_cons, ← allocate, restSum, added]
      omega

end Genesis

namespace LedgerConfig

/-- The coin has the address of the fields of its record, and they pass their check. -/
theorem coin_of_params {config : LedgerConfig} {params : Params}
    (valid : config.params = .ok params) :
    params.coin =
        .ofToken params.coinRecord.name params.coinRecord.symbol params.coinRecord.metadata ∧
      TokenRecord.checkFields params.coinRecord.name params.coinRecord.symbol
        params.coinRecord.metadata params.coinRecord.decimals = .ok () := by
  rw [LedgerConfig.params] at valid
  split at valid
  · cases valid
  · rename_i passed
    split at valid
    · cases valid
    · cases valid
      exact ⟨rfl, passed⟩

theorem bounded_coinRecord {config : LedgerConfig} {params : Params}
    (valid : config.params = .ok params) : params.coinRecord.Bounded :=
  TokenRecord.bounded_of_checkFields (coin_of_params valid).2 params.coinRecord.owner

end LedgerConfig

namespace Genesis

theorem of_ofConfig {config : GenesisConfig} {genesis : Genesis}
    (accepted : ofConfig config = .ok genesis) :
    config.ledger.params = .ok genesis.params ∧
      sumFrom 0 genesis.allocations = some genesis.supply ∧
      (genesis.allocations.map (·.address)).Nodup := by
  rw [ofConfig] at accepted
  split at accepted
  · cases accepted
  · rename_i params valid
    split at accepted
    · cases accepted
    · rename_i supply fits
      split at accepted
      · cases accepted
      · rename_i distinct
        cases accepted
        exact ⟨valid, fits, (findsRepeat_firstRepeated? _).eq_none_iff.mp distinct⟩

/-- The first state of an accepted genesis has the coin and the balances. -/
theorem initialStore_eq {config : GenesisConfig} {genesis : Genesis}
    (accepted : ofConfig config = .ok genesis) :
    genesis.initialStore =
      .ok (allocate (Store.setToken .empty genesis.params.coin genesis.params.coinRecord)
        genesis.allocations) := by
  have bounded := LedgerConfig.bounded_coinRecord (of_ofConfig accepted).1
  rw [initialStore, program, Program.run_bind_of_ok (Program.run_setToken bounded _),
    run_writeAllocations]

/-- The first state of an accepted genesis is sound, and its coins are the supply. -/
theorem initialStore_of_ofConfig {config : GenesisConfig} {genesis : Genesis}
    (accepted : ofConfig config = .ok genesis) :
    ∃ store, genesis.initialStore = .ok store ∧ store.Sound ∧
      store.coinTotal = genesis.supply.toNat := by
  obtain ⟨_, fits, distinct⟩ := of_ofConfig accepted
  have emptyReadable : Store.Readable .empty := ⟨nofun, nofun⟩
  have total : (allocate (Store.setToken .empty genesis.params.coin genesis.params.coinRecord)
      genesis.allocations).coinTotal = genesis.supply.toNat := by
    have fresh : ∀ allocation ∈ genesis.allocations,
        (Store.setToken .empty genesis.params.coin genesis.params.coinRecord).balance
          allocation.address = .ok 0 :=
      fun allocation _ => Store.balance_setToken .empty _ _ allocation.address
    rw [coinTotal_allocate distinct fresh, Store.coinTotal_setToken, toNat_of_sumFrom fits]
    rfl
  refine ⟨_, initialStore_eq accepted, ⟨?_, ?_⟩, total⟩
  · exact readable_allocate (emptyReadable.setToken _ _) genesis.allocations
  · rw [total]
    exact genesis.supply.toNat_lt

end Genesis

end PoolLedger
