import PoolLedger.Proofs.BooksRefinement
import PoolLedger.Proofs.RegistryBooks
import PoolLedger.Proofs.SerialRuns

/-!
# Integrity of the registry

Whatever was called since an accepted genesis, the store holds nothing but
records, and its tokens, pools and domains fit together, unless two pools that
were created on the way share a digest.
-/

namespace PoolLedger

open Batch

/-- A store of records only, in whose books everything registered fits together. -/
structure Registry (params : Params) (created : List Address) (store : Store) : Prop where
  keys : ∀ key value, store.get? key = some value → key.OfRecord
  wellFormed : store.WellFormed
  linked : store.books.Linked params created

namespace Registry

variable {params : Params} {created : List Address} {store : Store}

theorem after_action (registry : Registry params created store)
    (distinct : DistinctDigests created) (actor : Address) (action : Action)
    (isCreated : ∀ pool lpToken,
      (action.effect params actor store).1 = .ok (.createLiquidityPool pool lpToken) →
        pool ∈ created) :
    Registry params created (store.commit (action.effect params actor store).2) := by
  have kept := Action.effect_keepsBooks registry.wellFormed params actor action
  refine ⟨?_, kept.wellFormed, ?_⟩
  · intro key value stored
    by_contra notRecord
    rw [kept.elsewhere key notRecord] at stored
    exact notRecord (registry.keys key value stored)
  · rw [kept.books]
    refine registry.linked.step distinct (Books.registration params actor action store.books) ?_
    intro pool lpToken answer
    apply isCreated pool lpToken
    rw [kept.answer, answer]
    rfl

theorem after_run (registry : Registry params created store)
    (distinct : DistinctDigests created) {entries : List Entry}
    (isCreated : ∀ pool lpToken,
      .createLiquidityPool pool lpToken ∈ outputsOf (runSerial params store entries).1 →
        pool ∈ created) :
    Registry params created (runSerial params store entries).2 := by
  simp only [mem_outputsOf_iff] at isCreated
  induction entries generalizing store with
  | nil => exact registry
  | cons entry rest ih =>
      refine ih (registry.after_action distinct entry.actor entry.action ?_) ?_
      · intro pool lpToken answer
        exact isCreated pool lpToken ⟨entry.outcome params store, List.mem_cons_self, answer⟩
      · rintro pool lpToken ⟨outcome, member, answer⟩
        exact isCreated pool lpToken ⟨outcome, List.mem_cons_of_mem _ member, answer⟩

theorem setBalance (registry : Registry params created store) (account : Address)
    (amount : Amount) : Registry params created (store.setBalance account amount) := by
  refine ⟨?_, registry.wellFormed.setBalance account amount, ?_⟩
  · intro key value stored
    by_contra notRecord
    rw [Store.get?_setBalance notRecord] at stored
    exact notRecord (registry.keys key value stored)
  · rw [Store.books_setBalance]
    exact registry.linked.withBalances _

theorem allocate (registry : Registry params created store) (allocations : List Allocation) :
    Registry params created (Genesis.allocate store allocations) := by
  induction allocations generalizing store with
  | nil => exact registry
  | cons head rest ih => exact ih (registry.setBalance head.address head.balance)

/-- The first state of an accepted genesis registers its coin and nothing else. -/
theorem of_ofConfig {config : GenesisConfig} {genesis : Genesis}
    (accepted : Genesis.ofConfig config = .ok genesis) {store : Store}
    (initial : genesis.initialStore = .ok store) (created : List Address) :
    Registry genesis.params created store := by
  obtain ⟨valid, _, _⟩ := Genesis.of_ofConfig accepted
  obtain ⟨isCoin, checked⟩ := LedgerConfig.coin_of_params valid
  have bounded := LedgerConfig.bounded_coinRecord valid
  have empty : Store.WellFormed .empty := ⟨nofun, nofun, nofun, nofun⟩
  have emptyLinked : (Store.books .empty).Linked genesis.params created :=
    ⟨nofun, nofun, nofun, nofun, nofun⟩
  cases initial.symm.trans (Genesis.initialStore_eq accepted)
  refine allocate ⟨?_, empty.setToken _ bounded, ?_⟩ genesis.allocations
  · intro key value stored
    by_contra notRecord
    rw [Store.get?_setToken notRecord] at stored
    cases stored
  · rw [Store.books_setToken _ _ bounded, isCoin]
    exact emptyLinked.setToken checked rfl

end Registry

/-- The pool that an action has created. -/
def Output.pool? : Output → Option Address
  | .createLiquidityPool pool _ => some pool
  | _ => none

/-- The pools that were created in a run. -/
def poolsCreated (responses : List Response) : List Address :=
  (outputsIn responses).filterMap Output.pool?

/-- Everything in a store is a record, and the records fit together. -/
structure Registered (params : Params) (store : Store) : Prop where
  keys : ∀ key value, store.get? key = some value →
    (∃ account, key = .ofBalance account) ∨ (∃ token, key = .ofToken token) ∨
      (∃ pool, key = .ofPool pool) ∨
      ∃ domain, key = .ofDomain domain ∧ 2 ≤ domain.utf8ByteSize ∧ domain.utf8ByteSize ≤ 10
  wellFormed : store.WellFormed
  tokens : ∀ token record, store.books.token? token = some record →
    token.kind? = some .token →
      token = .ofToken record.name record.symbol record.metadata ∧
        TokenRecord.checkFields record.name record.symbol record.metadata record.decimals =
          .ok ()
  pools : ∀ pool record, store.books.pool? pool = some record →
    store.books.PoolFits params pool record
  lpTokens : ∀ token record, store.books.token? token = some record →
    token.kind? ≠ some .token →
      ∃! pool, ∃ poolRecord, store.books.pool? pool = some poolRecord ∧
        poolRecord.lpToken = token

theorem Registry.registered {params : Params} {created : List Address} {store : Store}
    (registry : Registry params created store) (distinct : DistinctDigests created) :
    Registered params store where
  keys key value stored := by
    cases registry.keys key value stored with
    | balance account => exact .inl ⟨account, rfl⟩
    | token token => exact .inr (.inl ⟨token, rfl⟩)
    | pool pool => exact .inr (.inr (.inl ⟨pool, rfl⟩))
    | domain domain =>
        obtain ⟨record, decoded⟩ := registry.wellFormed.domains domain value stored
        have claimed : store.books.owner? domain = some record.owner := by
          simp [Store.books, Store.record?, stored, decoded, Except.toOption]
        exact .inr (.inr (.inr ⟨domain, rfl, registry.linked.domains domain _ claimed⟩))
  wellFormed := registry.wellFormed
  tokens := registry.linked.tokens
  pools := registry.linked.pools
  lpTokens _ _ found kind := registry.linked.existsUnique_pool distinct found kind

/-- From the first state of an accepted genesis, every run of calls leaves a store of records that
fit together, unless two pools that it created share a digest. -/
theorem run_keeps_registry (config : GenesisConfig) (genesis : Genesis)
    (accepted : Genesis.ofConfig config = .ok genesis) :
    ∃ store, genesis.initialStore = .ok store ∧
      ∀ (counters : Telemetry.Counters) (calls : List Call), ∃ final later,
        (Ledger.answers ⟨genesis.params, .ofStore store, counters⟩ calls).2 =
            ⟨genesis.params, .ofStore final, later⟩ ∧
        (DistinctDigests
            (poolsCreated (Ledger.answers ⟨genesis.params, .ofStore store, counters⟩ calls).1) →
          Registered genesis.params final) := by
  obtain ⟨store, initial, sound, _⟩ := Genesis.initialStore_of_ofConfig accepted
  refine ⟨store, initial, fun counters calls => ?_⟩
  obtain ⟨responses, entries, later, ran, outputs⟩ :=
    answers_serial genesis.params sound counters calls
  rw [ran]
  refine ⟨_, later, rfl, fun distinct => ?_⟩
  have first := Registry.of_ofConfig accepted initial (poolsCreated responses)
  refine (first.after_run distinct ?_).registered distinct
  intro pool lpToken member
  rw [← outputs] at member
  exact List.mem_filterMap.mpr ⟨_, member, rfl⟩

/-- The coin of the default configuration. -/
def defaultCoin : Address :=
  .ofToken (Bytes.ofText "CFMMVM") (Bytes.ofText "CVM")
    (Bytes.ofText "A constant-function market-maker VM implementation")

/-- The genesis of the two accounts. -/
def twoAccountsGenesis : Genesis where
  params :=
    { coin := defaultCoin
      coinRecord := LedgerConfig.coinRecord {}
      models := .ofList [(0, "constant-sum"), (1, "constant-product")] }
  allocations := twoAccounts.allocations
  supply := 20005

/-- The pool of the coin with itself. -/
def coinPool : Address :=
  .ofPool defaultCoin defaultCoin

/-- The pool of the coin with the token of the first pool. -/
def nestedPool : Address :=
  .ofPool defaultCoin (.ofPoolToken coinPool)

def nestedPools : List Call :=
  [.execute (accountOf 1) (.createLiquidityPool 1 defaultCoin defaultCoin 30),
    .execute (accountOf 2) (.createLiquidityPool 0 defaultCoin (.ofPoolToken coinPool) 5)]

theorem nestedPools_keep_registry :
    Genesis.ofConfig twoAccounts = .ok twoAccountsGenesis ∧
      ∃ store, twoAccountsGenesis.initialStore = .ok store ∧ ∃ final later,
        (Ledger.answers ⟨twoAccountsGenesis.params, .ofStore store, {}⟩ nestedPools).2 =
            ⟨twoAccountsGenesis.params, .ofStore final, later⟩ ∧
        poolsCreated (Ledger.answers ⟨twoAccountsGenesis.params, .ofStore store, {}⟩
          nestedPools).1 = [coinPool, nestedPool] ∧
        DistinctDigests [coinPool, nestedPool] ∧
        Registered twoAccountsGenesis.params final := by
  have accepted : Genesis.ofConfig twoAccounts = .ok twoAccountsGenesis := by decide +kernel
  obtain ⟨store, initial, run⟩ := run_keeps_registry twoAccounts twoAccountsGenesis accepted
  obtain ⟨final, later, left, registered⟩ := run {} nestedPools
  have created : poolsCreated (Ledger.answers ⟨twoAccountsGenesis.params, .ofStore store, {}⟩
      nestedPools).1 = [coinPool, nestedPool] := by
    cases initial.symm.trans (Genesis.initialStore_eq accepted)
    decide +kernel
  have distinct : DistinctDigests [coinPool, nestedPool] := by
    unfold DistinctDigests
    decide +kernel
  refine ⟨accepted, store, initial, final, later, left, created, distinct, registered ?_⟩
  rw [created]
  exact distinct

end PoolLedger
