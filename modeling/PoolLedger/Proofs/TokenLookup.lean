import PoolLedger.Proofs.DerivedAddresses
import PoolLedger.Proofs.WriteOnce

/-!
# Which tokens a lookup finds

A lookup finds the tokens that were created, and the coin.  The fields that it
asks for need not be valid, but those of every registered token are, so a
lookup that finds another token than it asks for shows two payloads with one
digest.
-/

namespace PoolLedger

open Batch

/-- A token with these fields was created. -/
def Execution.Creates (execution : Execution) (name symbol metadata : Bytes) : Prop :=
  ∃ decimals output, execution.action = .createToken name symbol metadata decimals ∧
    execution.result = .ok output

theorem Execution.Creates.registered? {execution : Execution} {name symbol metadata : Bytes}
    (creates : execution.Creates name symbol metadata) :
    execution.registered? = some (.token name symbol metadata) := by
  obtain ⟨decimals, output, isAction, succeeded⟩ := creates
  rw [Execution.registered?_eq_some_iff]
  exact ⟨⟨output, succeeded⟩, by rw [isAction]; rfl⟩

namespace Books

variable {params : Params} {books : Books} {actor : Address} {action : Action}

/-- A token of its own kind is registered by its creation only, and with valid fields. -/
theorem created_of_token? {token : Address} (kind : token.kind? = some .token)
    (found : ((books.transition params actor action).2.token? token).isSome) :
    (books.token? token).isSome ∨
      ∃ name symbol metadata decimals output,
        action = .createToken name symbol metadata decimals ∧
        (books.transition params actor action).1 = .ok output ∧
        token = .ofToken name symbol metadata ∧
        TokenRecord.checkFields name symbol metadata decimals = .ok () := by
  rw [transition, settle] at found ⊢
  cases first : Refusal.first? (books.refusals params actor action) with
  | some error =>
      rw [first] at found
      exact .inl found
  | none =>
      rw [first] at found
      cases action with
      | transfer recipient value memo =>
          simp only [enter] at found
          split at found
          · exact .inl found
          · exact .inl found
      | hi name => exact .inl found
      | claimDomain domain => exact .inl found
      | whois domain => exact .inl found
      | createToken name symbol metadata decimals =>
          simp only [enter, token?_setToken] at found
          split at found
          · rename_i isNew
            rw [refusals, Refusal.first?_append, Option.or_eq_none_iff] at first
            have checked : TokenRecord.checkFields name symbol metadata decimals = .ok () := by
              rw [checkFields_eq, first.1]
            exact .inr ⟨name, symbol, metadata, decimals, _, rfl, rfl, isNew, checked⟩
          · exact .inl found
      | getTokenAddress name symbol metadata => exact .inl found
      | createLiquidityPool functionId tokenX tokenY fee =>
          simp only [enter, token?_setPool, token?_setToken] at found
          split at found
          · -- The token of a pool has a kind of its own.
            rename_i isLpToken
            rw [isLpToken, Address.kind?_ofPoolToken] at kind
            cases kind
          · exact .inl found

end Books

section Runs

variable {params : Params} {store : Store} (wellFormed : store.WellFormed)

include wellFormed

theorem Batch.wellFormed_runSerial (params : Params) (entries : List Entry) :
    (runSerial params store entries).2.WellFormed := by
  induction entries generalizing store with
  | nil => exact wellFormed
  | cons entry rest ih => exact ih (entry.keepsBooks wellFormed params).wellFormed

/-- What is registered stays registered over a run. -/
theorem Books.Holds.runSerial {subject : Subject} (held : store.books.Holds subject)
    (params : Params) (entries : List Entry) :
    (Batch.runSerial params store entries).2.books.Holds subject := by
  induction entries generalizing store with
  | nil => exact held
  | cons entry rest ih =>
      have kept := entry.keepsBooks wellFormed params
      apply ih kept.wellFormed
      rw [kept.books]
      exact held.transition params entry.actor entry.action

theorem Batch.holds_of_registered {subject : Subject} {entries : List Entry} {execution : Execution}
    (executed : execution ∈ serialExecutions params store entries)
    (registered : execution.registered? = some subject) :
    (runSerial params store entries).2.books.Holds subject := by
  induction entries generalizing store with
  | nil => cases executed
  | cons entry rest ih =>
      have afterWellFormed := (entry.keepsBooks wellFormed params).wellFormed
      rcases List.mem_cons.mp executed with rfl | later
      · exact (Entry.registers wellFormed registered).2.runSerial afterWellFormed params rest
      · exact ih afterWellFormed later

/-- A token of its own kind was there before a run or was created in it. -/
theorem Batch.created_of_token? {entries : List Entry} {token : Address}
    (kind : token.kind? = some .token)
    (found : ((runSerial params store entries).2.books.token? token).isSome) :
    (store.books.token? token).isSome ∨
      ∃ execution ∈ serialExecutions params store entries, ∃ name symbol metadata decimals,
        execution.Creates name symbol metadata ∧ token = .ofToken name symbol metadata ∧
        TokenRecord.checkFields name symbol metadata decimals = .ok () := by
  induction entries generalizing store with
  | nil => exact .inl found
  | cons entry rest ih =>
      have kept := entry.keepsBooks wellFormed params
      rcases ih kept.wellFormed found with early | ⟨execution, executed, created⟩
      · rw [kept.books] at early
        rcases Books.created_of_token? kind early with before |
          ⟨name, symbol, metadata, decimals, output, isAction, answer, isToken, checked⟩
        · exact .inl before
        · refine .inr ⟨_, List.mem_cons_self, name, symbol, metadata, decimals, ?_, isToken, checked⟩
          refine ⟨decimals, output, isAction, kept.answer.trans ?_⟩
          rw [answer]
          rfl
      · exact .inr ⟨execution, List.mem_cons_of_mem _ executed, created⟩

/-- A lookup answers the address of the fields, and whether the books have a token there. -/
theorem Action.effect_getTokenAddress (params : Params) (actor : Address)
    (name symbol metadata : Bytes) :
    ((Action.getTokenAddress name symbol metadata).effect params actor store).1 =
      .ok (.getTokenAddress (.ofToken name symbol metadata)
        (store.books.token? (.ofToken name symbol metadata)).isSome) :=
  (Action.effect_keepsBooks wellFormed params actor (.getTokenAddress name symbol metadata)).answer

end Runs

namespace Genesis

theorem token?_allocate (store : Store) (allocations : List Allocation) :
    (allocate store allocations).books.token? = store.books.token? := by
  induction allocations generalizing store with
  | nil => rfl
  | cons head rest ih =>
      refine (ih _).trans ?_
      rw [Store.books_setBalance]
      rfl

/-- The first state has no token but the coin. -/
theorem eq_coin_of_token? {config : GenesisConfig} {genesis : Genesis}
    (accepted : ofConfig config = .ok genesis) {store : Store}
    (initial : genesis.initialStore = .ok store) {token : Address}
    (found : (store.books.token? token).isSome) : token = genesis.params.coin := by
  obtain ⟨valid, _⟩ := of_ofConfig accepted
  cases initial.symm.trans (initialStore_eq accepted)
  rw [token?_allocate, Store.books_setToken _ _ (LedgerConfig.bounded_coinRecord valid),
    Books.token?_setToken] at found
  split at found
  · rename_i isCoin
    exact isCoin
  · cases found

end Genesis

/-- The coin has these fields, or a token with them was created. -/
def TokenKnown (params : Params) (executions : List Execution) (name symbol metadata : Bytes) :
    Prop :=
  (name = params.coinRecord.name ∧ symbol = params.coinRecord.symbol ∧
      metadata = params.coinRecord.metadata) ∨
    ∃ execution ∈ executions, execution.Creates name symbol metadata

/-- The token is known, or a known token has another payload with the same digest. -/
def TokenKnownOrCollides (params : Params) (executions : List Execution)
    (name symbol metadata : Bytes) : Prop :=
  TokenKnown params executions name symbol metadata ∨
    ∃ knownName knownSymbol knownMetadata,
      TokenKnown params executions knownName knownSymbol knownMetadata ∧
      Address.tokenPayload knownName knownSymbol knownMetadata ≠
        Address.tokenPayload name symbol metadata ∧
      Digest.ofMessage (Address.tokenPayload knownName knownSymbol knownMetadata) =
        Digest.ofMessage (Address.tokenPayload name symbol metadata)

/-- What a lookup answers after these executions: it finds every known token, and whatever it finds
is known, unless two payloads collide. -/
structure ExactLookup (params : Params) (executions : List Execution)
    (name symbol metadata : Bytes) (registered : Bool) : Prop where
  finds : TokenKnown params executions name symbol metadata → registered = true
  found : registered = true → TokenKnownOrCollides params executions name symbol metadata

/-- A known token with valid fields explains a lookup that has its address. -/
theorem TokenKnown.or_collides {params : Params} {executions : List Execution}
    {name symbol metadata knownName knownSymbol knownMetadata : Bytes} {decimals : UInt8}
    (known : TokenKnown params executions knownName knownSymbol knownMetadata)
    (checked : TokenRecord.checkFields knownName knownSymbol knownMetadata decimals = .ok ())
    (same : Address.ofToken name symbol metadata =
      .ofToken knownName knownSymbol knownMetadata) :
    TokenKnownOrCollides params executions name symbol metadata := by
  obtain ⟨nameFits, symbolFits, _⟩ := TokenRecord.bounded_of_checkFields checked params.coin
  simp only [TokenRecord.maxName, TokenRecord.maxSymbol] at nameFits symbolFits
  rcases (Address.ofToken_eq_iff (by omega) (by omega)).mp same.symm with
    ⟨rfl, rfl, rfl⟩ | collision
  · exact .inl known
  · exact .inr ⟨_, _, _, known, collision⟩

/-- From an accepted genesis on, the books that a run leaves answer lookups exactly. -/
theorem exactLookup_runSerial {config : GenesisConfig} {genesis : Genesis}
    (accepted : Genesis.ofConfig config = .ok genesis) {store : Store}
    (initial : genesis.initialStore = .ok store) (wellFormed : store.WellFormed)
    (entries : List Entry) (name symbol metadata : Bytes) :
    ExactLookup genesis.params (serialExecutions genesis.params store entries)
      name symbol metadata ((runSerial genesis.params store entries).2.books.token?
        (.ofToken name symbol metadata)).isSome := by
  obtain ⟨isCoin, coinChecked⟩ := LedgerConfig.coin_of_params (Genesis.of_ofConfig accepted).1
  constructor
  · rintro (⟨rfl, rfl, rfl⟩ | ⟨execution, executed, creates⟩)
    · exact (Genesis.holds_coin accepted initial).runSerial wellFormed genesis.params entries
    · exact holds_of_registered wellFormed executed creates.registered?
  · intro found
    rcases created_of_token? wellFormed (Address.kind?_ofToken name symbol metadata) found with early |
      ⟨execution, executed, knownName, knownSymbol, knownMetadata, decimals, creates, same, checked⟩
    · have atCoin := Genesis.eq_coin_of_token? accepted initial early
      rw [isCoin] at atCoin
      exact TokenKnown.or_collides (.inl ⟨rfl, rfl, rfl⟩) coinChecked atCoin
    · exact TokenKnown.or_collides (.inr ⟨execution, executed, creates⟩) checked same

/-- After every run from an accepted genesis, a lookup of any fields answers their address, and
finds exactly the tokens that are known, but for collisions of digests. -/
theorem token_lookup_exact (config : GenesisConfig) (genesis : Genesis)
    (accepted : Genesis.ofConfig config = .ok genesis) :
    ∃ store, genesis.initialStore = .ok store ∧
      ∀ (counters : Telemetry.Counters) (calls : List Call) (actor : Address)
        (name symbol metadata : Bytes),
        ∃ registered,
          ((Ledger.answers ⟨genesis.params, .ofStore store, counters⟩ calls).2.execute actor
              (.getTokenAddress name symbol metadata)).1 =
            .ok (.getTokenAddress (.ofToken name symbol metadata) registered) ∧
          ExactLookup genesis.params
            (executionsIn calls
              (Ledger.answers ⟨genesis.params, .ofStore store, counters⟩ calls).1)
            name symbol metadata registered := by
  obtain ⟨store, initial, sound, _⟩ := Genesis.initialStore_of_ofConfig accepted
  refine ⟨store, initial, fun counters calls actor name symbol metadata => ?_⟩
  have wellFormed := (Registry.of_ofConfig accepted initial []).wellFormed
  obtain ⟨responses, ran, entries, later, answered, replays⟩ :=
    answers_replayed genesis.params sound counters calls
  obtain ⟨counted, executed⟩ := Ledger.execute_ofStore genesis.params
    (runSerial genesis.params store entries).2 later actor (.getTokenAddress name symbol metadata)
  rw [answered, executed, replays.executions]
  exact ⟨_, Action.effect_getTokenAddress (wellFormed_runSerial wellFormed genesis.params entries)
    genesis.params actor name symbol metadata,
    exactLookup_runSerial accepted initial wellFormed entries name symbol metadata⟩

/-- A batch that creates a token twice, and an attempt to create one with an empty name. -/
def tokenCalls : List Call :=
  [.executeBatch {} [⟨0, accountOf 1, .createToken (Bytes.ofText "Atoll") (Bytes.ofText "ATL") [] 6⟩,
      ⟨1, accountOf 2, .createToken (Bytes.ofText "Atoll") (Bytes.ofText "ATL") [] 9⟩],
    .execute (accountOf 2) (.createToken [] (Bytes.ofText "ATL") [] 6)]

/-- Afterwards both the token and the coin are found. -/
theorem tokenCalls_found :
    Genesis.ofConfig twoAccounts = .ok twoAccountsGenesis ∧
      ∃ store, twoAccountsGenesis.initialStore = .ok store ∧
        ((Ledger.answers ⟨twoAccountsGenesis.params, .ofStore store, {}⟩ tokenCalls).2.execute
            (accountOf 2) (.getTokenAddress (Bytes.ofText "Atoll") (Bytes.ofText "ATL") [])).1 =
          .ok (.getTokenAddress (.ofToken (Bytes.ofText "Atoll") (Bytes.ofText "ATL") []) true) ∧
        ((Ledger.answers ⟨twoAccountsGenesis.params, .ofStore store, {}⟩ tokenCalls).2.execute
            (accountOf 1) (.getTokenAddress (Bytes.ofText "CFMMVM") (Bytes.ofText "CVM")
              (Bytes.ofText "A constant-function market-maker VM implementation"))).1 =
          .ok (.getTokenAddress defaultCoin true) := by
  have accepted : Genesis.ofConfig twoAccounts = .ok twoAccountsGenesis := by decide +kernel
  obtain ⟨store, initial, lookup⟩ := token_lookup_exact twoAccounts twoAccountsGenesis accepted
  have created : ∃ execution ∈ executionsIn tokenCalls (Ledger.answers
      ⟨twoAccountsGenesis.params, .ofStore store, {}⟩ tokenCalls).1,
      execution.action = .createToken (Bytes.ofText "Atoll") (Bytes.ofText "ATL") [] 6 ∧
      execution.result = .ok (.createToken
        (.ofToken (Bytes.ofText "Atoll") (Bytes.ofText "ATL") [])) := by
    cases initial.symm.trans (Genesis.initialStore_eq accepted)
    decide +kernel
  obtain ⟨execution, executed, isAction, succeeded⟩ := created
  obtain ⟨registered, answer, exact⟩ := lookup {} tokenCalls (accountOf 2) (Bytes.ofText "Atoll")
    (Bytes.ofText "ATL") []
  have isFound := exact.finds (.inr ⟨execution, executed, 6, _, isAction, succeeded⟩)
  obtain ⟨coinRegistered, coinAnswer, coinExact⟩ := lookup {} tokenCalls (accountOf 1)
    (Bytes.ofText "CFMMVM") (Bytes.ofText "CVM")
    (Bytes.ofText "A constant-function market-maker VM implementation")
  have coinFound := coinExact.finds (.inl (by decide +kernel))
  rw [isFound] at answer
  rw [coinFound] at coinAnswer
  exact ⟨accepted, store, initial, answer, coinAnswer⟩

end PoolLedger
