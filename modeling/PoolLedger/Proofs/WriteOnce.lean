import PoolLedger.Proofs.ExecutionFrame
import PoolLedger.Proofs.RegistrationLog
import PoolLedger.Proofs.RegistryIntegrity

/-!
# Registrations are written once

From an accepted genesis no key ever loses its value, and only balances change
theirs, unless two pools that were created share a digest.
-/

namespace PoolLedger

open Batch

theorem Store.Decodes.record?_eq_none_iff {ι α : Type} {store : Store}
    {decode : Bytes → Except CodecError α} {family : ι → StateKey}
    (decodes : store.Decodes decode family) (name : ι) :
    store.record? decode (family name) = none ↔ store.get? (family name) = none := by
  rw [← Option.not_isSome_iff_eq_none, ← Option.not_isSome_iff_eq_none, decodes.isSome_record?]

/-- The key of the record of a subject. -/
def Subject.key : Subject → StateKey
  | domain name => .ofDomain name
  | token name symbol metadata => .ofToken (.ofToken name symbol metadata)
  | pool tokens => .ofPool (.ofPair tokens)

theorem Store.WellFormed.holds_iff {store : Store} (wellFormed : store.WellFormed)
    (subject : Subject) : store.books.Holds subject ↔ (store.get? subject.key).isSome := by
  cases subject with
  | domain name =>
      rw [Subject.key, ← wellFormed.domains.isSome_record? name]
      simp [Books.Holds, Store.books]
  | token name symbol metadata =>
      rw [Subject.key, ← wellFormed.tokens.isSome_record?]
      rfl
  | pool tokens =>
      rw [Subject.key, ← wellFormed.pools.isSome_record?]
      rfl

/-- An action may change balances, the record of its subject, and the token of a pool. -/
theorem Action.mutable_key {actor : Address} {action : Action} {key : StateKey} {mode : AccessMode}
    (declared : (action.declared actor).get? key = some mode) (mutating : mode.isMutating = true) :
    key.kind? = some .balance ∨
      (∃ subject, action.subject? = some subject ∧ key = subject.key) ∨
      ∃ functionId tokenX tokenY fee,
        action = .createLiquidityPool functionId tokenX tokenY fee ∧
          key = .ofToken (.ofPoolToken (.ofPool tokenX tokenY)) := by
  cases action with
  | transfer recipient value memo =>
      have listed := Declaration.mem_of_get?_ofKeys declared
      simp only [List.mem_cons, Prod.mk.injEq, List.not_mem_nil, or_false] at listed
      rcases listed with ⟨rfl, _⟩ | ⟨rfl, _⟩
      · exact .inl rfl
      · exact .inl rfl
  | hi name =>
      have listed := Declaration.mem_of_get?_ofKeys declared
      cases List.mem_singleton.mp listed
      cases mutating
  | claimDomain domain =>
      have listed := Declaration.mem_of_get?_ofKeys declared
      simp only [List.mem_cons, Prod.mk.injEq, List.not_mem_nil, or_false] at listed
      rcases listed with ⟨rfl, _⟩ | ⟨rfl, _⟩
      · exact .inl rfl
      · exact .inr (.inl ⟨.domain domain, rfl, rfl⟩)
  | whois domain =>
      have listed := Declaration.mem_of_get?_ofKeys declared
      cases List.mem_singleton.mp listed
      cases mutating
  | createToken name symbol metadata decimals =>
      have listed := Declaration.mem_of_get?_ofKeys declared
      cases List.mem_singleton.mp listed
      exact .inr (.inl ⟨.token name symbol metadata, rfl, rfl⟩)
  | getTokenAddress name symbol metadata =>
      have listed := Declaration.mem_of_get?_ofKeys declared
      cases List.mem_singleton.mp listed
      cases mutating
  | createLiquidityPool functionId tokenX tokenY fee =>
      have listed := Declaration.mem_of_get?_ofKeys declared
      simp only [List.mem_cons, Prod.mk.injEq, List.not_mem_nil, or_false] at listed
      rcases listed with ⟨_, rfl⟩ | ⟨_, rfl⟩ | ⟨rfl, _⟩ | ⟨rfl, _⟩
      · cases mutating
      · cases mutating
      · exact .inr (.inl ⟨.pool s(tokenX, tokenY), rfl, rfl⟩)
      · exact .inr (.inr ⟨functionId, tokenX, tokenY, fee, rfl, rfl⟩)

/-- Every key keeps a value, and any key but that of a balance the one that it has. -/
def Store.KeepsRecords (before after : Store) : Prop :=
  ∀ key value, before.get? key = some value →
    ∃ later, after.get? key = some later ∧ (key.kind? ≠ some .balance → later = value)

namespace Store.KeepsRecords

variable {first second third : Store}

theorem refl (store : Store) : store.KeepsRecords store :=
  fun _ value found => ⟨value, found, fun _ => rfl⟩

theorem trans (firstKept : first.KeepsRecords second) (secondKept : second.KeepsRecords third) :
    first.KeepsRecords third := by
  intro key value found
  obtain ⟨middle, foundMiddle, sameMiddle⟩ := firstKept key value found
  obtain ⟨later, foundLater, sameLater⟩ := secondKept key middle foundMiddle
  exact ⟨later, foundLater, fun notBalance =>
    (sameLater notBalance).trans (sameMiddle notBalance)⟩

end Store.KeepsRecords

namespace Registry

variable {params : Params} {created : List Address} {store : Store}

/-- What a successful action may change and is no balance had no value before. -/
theorem absent_of_changes (registry : Registry params created store)
    (distinct : DistinctDigests created) {actor : Address} {action : Action} {output : Output}
    (succeeded : (action.effect params actor store).1 = .ok output)
    (isCreated : ∀ pool lpToken, output = .createLiquidityPool pool lpToken → pool ∈ created)
    {key : StateKey} {mode : AccessMode} (declared : (action.declared actor).get? key = some mode)
    (mutating : mode.isMutating = true) (notBalance : key.kind? ≠ some .balance) :
    store.get? key = none := by
  have answer := Action.answer_of_effect registry.wellFormed succeeded
  rcases Action.mutable_key declared mutating with isBalance | ⟨subject, isSubject, rfl⟩ |
    ⟨functionId, tokenX, tokenY, fee, rfl, rfl⟩
  · exact absurd isBalance notBalance
  · have fresh := Books.not_holds_of_answer answer isSubject
    rw [registry.wellFormed.holds_iff] at fresh
    exact Option.not_isSome_iff_eq_none.mp fresh
  · have fresh : ¬ store.books.Holds (.pool s(tokenX, tokenY)) :=
      Books.not_holds_of_answer answer rfl
    have isOutput : Output.createLiquidityPool (.ofPool tokenX tokenY)
        (.ofPoolToken (.ofPool tokenX tokenY)) = output :=
      congrArg Prod.fst (Books.passes_of_answer answer).2
    have freshToken := registry.linked.token?_ofPoolToken distinct
      (isCreated _ _ isOutput.symm) (Option.not_isSome_iff_eq_none.mp fresh)
    exact (registry.wellFormed.tokens.record?_eq_none_iff _).mp freshToken

/-- An action keeps every key, and changes nothing but balances that was there. -/
theorem keepsRecords_action (registry : Registry params created store)
    (distinct : DistinctDigests created) (actor : Address) (action : Action)
    (isCreated : ∀ pool lpToken,
      (action.effect params actor store).1 = .ok (.createLiquidityPool pool lpToken) →
        pool ∈ created) :
    store.KeepsRecords (store.commit (action.effect params actor store).2) := by
  have framed := Medium.execute_framed params (.ofStore store) actor action
  rw [Medium.execute_ofStore] at framed
  cases result : (action.effect params actor store).1 with
  | error error =>
      rw [result] at framed
      rw [show store.commit (action.effect params actor store).2 = store from
        congrArg Medium.store framed]
      exact .refl store
  | ok output =>
      rw [result] at framed
      intro key value found
      obtain ⟨later, foundLater⟩ :=
        Option.ne_none_iff_exists'.mp (framed.kept key (found ▸ Option.some_ne_none value))
      refine ⟨later, foundLater, fun notBalance => ?_⟩
      by_contra differs
      have changed : (store.commit (action.effect params actor store).2).get? key ≠
          store.get? key := fun same =>
        differs (Option.some.inj (foundLater.symm.trans (same.trans found)))
      obtain ⟨mode, declared, mutating⟩ := framed.changed key changed
      have absent := registry.absent_of_changes distinct result
        (fun pool lpToken isOutput => isCreated pool lpToken (result.trans (isOutput ▸ rfl)))
        declared mutating notBalance
      rw [found] at absent
      cases absent

/-- No later store of a run loses what an earlier one has registered. -/
theorem pairwise_keepsRecords (registry : Registry params created store)
    (distinct : DistinctDigests created) {entries : List Entry}
    (isCreated : ∀ pool lpToken,
      .createLiquidityPool pool lpToken ∈ outputsOf (runSerial params store entries).1 →
        pool ∈ created) :
    (store :: serialStages params store entries).Pairwise Store.KeepsRecords := by
  simp only [mem_outputsOf_iff] at isCreated
  induction entries generalizing store with
  | nil => exact List.pairwise_singleton _ _
  | cons entry rest ih =>
      have isCreatedFirst : ∀ pool lpToken, (entry.action.effect params entry.actor store).1 =
          .ok (.createLiquidityPool pool lpToken) → pool ∈ created := fun pool lpToken answer =>
        isCreated pool lpToken ⟨entry.outcome params store, List.mem_cons_self, answer⟩
      have kept : store.KeepsRecords (entry.after params store) :=
        registry.keepsRecords_action distinct entry.actor entry.action isCreatedFirst
      have later := ih (registry.after_action distinct entry.actor entry.action isCreatedFirst)
        fun pool lpToken ⟨outcome, member, answer⟩ =>
          isCreated pool lpToken ⟨outcome, List.mem_cons_of_mem _ member, answer⟩
      refine List.pairwise_cons.mpr ⟨?_, later⟩
      intro stage member
      rcases List.mem_cons.mp member with rfl | inLater
      · exact kept
      · exact kept.trans (List.rel_of_pairwise_cons later inLater)

end Registry

namespace Genesis

theorem holds_allocate {store : Store} {subject : Subject} (held : store.books.Holds subject)
    (allocations : List Allocation) : (allocate store allocations).books.Holds subject := by
  induction allocations generalizing store with
  | nil => exact held
  | cons head rest ih =>
      refine ih ?_
      rw [Store.books_setBalance]
      exact held.withBalance _

/-- The coin is registered from the start. -/
theorem holds_coin {config : GenesisConfig} {genesis : Genesis}
    (accepted : ofConfig config = .ok genesis) {store : Store}
    (initial : genesis.initialStore = .ok store) :
    store.books.Holds (.token genesis.params.coinRecord.name genesis.params.coinRecord.symbol
      genesis.params.coinRecord.metadata) := by
  obtain ⟨valid, _⟩ := of_ofConfig accepted
  cases initial.symm.trans (initialStore_eq accepted)
  apply holds_allocate
  rw [Store.books_setToken _ _ (LedgerConfig.bounded_coinRecord valid), Books.Holds,
    Books.token?_setToken, if_pos (LedgerConfig.coin_of_params valid).1.symm]
  rfl

end Genesis

/-- The stages of a run, and what was executed in it, register everything once. -/
structure WriteOnce (params : Params) (stages : List Store) (executions : List Execution) :
    Prop where
  /-- At every later stage a key has a value, and the same one unless it is a balance. -/
  kept : stages.Pairwise Store.KeepsRecords
  /-- No domain, no token and no pool of two tokens, in either order, is registered twice. -/
  once : (registeredIn executions).Nodup
  noCoin : .token params.coinRecord.name params.coinRecord.symbol params.coinRecord.metadata ∉
    registeredIn executions
  /-- Lookups of a domain after its claim find the claimer. -/
  informs : executions.Pairwise Execution.Informs

/-- From the first state of an accepted genesis, every run of calls registers everything once and
keeps it, unless two pools that it created share a digest. -/
theorem run_registers_once (config : GenesisConfig) (genesis : Genesis)
    (accepted : Genesis.ofConfig config = .ok genesis) :
    ∃ store, genesis.initialStore = .ok store ∧
      ∀ (counters : Telemetry.Counters) (calls : List Call), ∃ final later,
        (Ledger.answers ⟨genesis.params, .ofStore store, counters⟩ calls).2 =
            ⟨genesis.params, .ofStore final, later⟩ ∧
        (store :: Ledger.stages ⟨genesis.params, .ofStore store, counters⟩ calls).getLast? =
            some final ∧
        (DistinctDigests
            (poolsCreated (Ledger.answers ⟨genesis.params, .ofStore store, counters⟩ calls).1) →
          WriteOnce genesis.params
            (store :: Ledger.stages ⟨genesis.params, .ofStore store, counters⟩ calls)
            (executionsIn calls
              (Ledger.answers ⟨genesis.params, .ofStore store, counters⟩ calls).1)) := by
  obtain ⟨store, initial, sound, _⟩ := Genesis.initialStore_of_ofConfig accepted
  refine ⟨store, initial, fun counters calls => ?_⟩
  obtain ⟨responses, ran, entries, later, answered, replays⟩ :=
    answers_replayed genesis.params sound counters calls
  rw [answered, replays.stages, replays.executions]
  refine ⟨_, later, rfl, ?_, fun distinct => ?_⟩
  · rw [getLast?_serialStages, replays.final]
  · have registry := Registry.of_ofConfig accepted initial (poolsCreated responses)
    refine ⟨registry.pairwise_keepsRecords distinct ?_,
      nodup_registeredIn registry.wellFormed genesis.params entries,
      not_mem_registeredIn registry.wellFormed (Genesis.holds_coin accepted initial) entries,
      pairwise_informs registry.wellFormed genesis.params entries⟩
    intro pool lpToken member
    obtain ⟨outcome, isOutcome, answer⟩ := (mem_outputsOf_iff _ _).mp member
    have isOutput : .createLiquidityPool pool lpToken ∈ outputsIn responses := by
      rw [replays.outputs, mem_outputsOf_iff]
      exact ⟨outcome, replays.outcomes.mem_iff.mp isOutcome, answer⟩
    exact List.mem_filterMap.mpr ⟨_, isOutput, rfl⟩

/-- A batch with a claim, a lookup and a second claim, two pools, one of them again with its
tokens in the other order, the coin again, and another lookup. -/
def repeatedCalls : List Call :=
  [.executeBatch {} [⟨0, accountOf 1, .claimDomain "lighthouse"⟩,
      ⟨1, accountOf 2, .whois "lighthouse"⟩, ⟨2, accountOf 1, .claimDomain "lighthouse"⟩]] ++
    nestedPools ++
    [.execute (accountOf 1) (.createLiquidityPool 1 (.ofPoolToken coinPool) defaultCoin 8),
      .execute (accountOf 1) (.createToken (Bytes.ofText "CFMMVM") (Bytes.ofText "CVM")
        (Bytes.ofText "A constant-function market-maker VM implementation") 9),
      .execute (accountOf 2) (.whois "lighthouse")]

theorem repeatedCalls_register_once :
    Genesis.ofConfig twoAccounts = .ok twoAccountsGenesis ∧
      ∃ store, twoAccountsGenesis.initialStore = .ok store ∧
        DistinctDigests (poolsCreated (Ledger.answers
          ⟨twoAccountsGenesis.params, .ofStore store, {}⟩ repeatedCalls).1) ∧
        registeredIn (executionsIn repeatedCalls (Ledger.answers
            ⟨twoAccountsGenesis.params, .ofStore store, {}⟩ repeatedCalls).1) =
          [.domain "lighthouse", .pool s(defaultCoin, defaultCoin),
            .pool s(defaultCoin, .ofPoolToken coinPool)] ∧
        WriteOnce twoAccountsGenesis.params
          (store :: Ledger.stages ⟨twoAccountsGenesis.params, .ofStore store, {}⟩ repeatedCalls)
          (executionsIn repeatedCalls (Ledger.answers
            ⟨twoAccountsGenesis.params, .ofStore store, {}⟩ repeatedCalls).1) := by
  have accepted : Genesis.ofConfig twoAccounts = .ok twoAccountsGenesis := by decide +kernel
  obtain ⟨store, initial, run⟩ := run_registers_once twoAccounts twoAccountsGenesis accepted
  obtain ⟨final, later, _, _, once⟩ := run {} repeatedCalls
  have created : poolsCreated (Ledger.answers ⟨twoAccountsGenesis.params, .ofStore store, {}⟩
      repeatedCalls).1 = [coinPool, nestedPool] := by
    cases initial.symm.trans (Genesis.initialStore_eq accepted)
    decide +kernel
  have distinct : DistinctDigests [coinPool, nestedPool] := by
    unfold DistinctDigests
    decide +kernel
  rw [← created] at distinct
  refine ⟨accepted, store, initial, distinct, ?_, once distinct⟩
  cases initial.symm.trans (Genesis.initialStore_eq accepted)
  decide +kernel

end PoolLedger
