import PoolLedger.Proofs.CoinTotal
import PoolLedger.Proofs.ExecutionFrame
import PoolLedger.Proofs.StoredBooks

/-!
# Whose coins an action spends

An action takes coins from the account of its actor only.  Another account can
gain by a transfer to it, and nothing else that an action writes is a balance.
-/

namespace PoolLedger

open Batch

namespace Store

theorem balance_congr {first second : Store} {account : Address}
    (same : first.get? (.ofBalance account) = second.get? (.ofBalance account)) :
    first.balance account = second.balance account := by
  rw [balance, same, balance]

end Store

namespace Action

open Program

/-- The accounts whose balance an action may change. -/
def MayChange (actor account : Address) : Action → Prop
  | transfer recipient _ _ => account = actor ∨ account = recipient
  | claimDomain _ => account = actor
  | _ => False

/-- No key of a token, a domain or a pool is that of a balance, and no two accounts share one. -/
theorem mayChange_of_declared {actor account : Address} {action : Action} {mode : AccessMode}
    (declared : (action.declared actor).get? (.ofBalance account) = some mode)
    (mutating : mode.isMutating = true) : action.MayChange actor account := by
  have notToken : ∀ token, StateKey.ofBalance account ≠ StateKey.ofToken token :=
    fun token => StateKey.ne_of_kind (by simp)
  cases action with
  | transfer recipient value memo =>
      have listed := Declaration.mem_of_get?_ofKeys declared
      simp only [List.mem_cons, Prod.mk.injEq, List.not_mem_nil, or_false,
        StateKey.ofBalance_inj] at listed
      exact listed.imp And.left And.left
  | hi name =>
      have listed := Declaration.mem_of_get?_ofKeys declared
      cases (Prod.mk.inj (List.mem_singleton.mp listed)).2
      cases mutating
  | claimDomain domain =>
      have notDomain : StateKey.ofBalance account ≠ StateKey.ofDomain domain :=
        StateKey.ne_of_kind (by simp)
      have listed := Declaration.mem_of_get?_ofKeys declared
      simp only [List.mem_cons, Prod.mk.injEq, List.not_mem_nil, or_false, StateKey.ofBalance_inj,
        notDomain, false_and] at listed
      exact listed.1
  | whois domain =>
      have listed := Declaration.mem_of_get?_ofKeys declared
      cases (Prod.mk.inj (List.mem_singleton.mp listed)).2
      cases mutating
  | createToken name symbol metadata decimals =>
      have listed := Declaration.mem_of_get?_ofKeys declared
      exact notToken _ (Prod.mk.inj (List.mem_singleton.mp listed)).1
  | getTokenAddress name symbol metadata =>
      have listed := Declaration.mem_of_get?_ofKeys declared
      cases (Prod.mk.inj (List.mem_singleton.mp listed)).2
      cases mutating
  | createLiquidityPool functionId tokenX tokenY fee =>
      have notPool : ∀ pool, StateKey.ofBalance account ≠ StateKey.ofPool pool :=
        fun pool => StateKey.ne_of_kind (by simp)
      have listed := Declaration.mem_of_get?_ofKeys declared
      simp [notToken, notPool] at listed

section Runs

variable {store after : Store} {actor recipient : Address} {output : Output}

/-- A transfer that succeeds has moved its value to another account, or nothing at all. -/
theorem of_run_transfer {value : Amount} {memo : Bytes}
    (ran : (runTransfer actor recipient value memo).run .store store = (.ok output, after)) :
    (recipient = actor ∧ after = store) ∨
      recipient ≠ actor ∧ ∃ available remaining current received,
        store.balance actor = .ok available ∧ remaining.toNat + value.toNat = available.toNat ∧
        store.balance recipient = .ok current ∧ received.toNat = current.toNat + value.toNat ∧
        after = (store.setBalance recipient received).setBalance actor remaining := by
  rw [runTransfer, run_check_bind_eq_ok_iff, run_check_bind_eq_ok_iff, run_bind_eq_ok_iff] at ran
  obtain ⟨_, _, available, _, found, ran⟩ := ran
  obtain ⟨actorFound, rfl⟩ := run_balance_eq_ok_iff.mp found
  cases enough : Amount.sub? available value with
  | none =>
      rw [enough] at ran
      cases ran
  | some remaining =>
      simp only [enough] at ran
      by_cases same : actor = recipient
      · rw [if_pos same] at ran
        cases ran
        exact .inl ⟨same.symm, rfl⟩
      · rw [if_neg same] at ran
        obtain ⟨received, _, credited, ran⟩ := run_bind_eq_ok_iff.mp ran
        obtain ⟨current, recipientFound, sum, rfl⟩ := of_run_credit credited
        rw [run_bind_of_ok (run_setBalance actor remaining)] at ran
        cases ran
        exact .inr ⟨Ne.symm same, available, remaining, current, received, actorFound,
          Amount.toNat_of_sub? enough, recipientFound, Amount.toNat_of_add? sum, rfl⟩

/-- A claim that succeeds has taken the price from the actor. -/
theorem of_run_claimDomain {domain : String}
    (ran : (runClaimDomain actor domain).run .store store = (.ok output, after)) :
    ∃ available remaining, store.balance actor = .ok available ∧
      remaining.toNat + 10 ^ (11 - domain.utf8ByteSize) = available.toNat ∧
      after = (store.setBalance actor remaining).setDomainOwner domain actor := by
  rw [runClaimDomain, run_check_bind_eq_ok_iff, run_check_bind_eq_ok_iff, run_bind_eq_ok_iff] at ran
  obtain ⟨notShort, notLong, owner, _, found, ran⟩ := ran
  obtain ⟨_, rfl⟩ := run_domainOwner_eq_ok_iff.mp found
  rw [run_check_bind_eq_ok_iff, run_bind_eq_ok_iff] at ran
  obtain ⟨_, remaining, _, debited, ran⟩ := ran
  obtain ⟨available, actorFound, enough, rfl⟩ := of_run_debit debited
  rw [run_bind_of_ok (run_setDomainOwner domain actor)] at ran
  cases ran
  have price := toNat_domainPrice (of_decide_eq_true notShort) (of_decide_eq_true notLong)
  rw [Bytes.length_ofText] at price
  refine ⟨available, remaining, actorFound, ?_, rfl⟩
  rw [← price]
  exact Amount.toNat_of_sub? enough

end Runs

/-- The coins that an execution with this result gives to an account other than the actor's. -/
def given (account : Address) : Action → Except ExecutionError Output → Nat
  | transfer recipient value _, .ok _ => if recipient = account then value.toNat else 0
  | _, _ => 0

/-- The coins that an execution with this result takes from the actor, if it changes the balance of
the actor at all. -/
def spent? (actor : Address) : Action → Except ExecutionError Output → Option Nat
  | transfer recipient value _, .ok _ => if recipient = actor then none else some value.toNat
  | claimDomain domain, .ok _ => some (10 ^ (11 - domain.utf8ByteSize))
  | _, _ => none

theorem given_eq_zero {actor account : Address} {action : Action}
    (mayNot : ¬ action.MayChange actor account) (result : Except ExecutionError Output) :
    action.given account result = 0 := by
  cases action with
  | transfer recipient value memo =>
      cases result with
      | error error => rfl
      | ok output => exact if_neg fun same => mayNot (.inr same.symm)
  | hi | claimDomain | whois | createToken | getTokenAddress | createLiquidityPool => rfl

theorem spent?_error (actor : Address) (action : Action) (error : ExecutionError) :
    action.spent? actor (.error error) = none := by
  cases action <;> rfl

end Action

namespace Ledger

/-- A balance that an action may not change keeps its stored value. -/
theorem execute_keeps_balance (ledger : Ledger) {actor account : Address} {action : Action}
    (mayNot : ¬ action.MayChange actor account) :
    (ledger.execute actor action).2.medium.store.get? (.ofBalance account) =
      ledger.medium.store.get? (.ofBalance account) := by
  have framed := ledger.execute_framed actor action
  rcases executed : ledger.execute actor action with ⟨result, after⟩
  rw [executed] at framed
  cases result with
  | error error => rw [framed]
  | ok output =>
      by_contra differs
      obtain ⟨mode, declared, mutating⟩ := framed.changed _ differs
      exact mayNot (Action.mayChange_of_declared declared mutating)

/-- Another account gains what a successful transfer to it moves, and nothing else changes its
balance. -/
theorem execute_gives (ledger : Ledger) (action : Action) {actor other : Address} {before : Amount}
    (isOther : other ≠ actor) (found : ledger.medium.store.balance other = .ok before) :
    ∃ later, (ledger.execute actor action).2.medium.store.balance other = .ok later ∧
      later.toNat = before.toNat + action.given other (ledger.execute actor action).1 := by
  -- What may change the balance of another account can only be a transfer to it.
  by_cases may : action.MayChange actor other
  · cases action with
    | transfer recipient value memo =>
        obtain rfl : other = recipient := may.resolve_left isOther
        have framed := ledger.execute_framed actor (.transfer other value memo)
        rcases executed : ledger.execute actor (.transfer other value memo) with ⟨result, after⟩
        rw [executed] at framed
        cases result with
        | error error =>
            refine ⟨before, ?_, rfl⟩
            rw [framed]
            exact found
        | ok output =>
            rcases Action.of_run_transfer (run_of_execute executed) with ⟨isActor, _⟩ | ⟨_, moved⟩
            · exact absurd isActor isOther
            · obtain ⟨_, remaining, current, received, _, _, otherFound, gained, final⟩ := moved
              rw [found] at otherFound
              cases otherFound
              refine ⟨received, ?_, ?_⟩
              · rw [final, Store.balance_setBalance_of_ne _ isOther, Store.balance_setBalance_self]
              · rw [Action.given, if_pos rfl]
                exact gained
    | claimDomain domain => exact absurd may isOther
    | hi | whois | createToken | getTokenAddress | createLiquidityPool => exact may.elim
  · refine ⟨before, ?_, ?_⟩
    · exact (Store.balance_congr (ledger.execute_keeps_balance may)).trans found
    · rw [Action.given_eq_zero may, Nat.add_zero]

/-- The actor pays the value of a successful transfer to another account and the price of a
successful claim, and nothing else changes the balance of the actor. -/
theorem execute_spends (ledger : Ledger) (actor : Address) (action : Action) :
    match action.spent? actor (ledger.execute actor action).1 with
    | none =>
        (ledger.execute actor action).2.medium.store.get? (.ofBalance actor) =
          ledger.medium.store.get? (.ofBalance actor)
    | some coins => ∃ before later, ledger.medium.store.balance actor = .ok before ∧
        (ledger.execute actor action).2.medium.store.balance actor = .ok later ∧
        later.toNat + coins = before.toNat := by
  have framed := ledger.execute_framed actor action
  have keeps : ¬ action.MayChange actor actor →
      (ledger.execute actor action).2.medium.store.get? (.ofBalance actor) =
        ledger.medium.store.get? (.ofBalance actor) :=
    ledger.execute_keeps_balance
  rcases executed : ledger.execute actor action with ⟨result, after⟩
  rw [executed] at framed keeps
  cases result with
  | error error => rw [Action.spent?_error, framed]
  | ok output =>
      have ran := run_of_execute executed
      cases action with
      | transfer recipient value memo =>
          rcases Action.of_run_transfer ran with ⟨rfl, final⟩ | ⟨isOther, moved⟩
          · simp only [Action.spent?, if_true, final]
          · obtain ⟨available, remaining, _, _, actorFound, left, _, _, final⟩ := moved
            simp only [Action.spent?, if_neg isOther]
            refine ⟨available, remaining, actorFound, ?_, left⟩
            rw [final, Store.balance_setBalance_self]
      | claimDomain domain =>
          obtain ⟨available, remaining, actorFound, left, final⟩ := Action.of_run_claimDomain ran
          refine ⟨available, remaining, actorFound, ?_, left⟩
          rw [final, Store.balance_setDomainOwner, Store.balance_setBalance_self]
      | hi | whois | createToken | getTokenAddress | createLiquidityPool => exact keeps nofun

/-- Nobody spends the coins of another account.  Whatever is executed, every other account whose
balance can be read keeps at least its coins; it has more only after a successful transfer to it,
by the value that was transferred.  The balance of the actor changes only by a successful transfer
to another account and a successful claim, which take exactly the value and the price. -/
theorem coins_spent_by_their_owner (ledger : Ledger) (actor : Address) (action : Action) :
    (∀ other before, other ≠ actor → ledger.medium.store.balance other = .ok before →
      ∃ later, (ledger.execute actor action).2.medium.store.balance other = .ok later ∧
        later.toNat = before.toNat + action.given other (ledger.execute actor action).1) ∧
    match action.spent? actor (ledger.execute actor action).1 with
    | none =>
        (ledger.execute actor action).2.medium.store.get? (.ofBalance actor) =
          ledger.medium.store.get? (.ofBalance actor)
    | some coins => ∃ before later, ledger.medium.store.balance actor = .ok before ∧
        (ledger.execute actor action).2.medium.store.balance actor = .ok later ∧
        later.toNat + coins = before.toNat :=
  ⟨fun _ _ isOther found => ledger.execute_gives action isOther found,
    ledger.execute_spends actor action⟩

/-- A transfer of three coins from the first account of the crossed transfers to the second. -/
theorem transfer_spends_own_coins :
    ∃ paid left,
      (Ledger.execute ⟨crossedParams, .ofStore crossedStore, {}⟩ (accountOf 1)
        (.transfer (accountOf 2) 3 [])).2.medium.store.balance (accountOf 2) = .ok paid ∧
      paid.toNat = 4 + 3 ∧
      (Ledger.execute ⟨crossedParams, .ofStore crossedStore, {}⟩ (accountOf 1)
        (.transfer (accountOf 2) 3 [])).2.medium.store.balance (accountOf 1) = .ok left ∧
      left.toNat + 3 = 9 := by
  have answer : (Ledger.execute ⟨crossedParams, .ofStore crossedStore, {}⟩ (accountOf 1)
      (.transfer (accountOf 2) 3 [])).1 = .ok (.transfer 6 7) := by
    decide +kernel
  obtain ⟨others, own⟩ := coins_spent_by_their_owner ⟨crossedParams, .ofStore crossedStore, {}⟩
    (accountOf 1) (.transfer (accountOf 2) 3 [])
  obtain ⟨paid, paidFound, gained⟩ := others (accountOf 2) 4 (by decide) (by decide +kernel)
  rw [answer] at own gained
  obtain ⟨available, left, actorFound, leftFound, spent⟩ := own
  have had : crossedStore.balance (accountOf 1) = .ok 9 := by decide +kernel
  cases had.symm.trans actorFound
  exact ⟨paid, left, paidFound, gained, leftFound, spent⟩

end Ledger

end PoolLedger
