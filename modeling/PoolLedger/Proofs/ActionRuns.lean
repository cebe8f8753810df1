import Mathlib.Data.UInt
import PoolLedger.Action.Execution
import PoolLedger.Proofs.RecordRuns

/-!
# Runs of the actions against a plain store

What each action answers and which store it leaves, when the records that it
reads are well formed.
-/

namespace PoolLedger

theorem Amount.ne_zero_of_sub? {available amount remaining : Amount}
    (enough : sub? available amount = some remaining) (positive : amount ≠ 0) :
    available ≠ 0 := by
  rintro rfl
  have sum := toNat_of_sub? enough
  apply positive
  apply UInt64.toNat_inj.mp
  simp only [UInt64.toNat_zero] at sum ⊢
  omega

namespace Program

variable {store : Store} {account : Address} {current : Amount}

theorem run_credit (found : store.balance account = .ok current) (amount : Amount) :
    (credit account amount).run .store store =
      match Amount.add? current amount with
      | none => (.error .balanceOverflow, store)
      | some updated => (.ok updated, store.setBalance account updated) := by
  rw [credit, run_bind_of_ok (run_balance_eq_ok_iff.mpr ⟨found, rfl⟩)]
  cases Amount.add? current amount <;> rfl

theorem run_debit (found : store.balance account = .ok current) (amount : Amount) :
    (debit account amount).run .store store =
      match Amount.sub? current amount with
      | none => (.error (.insufficientFunds amount current), store)
      | some remaining => (.ok remaining, store.setBalance account remaining) := by
  rw [debit, run_bind_of_ok (run_balance_eq_ok_iff.mpr ⟨found, rfl⟩)]
  cases Amount.sub? current amount <;> rfl

/-- A debit that succeeds has read a balance and stored the difference. -/
theorem of_run_debit {amount remaining : Amount} {after : Store}
    (ran : (debit account amount).run .store store = (.ok remaining, after)) :
    ∃ current, store.balance account = .ok current ∧
      Amount.sub? current amount = some remaining ∧ after = store.setBalance account remaining := by
  rw [debit, run_bind_eq_ok_iff] at ran
  obtain ⟨current, _, balanceRead, ran⟩ := ran
  obtain ⟨found, rfl⟩ := run_balance_eq_ok_iff.mp balanceRead
  cases difference : Amount.sub? current amount with
  | none =>
      rw [difference] at ran
      cases ran
  | some rest =>
      rw [difference] at ran
      cases ran
      exact ⟨current, found, difference, rfl⟩

/-- A credit that succeeds has read a balance and stored the sum. -/
theorem of_run_credit {amount received : Amount} {after : Store}
    (ran : (credit account amount).run .store store = (.ok received, after)) :
    ∃ current, store.balance account = .ok current ∧
      Amount.add? current amount = some received ∧ after = store.setBalance account received := by
  rw [credit, run_bind_eq_ok_iff] at ran
  obtain ⟨current, _, balanceRead, ran⟩ := ran
  obtain ⟨found, rfl⟩ := run_balance_eq_ok_iff.mp balanceRead
  cases sum : Amount.add? current amount with
  | none =>
      rw [sum] at ran
      cases ran
  | some updated =>
      rw [sum] at ran
      cases ran
      exact ⟨current, found, sum, rfl⟩

end Program

namespace Action

open Program

variable {store : Store} {actor recipient : Address} {available current : Amount}

theorem run_transfer (value : Amount) (memo : Bytes)
    (actorFound : store.balance actor = .ok available)
    (recipientFound : store.balance recipient = .ok current) :
    (runTransfer actor recipient value memo).run .store store =
      if value = 0 then (.error .zeroTransfer, store)
      else if maxMemo < memo.length then (.error (.memoTooLarge memo.length maxMemo), store)
      else
        match Amount.sub? available value with
        | none => (.error (.insufficientFunds value available), store)
        | some remaining =>
            if actor = recipient then (.ok (.transfer available available), store)
            else
              match Amount.add? current value with
              | none => (.error .balanceOverflow, store)
              | some received =>
                  (.ok (.transfer remaining received),
                    (store.setBalance recipient received).setBalance actor remaining) := by
  by_cases zero : value = 0
  · simp [runTransfer, zero]
  by_cases long : maxMemo < memo.length
  · simp [runTransfer, zero, Nat.not_le.mpr long, long]
  simp only [runTransfer, run_check_bind, bne_iff_ne, ne_eq, zero, not_false_eq_true, if_true,
    decide_eq_true_eq, Nat.le_of_not_lt long, if_false, long]
  rw [run_bind_of_ok (run_balance_eq_ok_iff.mpr ⟨actorFound, rfl⟩)]
  cases Amount.sub? available value with
  | none => rfl
  | some remaining =>
      simp only
      split
      · rfl
      · rw [run_bind, run_credit recipientFound]
        cases Amount.add? current value <;> rfl

theorem domainPrice_of_claimable {length : Nat} (notShort : minDomain ≤ length)
    (notLong : length ≤ maxDomain) :
    (domainPrice? length).getD (.ofNat (UInt64.size - 1)) = 10 ^ (11 - length) := by
  rw [domainPrice?, if_pos ⟨notShort, notLong⟩]
  rfl

theorem toNat_domainPrice {length : Nat} (notShort : minDomain ≤ length)
    (notLong : length ≤ maxDomain) :
    ((domainPrice? length).getD (.ofNat (UInt64.size - 1))).toNat = 10 ^ (11 - length) := by
  have powers : ∀ exponent < 10, ((10 : Amount) ^ exponent).toNat = 10 ^ exponent := by decide
  rw [domainPrice_of_claimable notShort notLong]
  simp only [minDomain] at notShort
  exact powers (11 - length) (by omega)

theorem domainPrice_ne_zero {length : Nat} (notShort : minDomain ≤ length)
    (notLong : length ≤ maxDomain) :
    (domainPrice? length).getD (.ofNat (UInt64.size - 1)) ≠ 0 := by
  intro free
  have price := toNat_domainPrice notShort notLong
  have positive : 0 < 10 ^ (11 - length) := Nat.pow_pos (Nat.zero_lt_succ 9)
  rw [free] at price
  exact absurd price (Nat.ne_of_lt positive)

theorem run_claimDomain (domain : String) {owner : Option Address}
    (actorFound : store.balance actor = .ok available)
    (ownerFound : store.domainOwner domain = .ok owner) :
    (runClaimDomain actor domain).run .store store =
      if (Bytes.ofText domain).length < minDomain then
        (.error (.domainTooShort (Bytes.ofText domain).length minDomain), store)
      else if maxDomain < (Bytes.ofText domain).length then
        (.error (.domainTooLong (Bytes.ofText domain).length maxDomain), store)
      else if owner.isSome then (.error (.domainAlreadyTaken domain), store)
      else
        let price : Amount := 10 ^ (11 - (Bytes.ofText domain).length)
        match Amount.sub? available price with
        | none => (.error (.insufficientFunds price available), store)
        | some remaining =>
            (.ok (.claimDomain price),
              (store.setBalance actor remaining).setDomainOwner domain actor) := by
  generalize hasLength : (Bytes.ofText domain).length = length
  by_cases short : length < minDomain
  · simp [runClaimDomain, hasLength, Nat.not_le.mpr short, short]
  by_cases long : maxDomain < length
  · simp [runClaimDomain, hasLength, short, Nat.le_of_not_lt short, Nat.not_le.mpr long, long]
  have price := domainPrice_of_claimable (Nat.le_of_not_lt short) (Nat.le_of_not_lt long)
  simp only [runClaimDomain, hasLength, run_check_bind, decide_eq_true_eq, Nat.le_of_not_lt short,
    Nat.le_of_not_lt long, if_true, short, long, if_false, price]
  rw [run_bind_of_ok (run_domainOwner_eq_ok_iff.mpr ⟨ownerFound, rfl⟩)]
  cases owner with
  | some owner => rfl
  | none =>
      simp only [Option.isNone_none, run_check_bind, if_true, Option.isSome_none,
        Bool.false_eq_true, if_false]
      rw [run_bind, run_debit actorFound]
      cases Amount.sub? available (10 ^ (11 - length)) with
      | none => rfl
      | some remaining =>
          simp only
          rw [run_bind_of_ok (run_setDomainOwner domain actor)]
          rfl

theorem run_hi (name : Bytes) (actorFound : store.balance actor = .ok available) :
    (runHi actor name).run .store store =
      if maxName < name.length then (.error (.nameTooLarge name.length maxName), store)
      else (.ok (.hi (Bytes.ofText "Hi, " ++ name) available), store) := by
  by_cases long : maxName < name.length
  · simp [runHi, Nat.not_le.mpr long, long]
  simp only [runHi, run_check_bind, decide_eq_true_eq, Nat.le_of_not_lt long, if_true, long,
    if_false]
  rw [run_bind_of_ok (run_balance_eq_ok_iff.mpr ⟨actorFound, rfl⟩)]
  rfl

theorem run_whois (domain : String) {owner : Option Address}
    (ownerFound : store.domainOwner domain = .ok owner) :
    (runWhois domain).run .store store =
      (.ok (.whois owner.isSome (owner.getD .zero)), store) := by
  rw [runWhois, run_bind_of_ok (run_domainOwner_eq_ok_iff.mpr ⟨ownerFound, rfl⟩)]
  rfl

theorem run_createToken (name symbol metadata : Bytes) (decimals : UInt8) :
    (runCreateToken actor name symbol metadata decimals).run .store store =
      match TokenRecord.checkFields name symbol metadata decimals with
      | .error error => (.error error, store)
      | .ok () =>
          let address := Address.ofToken name symbol metadata
          if store.hasToken address then (.error (.tokenAlreadyExists address), store)
          else
            (.ok (.createToken address),
              store.setToken address { name, symbol, metadata, decimals, owner := actor }) := by
  rw [runCreateToken]
  cases checked : TokenRecord.checkFields name symbol metadata decimals with
  | error error => rfl
  | ok passed =>
      have bounded := TokenRecord.bounded_of_checkFields checked actor
      have required : (require (.ok ())).run .store store = (.ok (), store) := rfl
      rw [run_bind_of_ok required, run_bind_of_ok (run_hasToken _), run_check_bind]
      cases registered : store.hasToken (Address.ofToken name symbol metadata) with
      | true => simp only [Bool.not_true, Bool.false_eq_true, if_false, registered, if_true]
      | false =>
          simp only [Bool.not_false, if_true, registered, Bool.false_eq_true, if_false]
          rw [run_bind_of_ok (run_setToken bounded _)]
          rfl

theorem run_getTokenAddress (name symbol metadata : Bytes) :
    (runGetTokenAddress name symbol metadata).run .store store =
      (.ok (.getTokenAddress (.ofToken name symbol metadata)
        (store.hasToken (.ofToken name symbol metadata))), store) :=
  rfl

theorem run_createLiquidityPool (params : Params) (functionId : UInt8) (tokenX tokenY : Address)
    (fee : UInt64) :
    (runCreateLiquidityPool params actor functionId tokenX tokenY fee).run .store store =
      let pool := Address.ofPool tokenX tokenY
      let lpToken := Address.ofPoolToken pool
      if fee = 0 then (.error .invalidFee, store)
      else if !store.hasToken tokenX then (.error .tokenXDoesNotExist, store)
      else if !store.hasToken tokenY then (.error .tokenYDoesNotExist, store)
      else if !params.models.contains functionId then
        (.error (.functionDoesNotExist functionId), store)
      else if store.hasPool pool then (.error (.poolAlreadyExists pool), store)
      else
        (.ok (.createLiquidityPool pool lpToken),
          (store.setToken lpToken (.ofPool pool)).setPool pool
            (.opened functionId tokenX tokenY fee actor lpToken)) := by
  rw [runCreateLiquidityPool]
  by_cases zero : fee = 0
  · simp [zero]
  simp only [run_check_bind, bne_iff_ne, ne_eq, zero, not_false_eq_true, if_true, if_false]
  rw [run_bind_of_ok (run_hasToken tokenX), run_check_bind]
  cases hasX : store.hasToken tokenX with
  | false => rfl
  | true =>
      simp only [if_true, Bool.not_true, Bool.false_eq_true, if_false]
      rw [run_bind_of_ok (run_hasToken tokenY), run_check_bind]
      cases hasY : store.hasToken tokenY with
      | false => rfl
      | true =>
          simp only [if_true, Bool.not_true, Bool.false_eq_true, if_false, run_check_bind]
          cases known : params.models.contains functionId with
          | false => rfl
          | true =>
              simp only [if_true, Bool.not_true, Bool.false_eq_true, if_false]
              rw [run_bind_of_ok (run_hasPool _), run_check_bind]
              cases taken : store.hasPool (Address.ofPool tokenX tokenY) with
              | true => rfl
              | false =>
                  simp only [Bool.not_false, if_true, Bool.false_eq_true, if_false]
                  rw [run_bind_of_ok (run_setToken (TokenRecord.bounded_ofPool _) _),
                    run_bind_of_ok (run_setPool _ _)]
                  rfl

end Action

end PoolLedger
