import PoolLedger.Proofs.ActionAnswer
import PoolLedger.Proofs.ActionGrant
import PoolLedger.Proofs.CoinTotal

/-!
# Safety of one action

In a store whose balance and domain records can be read and whose coins fit into
an amount, no action meets a fault or an overflow.  A successful one leaves such
a store, with as many coins less as it has paid to nobody.
-/

namespace PoolLedger

/-- The coins that an action has paid to nobody: the price of a domain. -/
def Output.paid : Output → Nat
  | .claimDomain amount => amount.toNat
  | _ => 0

/-- Every balance and domain record can be read, and all coins fit into an amount. -/
structure Store.Sound (store : Store) : Prop where
  readable : store.Readable
  bounded : store.coinTotal < 2 ^ 64

/-- The run of an action met no fault and no overflow; if it succeeded, only the price of a
domain is missing from the coins. -/
def Harmless (store : Store) : Except ActionError Output × Store → Prop
  | (.ok output, after) => after.Readable ∧ after.coinTotal + output.paid = store.coinTotal
  | (.error error, _) => error ≠ .balanceOverflow ∧ ∀ fault, error ≠ .state fault

theorem TokenRecord.checkFields_error {name symbol metadata : Bytes} {decimals : UInt8}
    {error : ActionError} (refused : checkFields name symbol metadata decimals = .error error) :
    error ≠ .balanceOverflow ∧ ∀ fault, error ≠ .state fault := by
  unfold checkFields at refused
  repeat' split at refused
  all_goals cases refused
  all_goals exact ⟨nofun, nofun⟩

namespace Action

section Safety

variable {store : Store} (sound : store.Sound)

include sound

theorem harmless_unchanged (output : Output) (free : output.paid = 0) :
    Harmless store (.ok output, store) :=
  ⟨sound.readable, by rw [free, Nat.add_zero]⟩

theorem harmless_transfer (actor recipient : Address) (value : Amount) (memo : Bytes) :
    Harmless store ((runTransfer actor recipient value memo).run .store store) := by
  obtain ⟨available, actorFound⟩ := sound.readable.balance actor
  obtain ⟨current, recipientFound⟩ := sound.readable.balance recipient
  rw [run_transfer value memo actorFound recipientFound]
  split
  · exact ⟨nofun, nofun⟩
  split
  · exact ⟨nofun, nofun⟩
  cases enough : Amount.sub? available value with
  | none => exact ⟨nofun, nofun⟩
  | some remaining =>
      have left := Amount.toNat_of_sub? enough
      simp only
      split
      · exact harmless_unchanged sound _ rfl
      · rename_i distinct
        have together := Store.balances_le_coinTotal distinct actorFound recipientFound
        have bounded := sound.bounded
        cases sum : Amount.add? current value with
        | none =>
            -- The receiver holds what the sender has not yet given.
            have large := Amount.size_le_of_add? sum
            unfold UInt64.size at large
            omega
        | some received =>
            have gained := Amount.toNat_of_add? sum
            have credited := Store.coinTotal_setBalance recipientFound received
            have actorStill := (Store.balance_setBalance_of_ne store distinct received).trans
              actorFound
            have debited := Store.coinTotal_setBalance actorStill remaining
            refine ⟨(sound.readable.setBalance recipient received).setBalance actor remaining, ?_⟩
            simp only [Output.paid]
            omega

theorem harmless_claimDomain (actor : Address) (domain : String) :
    Harmless store ((runClaimDomain actor domain).run .store store) := by
  obtain ⟨available, actorFound⟩ := sound.readable.balance actor
  obtain ⟨owner, ownerFound⟩ := sound.readable.domainOwner domain
  rw [run_claimDomain domain actorFound ownerFound]
  split
  · exact ⟨nofun, nofun⟩
  split
  · exact ⟨nofun, nofun⟩
  split
  · exact ⟨nofun, nofun⟩
  generalize (10 : Amount) ^ (11 - (Bytes.ofText domain).length) = price
  cases enough : Amount.sub? available price with
  | none =>
      simp only [enough]
      exact ⟨nofun, nofun⟩
  | some remaining =>
      have left := Amount.toNat_of_sub? enough
      have debited := Store.coinTotal_setBalance actorFound remaining
      simp only [enough]
      refine ⟨(sound.readable.setBalance actor remaining).setDomainOwner domain actor, ?_⟩
      rw [Store.coinTotal_setDomainOwner]
      simp only [Output.paid]
      omega

theorem harmless_hi (actor : Address) (name : Bytes) :
    Harmless store ((runHi actor name).run .store store) := by
  obtain ⟨available, actorFound⟩ := sound.readable.balance actor
  rw [run_hi name actorFound]
  split
  · exact ⟨nofun, nofun⟩
  · exact harmless_unchanged sound _ rfl

theorem harmless_whois (domain : String) :
    Harmless store ((runWhois domain).run .store store) := by
  obtain ⟨owner, ownerFound⟩ := sound.readable.domainOwner domain
  rw [run_whois domain ownerFound]
  exact harmless_unchanged sound _ rfl

theorem harmless_createToken (actor : Address) (name symbol metadata : Bytes) (decimals : UInt8) :
    Harmless store ((runCreateToken actor name symbol metadata decimals).run .store store) := by
  rw [run_createToken]
  cases checked : TokenRecord.checkFields name symbol metadata decimals with
  | error error => exact TokenRecord.checkFields_error checked
  | ok passed =>
      simp only
      split
      · exact ⟨nofun, nofun⟩
      · exact ⟨sound.readable.setToken _ _, Store.coinTotal_setToken store _ _⟩

theorem harmless_createLiquidityPool (params : Params) (actor : Address) (functionId : UInt8)
    (tokenX tokenY : Address) (fee : UInt64) :
    Harmless store
      ((runCreateLiquidityPool params actor functionId tokenX tokenY fee).run .store store) := by
  rw [run_createLiquidityPool]
  simp only
  split
  · exact ⟨nofun, nofun⟩
  split
  · exact ⟨nofun, nofun⟩
  split
  · exact ⟨nofun, nofun⟩
  split
  · exact ⟨nofun, nofun⟩
  split
  · exact ⟨nofun, nofun⟩
  · refine ⟨(sound.readable.setToken _ _).setPool _ _, ?_⟩
    rw [Store.coinTotal_setPool, Store.coinTotal_setToken]
    rfl

/-- No action harms a sound store. -/
theorem harmless (params : Params) (actor : Address) (action : Action) :
    Harmless store ((action.program params actor).run .store store) := by
  cases action with
  | transfer recipient value memo => exact harmless_transfer sound actor recipient value memo
  | hi name => exact harmless_hi sound actor name
  | claimDomain domain => exact harmless_claimDomain sound actor domain
  | whois domain => exact harmless_whois sound domain
  | createToken name symbol metadata decimals =>
      exact harmless_createToken sound actor name symbol metadata decimals
  | getTokenAddress name symbol metadata => exact harmless_unchanged sound _ rfl
  | createLiquidityPool functionId tokenX tokenY fee =>
      exact harmless_createLiquidityPool sound params actor functionId tokenX tokenY fee

end Safety

end Action

end PoolLedger
