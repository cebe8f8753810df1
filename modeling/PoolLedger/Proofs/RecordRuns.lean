import PoolLedger.Program.Records
import PoolLedger.Proofs.ProgramGrant
import PoolLedger.Proofs.RecordKeys

/-!
# Reading and writing records in a plain store

What the programs over records find in a store, and the store that they leave.
-/

namespace PoolLedger

namespace Store

/-- The balance of an account, if the stored value is one. -/
def balance (store : Store) (account : Address) : Except CodecError Amount :=
  match store.get? (.ofBalance account) with
  | none => .ok 0
  | some bytes => BalanceRecord.decode bytes

/-- The owner of a domain, if the stored value names one. -/
def domainOwner (store : Store) (domain : String) : Except CodecError (Option Address) :=
  match store.get? (.ofDomain domain) with
  | none => .ok none
  | some bytes => (DomainRecord.decode bytes).map fun record => some record.owner

/-- The store with another balance. -/
def setBalance (store : Store) (account : Address) (amount : Amount) : Store :=
  store.insert (.ofBalance account) (BalanceRecord.encode amount)

/-- The store with another owner of a domain. -/
def setDomainOwner (store : Store) (domain : String) (owner : Address) : Store :=
  store.insert (.ofDomain domain) owner.bytes

/-- Whether a token has a record. -/
def hasToken (store : Store) (token : Address) : Bool :=
  (store.get? (.ofToken token)).isSome

/-- Whether a pool has a record. -/
def hasPool (store : Store) (pool : Address) : Bool :=
  (store.get? (.ofPool pool)).isSome

/-- The store with a value that was encoded, or as it is if nothing was. -/
def setEncoded (store : Store) (key : StateKey) : Except CodecError Bytes → Store
  | .ok bytes => store.insert key bytes
  | .error _ => store

/-- The store with another record of a token. -/
def setToken (store : Store) (token : Address) (record : TokenRecord) : Store :=
  store.setEncoded (.ofToken token) record.encode

/-- The store with another record of a pool. -/
def setPool (store : Store) (pool : Address) (record : PoolRecord) : Store :=
  store.setEncoded (.ofPool pool) record.encode

/-- An account with a balance other than zero has a stored value. -/
theorem exists_of_balance_ne_zero {store : Store} {account : Address} {amount : Amount}
    (found : store.balance account = .ok amount) (positive : amount ≠ 0) :
    ∃ old, store.get? (.ofBalance account) = some old := by
  cases stored : store.get? (.ofBalance account) with
  | some old => exact ⟨old, rfl⟩
  | none =>
      simp only [balance, stored] at found
      cases found
      exact absurd rfl positive

theorem exists_get?_insert {store : Store} {key : StateKey} {old : Bytes}
    (stored : store.get? key = some old) (other : StateKey) (value : Bytes) :
    ∃ new, (store.insert other value).get? key = some new := by
  rw [SortedMap.get?_insert]
  split
  · exact ⟨value, rfl⟩
  · exact ⟨old, stored⟩

end Store

namespace Program

variable {ε α : Type} [CarriesFault ε] {store : Store}

theorem run_read (key : StateKey) (decode : Bytes → Except CodecError α) :
    (read key decode : Program ε (Option α)).run .store store =
      match store.get? key with
      | none => (.ok none, store)
      | some bytes =>
          match decode bytes with
          | .ok record => (.ok (some record), store)
          | .error cause => (.error (CarriesFault.ofFault (.corruptValue key cause)), store) := by
  simp only [read, run, Backend.store]
  cases store.get? key with
  | none => rfl
  | some bytes =>
      simp only
      cases decode bytes <;> rfl

theorem run_balance (account : Address) :
    (balance account : Program ε Amount).run .store store =
      match store.balance account with
      | .ok amount => (.ok amount, store)
      | .error cause =>
          (.error (CarriesFault.ofFault (.corruptValue (.ofBalance account) cause)), store) := by
  rw [balance, run_bind, run_read, Store.balance]
  cases store.get? (.ofBalance account) with
  | none => rfl
  | some bytes =>
      simp only
      cases BalanceRecord.decode bytes <;> rfl

theorem run_balance_eq_ok_iff {account : Address} {amount : Amount} {after : Store} :
    (balance account : Program ε Amount).run .store store = (.ok amount, after) ↔
      store.balance account = .ok amount ∧ after = store := by
  rw [run_balance]
  cases store.balance account with
  | error cause => simp
  | ok found => simp [eq_comm]

theorem run_domainOwner (domain : String) :
    (domainOwner domain : Program ε (Option Address)).run .store store =
      match store.domainOwner domain with
      | .ok owner => (.ok owner, store)
      | .error cause =>
          (.error (CarriesFault.ofFault (.corruptValue (.ofDomain domain) cause)), store) := by
  rw [domainOwner, run_bind, run_read, Store.domainOwner]
  cases store.get? (.ofDomain domain) with
  | none => rfl
  | some bytes =>
      simp only
      cases DomainRecord.decode bytes <;> rfl

theorem run_domainOwner_eq_ok_iff {domain : String} {owner : Option Address} {after : Store} :
    (domainOwner domain : Program ε (Option Address)).run .store store = (.ok owner, after) ↔
      store.domainOwner domain = .ok owner ∧ after = store := by
  rw [run_domainOwner]
  cases store.domainOwner domain with
  | error cause => simp
  | ok found => simp [eq_comm]

@[simp]
theorem run_setBalance (account : Address) (amount : Amount) :
    (setBalance account amount : Program ε Unit).run .store store =
      (.ok (), store.setBalance account amount) :=
  rfl

theorem run_setDomainOwner (domain : String) (owner : Address) :
    (setDomainOwner domain owner : Program ε Unit).run .store store =
      (.ok (), store.setDomainOwner domain owner) := by
  rw [setDomainOwner, DomainRecord.encode_eq]
  rfl

@[simp]
theorem run_hasToken (token : Address) :
    (hasToken token : Program ε Bool).run .store store = (.ok (store.hasToken token), store) :=
  rfl

@[simp]
theorem run_hasPool (pool : Address) :
    (hasPool pool : Program ε Bool).run .store store = (.ok (store.hasPool pool), store) :=
  rfl

theorem run_write {key : StateKey} {encoded : Except CodecError Bytes} {bytes : Bytes}
    (written : encoded = .ok bytes) :
    (write key encoded : Program ε Unit).run .store store =
      (.ok (), store.setEncoded key encoded) := by
  rw [written]
  rfl

theorem run_setToken {record : TokenRecord} (bounded : record.Bounded) (token : Address) :
    (setToken token record : Program ε Unit).run .store store =
      (.ok (), store.setToken token record) := by
  obtain ⟨_, written, _⟩ := TokenRecord.encode_of_bounded bounded
  exact run_write written

theorem run_setPool (pool : Address) (record : PoolRecord) :
    (setPool pool record : Program ε Unit).run .store store =
      (.ok (), store.setPool pool record) := by
  obtain ⟨_, written, _⟩ := PoolRecord.encode_eq record
  exact run_write written

end Program

end PoolLedger
