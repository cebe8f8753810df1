import PoolLedger.Proofs.RecordRuns

/-!
# The sum of all balances

The coins of a store are the sum of the values of all its balance keys.  A new
balance changes the sum by what the account gains, and no other record counts.
-/

namespace PoolLedger

namespace SortedMap

variable {κ α : Type} [Ord κ] [Std.LawfulEqOrd κ]

theorem sum_upsert (weight : κ × α → Nat) (key : κ) (value : α) (entries : List (κ × α))
    (ascending : entries.Pairwise fun first second => compare first.1 second.1 = .lt)
    [Std.TransOrd κ] :
    ((upsert key value entries).map weight).sum +
        ((lookup key entries).map fun old => weight (key, old)).getD 0 =
      (entries.map weight).sum + weight (key, value) := by
  induction entries with
  | nil => simp [upsert, lookup]
  | cons head rest ih =>
      obtain ⟨other, old⟩ := head
      obtain ⟨headBelow, restAscending⟩ := List.pairwise_cons.mp ascending
      simp only [upsert]
      split
      · rename_i below
        have absent : lookup key ((other, old) :: rest) = none := by
          apply lookup_eq_none_of_forall_ne
          intro entry member
          rcases List.mem_cons.mp member with rfl | inRest
          · exact (ne_of_compare_lt below).symm
          · exact (ne_of_compare_lt (Std.TransCmp.lt_trans below (headBelow entry inRest))).symm
        rw [absent]
        simp only [List.map_cons, List.sum_cons, Option.map_none, Option.getD_none]
        omega
      · rename_i same
        cases Std.LawfulEqCmp.eq_of_compare same
        rw [lookup_cons_self]
        simp only [List.map_cons, List.sum_cons, Option.map_some, Option.getD_some]
        omega
      · rename_i above
        have ne : key ≠ other := by
          rintro rfl
          simp at above
        have restSum := ih restAscending
        rw [lookup_cons_of_ne ne]
        simp only [List.map_cons, List.sum_cons]
        omega

end SortedMap

namespace Store

/-- How many coins a value stands for: none unless it is a balance. -/
def coinsAt (key : StateKey) (value : Bytes) : Nat :=
  if key.kind? = some .balance then
    match BalanceRecord.decode value with
    | .ok amount => amount.toNat
    | .error _ => 0
  else 0

/-- The sum of the balances of all accounts. -/
def coinTotal (store : Store) : Nat :=
  (store.toList.map fun entry => coinsAt entry.1 entry.2).sum

/-- Every balance and every domain record can be read. -/
structure Readable (store : Store) : Prop where
  balances : ∀ key value, store.get? key = some value → key.kind? = some .balance →
    ∃ amount, BalanceRecord.decode value = .ok amount
  domains : ∀ key value, store.get? key = some value → key.kind? = some .domain →
    ∃ record, DomainRecord.decode value = .ok record

theorem coinTotal_insert (store : Store) (key : StateKey) (value : Bytes) :
    coinTotal (store.insert key value) + ((store.get? key).map (coinsAt key)).getD 0 =
      store.coinTotal + coinsAt key value :=
  SortedMap.sum_upsert (fun entry => coinsAt entry.1 entry.2) key value store.entries
    store.ascending

theorem coinsAt_of_kind {key : StateKey} (other : key.kind? ≠ some .balance) (value : Bytes) :
    coinsAt key value = 0 :=
  if_neg other

theorem coinTotal_insert_of_kind (store : Store) {key : StateKey}
    (other : key.kind? ≠ some .balance) (value : Bytes) :
    coinTotal (store.insert key value) = store.coinTotal := by
  have sum := coinTotal_insert store key value
  rw [coinsAt_of_kind other] at sum
  cases found : store.get? key with
  | none => simpa [found] using sum
  | some old => simpa [found, coinsAt_of_kind other] using sum

/-- A new balance replaces the old one in the sum. -/
theorem coinTotal_setBalance {store : Store} {account : Address} {current : Amount}
    (found : store.balance account = .ok current) (amount : Amount) :
    (store.setBalance account amount).coinTotal + current.toNat =
      store.coinTotal + amount.toNat := by
  have sum := coinTotal_insert store (.ofBalance account) (BalanceRecord.encode amount)
  have new : coinsAt (.ofBalance account) (BalanceRecord.encode amount) = amount.toNat := by
    simp [coinsAt]
  have old : ((store.get? (.ofBalance account)).map (coinsAt (.ofBalance account))).getD 0 =
      current.toNat := by
    rw [balance] at found
    cases stored : store.get? (.ofBalance account) with
    | none =>
        rw [stored] at found
        cases found
        rfl
    | some bytes =>
        rw [stored] at found
        simp [coinsAt, found]
  rw [new, old] at sum
  exact sum

theorem balance_setBalance_self (store : Store) (account : Address) (amount : Amount) :
    (store.setBalance account amount).balance account = .ok amount := by
  rw [balance, setBalance, SortedMap.get?_insert_self]
  exact BalanceRecord.decode_encode amount

theorem balance_setBalance_of_ne (store : Store) {account other : Address} (ne : other ≠ account)
    (amount : Amount) :
    (store.setBalance account amount).balance other = store.balance other := by
  have keysNe : StateKey.ofBalance other ≠ StateKey.ofBalance account :=
    fun same => ne (StateKey.ofBalance_inj.mp same)
  rw [balance, setBalance, SortedMap.get?_insert_of_ne _ _ keysNe, balance]

theorem balance_setToken (store : Store) (token : Address) (record : TokenRecord)
    (account : Address) :
    (store.setToken token record).balance account = store.balance account := by
  have keysNe : StateKey.ofBalance account ≠ StateKey.ofToken token := by
    intro same
    have kinds := congrArg StateKey.kind? same
    simp at kinds
  rw [setToken]
  cases record.encode with
  | error cause => rfl
  | ok bytes => rw [setEncoded, balance, SortedMap.get?_insert_of_ne _ _ keysNe, balance]

theorem balance_setDomainOwner (store : Store) (domain : String) (owner account : Address) :
    (store.setDomainOwner domain owner).balance account = store.balance account := by
  have keysNe : StateKey.ofBalance account ≠ StateKey.ofDomain domain := by
    intro same
    have kinds := congrArg StateKey.kind? same
    simp at kinds
  rw [balance, setDomainOwner, SortedMap.get?_insert_of_ne _ _ keysNe, balance]

/-- Two accounts have no more coins together than there are. -/
theorem balances_le_coinTotal {store : Store} {first second : Address}
    {firstAmount secondAmount : Amount} (ne : first ≠ second)
    (firstFound : store.balance first = .ok firstAmount)
    (secondFound : store.balance second = .ok secondAmount) :
    firstAmount.toNat + secondAmount.toNat ≤ store.coinTotal := by
  -- Taking both balances out leaves a sum, which is not negative.
  have withoutFirst := coinTotal_setBalance firstFound 0
  have secondStill : (store.setBalance first 0).balance second = .ok secondAmount :=
    (balance_setBalance_of_ne store ne.symm 0).trans secondFound
  have withoutSecond := coinTotal_setBalance secondStill 0
  simp only [UInt64.toNat_zero] at withoutFirst withoutSecond
  omega

namespace Readable

variable {store : Store}

theorem balance (readable : store.Readable) (account : Address) :
    ∃ amount, store.balance account = .ok amount := by
  rw [Store.balance]
  cases stored : store.get? (.ofBalance account) with
  | none => exact ⟨0, rfl⟩
  | some bytes => exact readable.balances _ bytes stored rfl

theorem domainOwner (readable : store.Readable) (domain : String) :
    ∃ owner, store.domainOwner domain = .ok owner := by
  rw [Store.domainOwner]
  cases stored : store.get? (.ofDomain domain) with
  | none => exact ⟨none, rfl⟩
  | some bytes =>
      obtain ⟨record, decoded⟩ := readable.domains _ bytes stored rfl
      exact ⟨some record.owner, by simp only [decoded]; rfl⟩

theorem insert (readable : store.Readable) {key : StateKey} {value : Bytes}
    (isBalance : key.kind? = some .balance → ∃ amount, BalanceRecord.decode value = .ok amount)
    (isDomain : key.kind? = some .domain → ∃ record, DomainRecord.decode value = .ok record) :
    Readable (store.insert key value) := by
  constructor
  · intro wanted found stored kind
    rw [SortedMap.get?_insert] at stored
    split at stored
    · rename_i same
      cases stored
      exact isBalance (same ▸ kind)
    · exact readable.balances wanted found stored kind
  · intro wanted found stored kind
    rw [SortedMap.get?_insert] at stored
    split at stored
    · rename_i same
      cases stored
      exact isDomain (same ▸ kind)
    · exact readable.domains wanted found stored kind

theorem setBalance (readable : store.Readable) (account : Address) (amount : Amount) :
    (store.setBalance account amount).Readable :=
  readable.insert (fun _ => ⟨amount, BalanceRecord.decode_encode amount⟩) nofun

theorem setDomainOwner (readable : store.Readable) (domain : String) (owner : Address) :
    (store.setDomainOwner domain owner).Readable :=
  readable.insert nofun fun _ => ⟨_, DomainRecord.decode_bytes owner⟩

theorem setEncoded (readable : store.Readable) {key : StateKey}
    (notBalance : key.kind? ≠ some .balance) (notDomain : key.kind? ≠ some .domain)
    (encoded : Except CodecError Bytes) : (store.setEncoded key encoded).Readable := by
  cases encoded with
  | error cause => exact readable
  | ok bytes =>
      exact readable.insert (fun kind => absurd kind notBalance) fun kind => absurd kind notDomain

theorem setToken (readable : store.Readable) (token : Address) (record : TokenRecord) :
    (store.setToken token record).Readable :=
  readable.setEncoded (by simp) (by simp) record.encode

theorem setPool (readable : store.Readable) (pool : Address) (record : PoolRecord) :
    (store.setPool pool record).Readable :=
  readable.setEncoded (by simp) (by simp) record.encode

end Readable

theorem coinTotal_setEncoded (store : Store) {key : StateKey}
    (notBalance : key.kind? ≠ some .balance) (encoded : Except CodecError Bytes) :
    (store.setEncoded key encoded).coinTotal = store.coinTotal := by
  cases encoded with
  | error cause => rfl
  | ok bytes => exact coinTotal_insert_of_kind store notBalance bytes

theorem coinTotal_setToken (store : Store) (token : Address) (record : TokenRecord) :
    (store.setToken token record).coinTotal = store.coinTotal :=
  coinTotal_setEncoded store (by simp) record.encode

theorem coinTotal_setPool (store : Store) (pool : Address) (record : PoolRecord) :
    (store.setPool pool record).coinTotal = store.coinTotal :=
  coinTotal_setEncoded store (by simp) record.encode

theorem coinTotal_setDomainOwner (store : Store) (domain : String) (owner : Address) :
    (store.setDomainOwner domain owner).coinTotal = store.coinTotal :=
  coinTotal_insert_of_kind store (by simp) owner.bytes

end Store

end PoolLedger
