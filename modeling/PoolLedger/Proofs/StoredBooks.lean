import PoolLedger.Proofs.Books
import PoolLedger.Proofs.FixedRecords
import PoolLedger.Proofs.RecordRoundTrip
import PoolLedger.Proofs.RecordRuns

/-!
# The books of a store

A store is well formed if every value under the key of a balance, a token, a
domain or a pool can be read.  What it holds is then a set of books, and a record
that is written to the store is entered into its books.
-/

namespace PoolLedger

/-- The keys of balances, tokens, domains and pools. -/
inductive StateKey.OfRecord : StateKey → Prop where
  | balance (account : Address) : OfRecord (.ofBalance account)
  | token (token : Address) : OfRecord (.ofToken token)
  | domain (domain : String) : OfRecord (.ofDomain domain)
  | pool (pool : Address) : OfRecord (.ofPool pool)

theorem StateKey.ne_of_kind {first second : StateKey} (kinds : first.kind? ≠ second.kind?) :
    first ≠ second :=
  fun same => kinds (congrArg kind? same)

namespace Store

section Records

variable {ι α : Type} {decode : Bytes → Except CodecError α} {family : ι → StateKey}
  {store : Store} {key : StateKey} {value : Bytes} {name : ι}

/-- Every value under a key of the family can be read. -/
def Decodes (store : Store) (decode : Bytes → Except CodecError α) (family : ι → StateKey) : Prop :=
  ∀ name value, store.get? (family name) = some value → ∃ record, decode value = .ok record

/-- The record under a key, if there is one and it can be read. -/
def record? (store : Store) (decode : Bytes → Except CodecError α) (key : StateKey) : Option α :=
  (store.get? key).bind fun value => (decode value).toOption

theorem Decodes.insert (decodes : store.Decodes decode family)
    (fits : ∀ name, family name = key → ∃ record, decode value = .ok record) :
    Decodes (store.insert key value) decode family := by
  intro name found stored
  rw [SortedMap.get?_insert] at stored
  split at stored
  · rename_i same
    cases stored
    exact fits name same
  · exact decodes name found stored

theorem Decodes.isSome_record? (decodes : store.Decodes decode family) (name : ι) :
    (store.record? decode (family name)).isSome = (store.get? (family name)).isSome := by
  cases stored : store.get? (family name) with
  | none => simp [record?, stored]
  | some value =>
      obtain ⟨record, decoded⟩ := decodes name value stored
      simp [record?, stored, decoded, Except.toOption]

theorem record?_insert [DecidableEq ι] (injective : Function.Injective family) {record : α}
    (decoded : decode value = .ok record) (name other : ι) :
    record? (store.insert (family name) value) decode (family other) =
      if other = name then some record else store.record? decode (family other) := by
  by_cases same : other = name
  · subst same
    simp [record?, SortedMap.get?_insert_self, decoded, Except.toOption]
  · rw [if_neg same, record?, SortedMap.get?_insert_of_ne _ _ (injective.ne same), record?]

theorem record?_insert_of_kind (kinds : (family name).kind? ≠ key.kind?) :
    record? (store.insert key value) decode (family name) =
      store.record? decode (family name) := by
  rw [record?, SortedMap.get?_insert_of_ne _ _ (StateKey.ne_of_kind kinds), record?]

end Records

/-- Every value under the key of a record can be read. -/
structure WellFormed (store : Store) : Prop where
  balances : store.Decodes BalanceRecord.decode StateKey.ofBalance
  tokens : store.Decodes TokenRecord.decode StateKey.ofToken
  domains : store.Decodes DomainRecord.decode StateKey.ofDomain
  pools : store.Decodes PoolRecord.decode StateKey.ofPool

/-- The books that a store keeps. -/
def books (store : Store) : Books where
  balance account := (store.record? BalanceRecord.decode (.ofBalance account)).getD 0
  token? token := store.record? TokenRecord.decode (.ofToken token)
  owner? domain := (store.record? DomainRecord.decode (.ofDomain domain)).map (·.owner)
  pool? pool := store.record? PoolRecord.decode (.ofPool pool)

section Elsewhere

variable {store : Store} {key : StateKey} (notRecord : ¬ key.OfRecord)

include notRecord

theorem get?_setBalance {account : Address} {amount : Amount} :
    (store.setBalance account amount).get? key = store.get? key :=
  SortedMap.get?_insert_of_ne _ _ fun same => notRecord (same ▸ .balance account)

theorem get?_setDomainOwner {domain : String} {owner : Address} :
    (store.setDomainOwner domain owner).get? key = store.get? key :=
  SortedMap.get?_insert_of_ne _ _ fun same => notRecord (same ▸ .domain domain)

theorem get?_setEncoded {other : StateKey} (isRecord : other.OfRecord)
    {encoded : Except CodecError Bytes} :
    (store.setEncoded other encoded).get? key = store.get? key := by
  cases encoded with
  | error cause => rfl
  | ok bytes => exact SortedMap.get?_insert_of_ne _ _ fun same => notRecord (same ▸ isRecord)

theorem get?_setToken {token : Address} {record : TokenRecord} :
    (store.setToken token record).get? key = store.get? key :=
  get?_setEncoded notRecord (.token token)

theorem get?_setPool {pool : Address} {record : PoolRecord} :
    (store.setPool pool record).get? key = store.get? key :=
  get?_setEncoded notRecord (.pool pool)

end Elsewhere

section Writes

theorem books_setBalance (store : Store) (account : Address) (amount : Amount) :
    (store.setBalance account amount).books = store.books.setBalance account amount := by
  refine Books.ext (funext fun other => ?_) (funext fun token => ?_) (funext fun domain => ?_)
    (funext fun pool => ?_)
  · simp only [books, setBalance, Books.setBalance, Function.update_apply,
      record?_insert (fun _ _ => StateKey.ofBalance_inj.mp)
        (BalanceRecord.decode_encode amount) account other]
    split <;> rfl
  · exact record?_insert_of_kind (by simp)
  · exact congrArg (Option.map _) (record?_insert_of_kind (by simp))
  · exact record?_insert_of_kind (by simp)

theorem books_setDomainOwner (store : Store) (domain : String) (owner : Address) :
    (store.setDomainOwner domain owner).books = store.books.setOwner domain owner := by
  refine Books.ext (funext fun account => ?_) (funext fun token => ?_) (funext fun other => ?_)
    (funext fun pool => ?_)
  · exact congrArg (Option.getD · 0) (record?_insert_of_kind (by simp))
  · exact record?_insert_of_kind (by simp)
  · simp only [books, setDomainOwner, Books.setOwner, Function.update_apply,
      record?_insert (fun _ _ => StateKey.ofDomain_inj.mp)
        (DomainRecord.decode_bytes owner) domain other]
    split <;> rfl
  · exact record?_insert_of_kind (by simp)

theorem books_setToken (store : Store) (token : Address) {record : TokenRecord}
    (bounded : record.Bounded) :
    (store.setToken token record).books = store.books.setToken token record := by
  obtain ⟨bytes, written, decoded⟩ := TokenRecord.decode_encode bounded
  rw [setToken, written, setEncoded]
  refine Books.ext (funext fun account => ?_) (funext fun other => ?_) (funext fun domain => ?_)
    (funext fun pool => ?_)
  · exact congrArg (Option.getD · 0) (record?_insert_of_kind (by simp))
  · simp only [books, Books.setToken, Function.update_apply,
      record?_insert (fun _ _ => StateKey.ofToken_inj.mp) decoded token other]
  · exact congrArg (Option.map _) (record?_insert_of_kind (by simp))
  · exact record?_insert_of_kind (by simp)

theorem books_setPool (store : Store) (pool : Address) (record : PoolRecord) :
    (store.setPool pool record).books = store.books.setPool pool record := by
  obtain ⟨bytes, written, decoded⟩ := PoolRecord.decode_encode record
  rw [setPool, written, setEncoded]
  refine Books.ext (funext fun account => ?_) (funext fun token => ?_) (funext fun domain => ?_)
    (funext fun other => ?_)
  · exact congrArg (Option.getD · 0) (record?_insert_of_kind (by simp))
  · exact record?_insert_of_kind (by simp)
  · exact congrArg (Option.map _) (record?_insert_of_kind (by simp))
  · simp only [books, Books.setPool, Function.update_apply,
      record?_insert (fun _ _ => StateKey.ofPool_inj.mp) decoded pool other]

end Writes

namespace WellFormed

variable {store : Store} (wellFormed : store.WellFormed)

include wellFormed

theorem balance (account : Address) :
    store.balance account = .ok (store.books.balance account) := by
  simp only [Store.balance, Store.books, record?]
  cases stored : store.get? (.ofBalance account) with
  | none => rfl
  | some value =>
      obtain ⟨amount, decoded⟩ := wellFormed.balances account value stored
      simp [decoded, Except.toOption]

theorem domainOwner (domain : String) :
    store.domainOwner domain = .ok (store.books.owner? domain) := by
  simp only [Store.domainOwner, Store.books, record?]
  cases stored : store.get? (.ofDomain domain) with
  | none => rfl
  | some value =>
      obtain ⟨record, decoded⟩ := wellFormed.domains domain value stored
      simp [decoded, Except.toOption, Except.map]

theorem hasToken (token : Address) :
    store.hasToken token = (store.books.token? token).isSome :=
  (wellFormed.tokens.isSome_record? token).symm

theorem hasPool (pool : Address) : store.hasPool pool = (store.books.pool? pool).isSome :=
  (wellFormed.pools.isSome_record? pool).symm

theorem setBalance (account : Address) (amount : Amount) :
    (store.setBalance account amount).WellFormed where
  balances := wellFormed.balances.insert fun _ _ => ⟨amount, BalanceRecord.decode_encode amount⟩
  tokens := wellFormed.tokens.insert nofun
  domains := wellFormed.domains.insert nofun
  pools := wellFormed.pools.insert nofun

theorem setDomainOwner (domain : String) (owner : Address) :
    (store.setDomainOwner domain owner).WellFormed where
  balances := wellFormed.balances.insert nofun
  tokens := wellFormed.tokens.insert nofun
  domains := wellFormed.domains.insert fun _ _ => ⟨_, DomainRecord.decode_bytes owner⟩
  pools := wellFormed.pools.insert nofun

theorem setToken (token : Address) {record : TokenRecord} (bounded : record.Bounded) :
    (store.setToken token record).WellFormed := by
  obtain ⟨bytes, written, decoded⟩ := TokenRecord.decode_encode bounded
  rw [Store.setToken, written, setEncoded]
  exact
    { balances := wellFormed.balances.insert nofun
      tokens := wellFormed.tokens.insert fun _ _ => ⟨record, decoded⟩
      domains := wellFormed.domains.insert nofun
      pools := wellFormed.pools.insert nofun }

theorem setPool (pool : Address) (record : PoolRecord) :
    (store.setPool pool record).WellFormed := by
  obtain ⟨bytes, written, decoded⟩ := PoolRecord.decode_encode record
  rw [Store.setPool, written, setEncoded]
  exact
    { balances := wellFormed.balances.insert nofun
      tokens := wellFormed.tokens.insert nofun
      domains := wellFormed.domains.insert nofun
      pools := wellFormed.pools.insert fun _ _ => ⟨record, decoded⟩ }

end WellFormed

end Store

end PoolLedger
