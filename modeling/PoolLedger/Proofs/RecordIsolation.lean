import PoolLedger.Proofs.FixedRecords
import PoolLedger.Proofs.RecordNames
import PoolLedger.Proofs.RecordRuns

/-!
# Each record on its own

To set a record is to write the value of its key, and to ask for a record is to
read the value of its key.  What was set is found again, and whatever is asked
about other records is answered as before, in any state.
-/

namespace PoolLedger

/-- A record, and what it is to be. -/
inductive Setting where
  | balance (account : Address) (amount : UInt64)
  | token (address : Address) (record : TokenRecord)
  | domain (text : String) (owner : Address)
  | pool (address : Address) (record : PoolRecord)

/-- A question about one record, by the type of its answer. -/
inductive Query : Type → Type where
  | balance (account : Address) : Query UInt64
  | token (address : Address) : Query (Option TokenRecord)
  | hasToken (address : Address) : Query Bool
  | domainOwner (text : String) : Query (Option Address)
  | pool (address : Address) : Query (Option PoolRecord)
  | hasPool (address : Address) : Query Bool

/-! ## Setting -/

namespace Setting

/-- The record that is set. -/
def record : Setting → RecordName
  | balance account _ => .balance account
  | token address _ => .token address
  | domain text _ => .domain text
  | pool address _ => .pool address

def program : Setting → Program StateError Unit
  | balance account amount => .setBalance account amount
  | token address record => .setToken address record
  | domain text owner => .setDomainOwner text owner
  | pool address record => .setPool address record

def run (setting : Setting) (store : Store) : Except StateError Unit × Store :=
  setting.program.run .store store

/-- The value that is written. -/
def encoded : Setting → Except CodecError Bytes
  | balance _ amount => .ok (BalanceRecord.encode amount)
  | token _ record => record.encode
  | domain _ owner => DomainRecord.encode { owner }
  | pool _ record => record.encode

/-- Only the segments of a token can be too long for a record. -/
def Fits : Setting → Prop
  | token _ record =>
      record.name.length ≤ 64 ∧ record.symbol.length ≤ 8 ∧ record.metadata.length ≤ 256
  | balance .. | domain .. | pool .. => True

theorem program_eq (setting : Setting) :
    setting.program = .write setting.record.key setting.encoded := by
  cases setting <;> rfl

section Run

variable {setting : Setting} (store : Store)

theorem run_of_encoded {bytes : Bytes} (written : setting.encoded = .ok bytes) :
    setting.run store = (.ok (), store.insert setting.record.key bytes) := by
  rw [run, program_eq, written]
  rfl

theorem run_of_refused {cause : CodecError} (refused : setting.encoded = .error cause) :
    setting.run store = (.error (.corruptValue setting.record.key cause), store) := by
  rw [run, program_eq, refused]
  rfl

end Run

theorem fits_of_encoded {setting : Setting} {bytes : Bytes}
    (written : setting.encoded = .ok bytes) : setting.Fits := by
  cases setting with
  | token address record => exact (TokenRecord.encode_eq_ok_iff.mp written).1
  | balance account amount => trivial
  | domain text owner => trivial
  | pool address record => trivial

theorem oversized_of_refused {setting : Setting} {cause : CodecError}
    (refused : setting.encoded = .error cause) :
    ∃ address record, setting = .token address record ∧ record.Oversized cause := by
  cases setting with
  | balance account amount => cases refused
  | token address record =>
      exact ⟨address, record, rfl, TokenRecord.encode_eq_error_iff.mp refused⟩
  | domain text owner => cases (DomainRecord.encode_eq _).symm.trans refused
  | pool address record =>
      obtain ⟨bytes, written⟩ := PoolRecord.fixedWidth.writes record
      cases written.symm.trans refused

end Setting

/-! ## Asking -/

namespace Program

section Reading

variable {α β : Type} {store : Store} (key : StateKey) (decode : Bytes → Except CodecError α)

/-- The record that a value is, if there is a value. -/
def found : Option Bytes → Except StateError (Option α)
  | none => .ok none
  | some bytes =>
      match decode bytes with
      | .ok record => .ok (some record)
      | .error cause => .error (.corruptValue key cause)

theorem run_read_found :
    (read key decode : Program StateError (Option α)).run .store store =
      (found key decode (store.get? key), store) := by
  rw [run_read]
  cases store.get? key with
  | none => rfl
  | some bytes =>
      simp only [found]
      cases decode bytes <;> rfl

theorem run_read_map (f : Option α → β) :
    (read key decode >>= fun record => pure (f record) : Program StateError β).run .store store =
      ((found key decode (store.get? key)).map f, store) := by
  rw [run_bind, run_read_found]
  cases found key decode (store.get? key) <;> rfl

end Reading

end Program

namespace Query

variable {α : Type}

/-- The record that is asked about. -/
def record : Query α → RecordName
  | balance account => .balance account
  | token address | hasToken address => .token address
  | domainOwner text => .domain text
  | pool address | hasPool address => .pool address

def program : Query α → Program StateError α
  | balance account => .balance account
  | token address => .token address
  | hasToken address => .hasToken address
  | domainOwner text => .domainOwner text
  | pool address => .pool address
  | hasPool address => .hasPool address

def ask (query : Query α) (store : Store) : Except StateError α × Store :=
  query.program.run .store store

/-- The answer, from the value of the record's key. -/
def answer : Query α → Option Bytes → Except StateError α
  | balance account, value =>
      (Program.found (.ofBalance account) BalanceRecord.decode value).map (·.getD 0)
  | token address, value => Program.found (.ofToken address) TokenRecord.decode value
  | hasToken _, value => .ok value.isSome
  | domainOwner text, value =>
      (Program.found (.ofDomain text) DomainRecord.decode value).map (·.map (·.owner))
  | pool address, value => Program.found (.ofPool address) PoolRecord.decode value
  | hasPool _, value => .ok value.isSome

/-- A query is answered from the value of one key, and changes nothing. -/
theorem ask_eq (query : Query α) (store : Store) :
    query.ask store = (query.answer (store.get? query.record.key), store) := by
  cases query with
  | balance account => exact Program.run_read_map _ _ _
  | token address => exact Program.run_read_found _ _
  | hasToken address => rfl
  | domainOwner text => exact Program.run_read_map _ _ _
  | pool address => exact Program.run_read_found _ _
  | hasPool address => rfl

end Query

/-! ## Isolation -/

/-- What a query finds once the record that it asks about is set. -/
inductive Setting.Shows : Setting → {α : Type} → Query α → α → Prop where
  | balance (account : Address) (amount : UInt64) :
      Shows (.balance account amount) (.balance account) amount
  | token (address : Address) (record : TokenRecord) :
      Shows (.token address record) (.token address) (some record)
  | hasToken (address : Address) (record : TokenRecord) :
      Shows (.token address record) (.hasToken address) true
  | domainOwner (text : String) (owner : Address) :
      Shows (.domain text owner) (.domainOwner text) (some owner)
  | pool (address : Address) (record : PoolRecord) :
      Shows (.pool address record) (.pool address) (some record)
  | hasPool (address : Address) (record : PoolRecord) :
      Shows (.pool address record) (.hasPool address) true

theorem Program.found_of_decode {α : Type} {key : StateKey}
    {decode : Bytes → Except CodecError α} {bytes : Bytes} {record : α}
    (read : decode bytes = .ok record) : found key decode (some bytes) = .ok (some record) := by
  simp only [found, read]

namespace Setting.Shows

variable {α : Type} {setting : Setting} {query : Query α} {answer : α}

theorem record_eq (isShown : setting.Shows query answer) : query.record = setting.record := by
  cases isShown <;> rfl

/-- The value that was written reads as the record that was set. -/
theorem answer_eq (isShown : setting.Shows query answer) {bytes : Bytes}
    (written : setting.encoded = .ok bytes) : query.answer (some bytes) = .ok answer := by
  cases isShown with
  | balance account amount =>
      cases written
      rw [Query.answer, Program.found_of_decode (BalanceRecord.decode_encode amount)]
      rfl
  | token address record =>
      have read : TokenRecord.decode bytes = .ok record :=
        TokenRecord.decode_eq_ok_iff.mpr (TokenRecord.encode_eq_ok_iff.mp written)
      exact Program.found_of_decode read
  | hasToken address record => rfl
  | domainOwner text owner =>
      have read : DomainRecord.decode bytes = .ok { owner } :=
        (DomainRecord.fixedWidth.inverse _ _).mpr written
      rw [Query.answer, Program.found_of_decode read]
      rfl
  | pool address record =>
      have read : PoolRecord.decode bytes = .ok record :=
        (PoolRecord.fixedWidth.inverse _ _).mpr written
      exact Program.found_of_decode read
  | hasPool address record => rfl

end Setting.Shows

/-- A record was set between two states, and nothing else has changed: queries about the record
find what it was set to, and all others are answered as before. -/
structure Setting.Isolated (setting : Setting) (before after : Store) : Prop where
  shown : ∀ {α : Type} (query : Query α) (answer : α), setting.Shows query answer →
    query.ask after = (.ok answer, after)
  others : ∀ {α : Type} (query : Query α), query.record ≠ setting.record →
    query.ask after = ((query.ask before).1, after)

theorem Setting.isolated_insert {setting : Setting} {bytes : Bytes}
    (written : setting.encoded = .ok bytes) (store : Store) :
    setting.Isolated store (store.insert setting.record.key bytes) := by
  constructor
  · intro α query answer isShown
    rw [query.ask_eq, isShown.record_eq, SortedMap.get?_insert_self, isShown.answer_eq written]
  · intro α query otherRecord
    have otherKey : query.record.key ≠ setting.record.key :=
      RecordName.key_injective.ne otherRecord
    rw [query.ask_eq, query.ask_eq, SortedMap.get?_insert_of_ne _ _ otherKey]

/-- In every state, a token with a segment that is too long is refused and nothing changes.  Any
other record is set, and is the only one that has changed. -/
theorem records_are_isolated (store : Store) (setting : Setting) :
    (∃ address record cause, setting = .token address record ∧ record.Oversized cause ∧
        setting.run store = (.error (.corruptValue (.ofToken address) cause), store)) ∨
      setting.Fits ∧ ∃ after, setting.run store = (.ok (), after) ∧
        setting.Isolated store after := by
  cases encoded : setting.encoded with
  | error cause =>
      have refused := setting.run_of_refused store encoded
      obtain ⟨address, record, rfl, oversized⟩ := setting.oversized_of_refused encoded
      exact .inl ⟨address, record, cause, rfl, oversized, refused⟩
  | ok bytes =>
      exact .inr ⟨setting.fits_of_encoded encoded, _, setting.run_of_encoded store encoded,
        setting.isolated_insert encoded store⟩

/-- A state in which the balance of the account cannot be read. -/
def crackedStore : Store :=
  SortedMap.empty.insert (.ofBalance spelledAccount) [1, 2, 3]

/-- A domain that is spelled like the account is set, and the balance is as damaged as before. -/
theorem crackedStore_isolated :
    ∃ after, (Setting.domain "xxxxxxxxxxxxxxxxxxxxxxxxxxxxxxxxx" .zero).run crackedStore =
        (.ok (), after) ∧
      (Query.domainOwner "xxxxxxxxxxxxxxxxxxxxxxxxxxxxxxxxx").ask after =
        (.ok (some .zero), after) ∧
      (Query.balance spelledAccount).ask after =
        (.error (.corruptValue (.ofBalance spelledAccount) (.invalidLength "balance" 8 3)),
          after) := by
  rcases records_are_isolated crackedStore
      (.domain "xxxxxxxxxxxxxxxxxxxxxxxxxxxxxxxxx" .zero) with
    ⟨_, _, _, notToken, _⟩ | ⟨_, after, isSet, isolated⟩
  · cases notToken
  · refine ⟨after, isSet, isolated.shown _ _ (.domainOwner _ _), ?_⟩
    rw [isolated.others (.balance spelledAccount) (by decide)]
    rfl

end PoolLedger
