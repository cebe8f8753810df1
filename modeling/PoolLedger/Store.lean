import PoolLedger.Access
import PoolLedger.ChangeSet
import PoolLedger.Record.CodecError

/-!
# Ledger state

The state of the ledger is a finite map from keys to byte strings.  A change
set is committed to it as a whole.  A `Medium` is a state kept where some keys
may be unreadable and some commits may be refused; nothing is written by a
commit that is refused.
-/

namespace PoolLedger

inductive StateError where
  | undeclaredKey (key : StateKey)
  /-- The key was declared with less access than needed. -/
  | permissionDenied (key : StateKey) (declared required : AccessMode)
  /-- The value has `length` bytes, more than the key allows. -/
  | valueTooLarge (key : StateKey) (length limit : Nat)
  /-- The value under the key is not a record of its family. -/
  | corruptValue (key : StateKey) (cause : CodecError)
  | backend (reason : String)
deriving DecidableEq, Repr

def StateError.name : StateError → String
  | undeclaredKey .. => "UndeclaredKey"
  | permissionDenied .. => "PermissionDenied"
  | valueTooLarge .. => "ValueTooLarge"
  | corruptValue .. => "CorruptValue"
  | backend .. => "Backend"

def StateError.message : StateError → String
  | undeclaredKey key => "Key " ++ key.render ++ " was not declared"
  | permissionDenied key declared required =>
      "Key " ++ key.render ++ " declared " ++ declared.name ++ ", operation requires " ++
        required.name
  | valueTooLarge key length limit =>
      "Value for " ++ key.render ++ " is " ++ toString length ++ " bytes, key allows at most " ++
        toString limit
  | corruptValue key cause => "Corrupt value under " ++ key.render ++ ": " ++ cause.message
  | backend reason => "Storage backend error: " ++ reason

/-- The value of every key that has one. -/
abbrev Store := SortedMap StateKey Bytes

namespace Store

/-- Give a key its new value, or none. -/
def apply (store : Store) (key : StateKey) : Option Bytes → Store
  | some value => store.insert key value
  | none => store.erase key

/-- The state after a change set. -/
def commit (store : Store) (changes : ChangeSet) : Store :=
  changes.toList.foldl (fun store entry => store.apply entry.1 entry.2) store

/-- The keys whose value differs between two states, each with its later value. -/
def difference (before after : Store) : ChangeSet :=
  ((before.keys ++ after.keys).filter fun key => before.get? key != after.get? key).foldl
    (fun changes key => changes.insert key (after.get? key)) .empty

end Store

/-- What is found under a key, or why it cannot be read. -/
abbrev Reading := StateKey → Except StateError (Option Bytes)

/-- A state together with the keys its medium will not read and not commit. -/
structure Medium where
  store : Store
  unreadable : List StateKey := []
  /-- Keys that no committed change set may contain. -/
  uncommittable : List StateKey := []

namespace Medium

/-- A state on a medium that refuses nothing. -/
def ofStore (store : Store) : Medium :=
  { store }

/-- What the medium has under a key. -/
def read (medium : Medium) : Reading := fun key =>
  if medium.unreadable.contains key then .error (.backend "read refused")
  else .ok (medium.store.get? key)

/-- Write a change set, or nothing at all. -/
def commit (medium : Medium) (changes : ChangeSet) : Except StateError Medium :=
  if medium.uncommittable.any changes.contains then .error (.backend "commit refused")
  else .ok { medium with store := medium.store.commit changes }

end Medium

end PoolLedger
