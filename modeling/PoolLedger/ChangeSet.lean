import PoolLedger.SortedMap
import PoolLedger.StateKey

/-!
# Change sets

A change set records the last thing done to each key: a value put there, or
its removal.
-/

namespace PoolLedger

/-- What becomes of each touched key: a new value, or none. -/
abbrev ChangeSet := SortedMap StateKey (Option Bytes)

namespace ChangeSet

/-- Record that a key gets a value. -/
def put (changes : ChangeSet) (key : StateKey) (value : Bytes) : ChangeSet :=
  changes.insert key (some value)

/-- Record that a key loses its value. -/
def delete (changes : ChangeSet) (key : StateKey) : ChangeSet :=
  changes.insert key none

/-- The changes followed by `later` ones. -/
def merge (changes later : ChangeSet) : ChangeSet :=
  later.toList.foldl (fun merged entry => merged.insert entry.1 entry.2) changes

end ChangeSet

end PoolLedger
