import PoolLedger.Action.Basic

/-!
# Conflicts between batch entries

A batch is a list of actions with their positions in submission order.  Two
entries conflict when their declarations do.
-/

namespace PoolLedger

namespace Batch

/-- A submitted action; `index` is its position in submission order. -/
structure Entry where
  index : Nat
  actor : Address
  action : Action
deriving DecidableEq

structure DeclaredEntry where
  entry : Entry
  declared : Declaration
deriving DecidableEq

def DeclaredEntry.index (declaredEntry : DeclaredEntry) : Nat :=
  declaredEntry.entry.index

/-- An entry with the keys that its action declares. -/
def Entry.declare (entry : Entry) : DeclaredEntry :=
  ⟨entry, entry.action.declared entry.actor⟩

/-- Two entries whose declarations overlap on `key`; `first` comes before `second`. -/
structure Conflict where
  first : Nat
  second : Nat
  kind : OverlapKind
  key : StateKey
deriving DecidableEq

/-- The conflict between an entry and a later one, if there is one. -/
def conflictBetween (first second : DeclaredEntry) : Option Conflict :=
  (first.declared.conflict? second.declared).map fun (key, kind) =>
    ⟨first.index, second.index, kind, key⟩

/-- Every conflict between an entry and a later one, in list order. -/
def conflicts : List DeclaredEntry → List Conflict
  | [] => []
  | first :: rest => rest.filterMap (conflictBetween first) ++ conflicts rest

/-- The share of conflicting pairs among all pairs of entries, in whole percent.
Counts are 64-bit words. -/
def conflictPercentage (conflictCount entryCount : Nat) : Nat :=
  if entryCount < 2 then 0
  else
    let pairs := entryCount * (entryCount - 1) % UInt64.size / 2
    min 100 (min (conflictCount * 100) (UInt64.size - 1) / pairs)

end Batch

end PoolLedger
