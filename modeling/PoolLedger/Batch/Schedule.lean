/-!
# Schedules

A schedule is a list of groups.  The members of a group may run in any order;
every group runs after all earlier ones.
-/

namespace PoolLedger

namespace Batch

/-- Indices that may run together. -/
structure Group where
  id : Nat
  indices : List Nat
deriving DecidableEq, Repr

/-- Groups in the order in which they run. -/
structure Schedule where
  groups : List Group
  totalActions : Nat
  maxParallelism : Nat
deriving DecidableEq, Repr

namespace Schedule

def ofGroups (groups : List Group) : Schedule where
  groups
  totalActions := (groups.map (·.indices.length)).foldl (· + ·) 0
  maxParallelism := (groups.map (·.indices.length)).foldl max 0

/-- The schedule whose groups have the given members and are numbered from zero. -/
def ofLayers (layers : List (List Nat)) : Schedule :=
  ofGroups (layers.mapIdx Group.mk)

/-- The schedule that runs indices one at a time. -/
def sequential (indices : List Nat) : Schedule :=
  ofLayers (indices.map fun index => [index])

/-- All members in the order of their groups. -/
def flatten (schedule : Schedule) : List Nat :=
  schedule.groups.flatMap (·.indices)

end Schedule

end Batch

end PoolLedger
