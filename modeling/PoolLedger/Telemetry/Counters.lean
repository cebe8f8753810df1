import PoolLedger.Action.Basic

/-!
# Counters

How many actions of each kind were executed, rejected and timed, how many
faults the state raised, and how many batches were scheduled.  Counts are exact
natural numbers.
-/

namespace PoolLedger

namespace Telemetry

/-- A count for each label that was ever counted or asked for. -/
abbrev LabelledCounts := SortedMap String Nat

namespace LabelledCounts

def count (counts : LabelledCounts) (label : String) : Nat :=
  (counts.get? label).getD 0

/-- Add to the count of a label, which exists from then on. -/
def add (counts : LabelledCounts) (label : String) (amount : Nat) : LabelledCounts :=
  counts.insert label (counts.count label + amount)

end LabelledCounts

/-- All counts of a ledger. -/
structure Counters where
  executed : LabelledCounts := .empty
  rejected : LabelledCounts := .empty
  timed : LabelledCounts := .empty
  faults : Nat := 0
  batches : Nat := 0
deriving DecidableEq

namespace Counters

def countExecuted (counters : Counters) (kind : ActionKind) : Counters :=
  { counters with executed := counters.executed.add kind.name 1 }

def countRejected (counters : Counters) (kind : ActionKind) : Counters :=
  { counters with rejected := counters.rejected.add kind.name 1 }

def countTimed (counters : Counters) (kind : ActionKind) : Counters :=
  { counters with timed := counters.timed.add kind.name 1 }

def countFault (counters : Counters) : Counters :=
  { counters with faults := counters.faults + 1 }

def countBatch (counters : Counters) : Counters :=
  { counters with batches := counters.batches + 1 }

/-- Make every kind of action a label of every family, without counting anything. -/
def touchAll (counters : Counters) : Counters :=
  let touch (counts : LabelledCounts) : LabelledCounts :=
    ActionKind.all.foldl (fun counts kind => counts.add kind.name 0) counts
  { counters with
    executed := touch counters.executed
    rejected := touch counters.rejected
    timed := touch counters.timed }

end Counters

end Telemetry

end PoolLedger
