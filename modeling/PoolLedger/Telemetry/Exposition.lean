import PoolLedger.Telemetry.Counters

/-!
# Text exposition of the counters

Families come in the order of their names, each with a help line, a type line
and its samples in the order of their labels.  A labelled family without any
label is left out.  Of the time spent only the number of samples is exposed.
-/

namespace PoolLedger

namespace Telemetry

/-- A family of samples under one name. -/
structure Family where
  name : String
  help : String
  kind : String
  samples : List String

namespace Family

def lines (family : Family) : List String :=
  if family.samples.isEmpty then []
  else
    ("# HELP " ++ family.name ++ " " ++ family.help) ::
      ("# TYPE " ++ family.name ++ " " ++ family.kind) :: family.samples

/-- A family with a sample for each action name. -/
def labelled (name help kind suffix : String) (counts : LabelledCounts) : Family where
  name
  help
  kind
  samples := counts.toList.map fun (label, count) =>
    name ++ suffix ++ "\x7baction=\"" ++ label ++ "\"\x7d " ++ toString count

def single (name help : String) (count : Nat) : Family where
  name
  help
  kind := "counter"
  samples := [name ++ " " ++ toString count]

end Family

/-- The families of a ledger, in the order of their names. -/
def Counters.families (counters : Counters) : List Family :=
  [.labelled "cfmm_action_duration_seconds" "Time spent executing one action" "histogram" "_count"
      counters.timed,
    .labelled "cfmm_actions_executed_total" "Actions executed and committed" "counter" ""
      counters.executed,
    .labelled "cfmm_actions_rejected_total" "Actions rejected without state change" "counter" ""
      counters.rejected,
    .single "cfmm_ordering_batches_scheduled_total"
      "Action batches scheduled by the reference scheduler" counters.batches,
    .single "cfmm_state_faults_total" "Fatal state-access faults raised during execution"
      counters.faults]

def Counters.expose (counters : Counters) : List String :=
  counters.families.flatMap Family.lines

end Telemetry

end PoolLedger
