import PoolLedger.Action.Execution
import PoolLedger.Action.Wire
import PoolLedger.Telemetry.Counters

/-!
# Execution of actions against a ledger

An action runs in a view of its declared keys.  Its changes are committed as a
whole if it succeeds and dropped otherwise, and every run is counted.
-/

namespace PoolLedger

inductive ExecutionError where
  | rejected (cause : ActionError)
  | fatal (fault : StateError)
  | decode (cause : WireError)
deriving DecidableEq

namespace ExecutionError

/-- The execution error of a failed action: faults of the state are fatal. -/
def ofActionError : ActionError → ExecutionError
  | .state fault => fatal fault
  | error => rejected error

def isFatal : ExecutionError → Bool
  | fatal _ => true
  | _ => false

def message : ExecutionError → String
  | rejected cause => "Action rejected: " ++ cause.message
  | fatal fault => "Fatal state fault: " ++ fault.message
  | decode cause => "Decode failed: " ++ cause.message

end ExecutionError

namespace Medium

/-- Run an action in a view of its declared keys. -/
def runInView (params : Params) (base : Reading) (actor : Address) (action : Action) :
    Except ActionError Output × View :=
  (action.program params actor).run (.view base) (.start (action.declared actor))

/-- Execute an action: commit its changes if it succeeds, else leave the state alone. -/
def execute (params : Params) (medium : Medium) (actor : Address) (action : Action) :
    Except ExecutionError Output × Medium :=
  match runInView params medium.read actor action with
  | (.error error, _) => (.error (.ofActionError error), medium)
  | (.ok output, view) =>
      match medium.commit view.changes with
      | .error fault => (.error (.fatal fault), medium)
      | .ok committed => (.ok output, committed)

end Medium

namespace Telemetry.Counters

def countOutcome (counters : Counters) (kind : ActionKind) :
    Except ExecutionError Output → Counters
  | .ok _ => counters.countExecuted kind
  | .error (.rejected _) => counters.countRejected kind
  | .error (.fatal _) => counters.countFault
  | .error (.decode _) => counters

end Telemetry.Counters

/-- A running ledger: its parameters, its state and its counters. -/
structure Ledger where
  params : Params
  medium : Medium
  counters : Telemetry.Counters := {}

namespace Ledger

def execute (ledger : Ledger) (actor : Address) (action : Action) :
    Except ExecutionError Output × Ledger :=
  let (result, medium) := ledger.medium.execute ledger.params actor action
  let counters := (ledger.counters.countTimed action.kind).countOutcome action.kind result
  (result, { ledger with medium, counters })

/-- Execute an action given in its wire form.  Bytes that are no action are not counted. -/
def executeEncoded (ledger : Ledger) (actor : Address) (bytes : Bytes) :
    Except ExecutionError Output × Ledger :=
  match Action.decode bytes with
  | .error cause => (.error (.decode cause), ledger)
  | .ok action => ledger.execute actor action

end Ledger

end PoolLedger
