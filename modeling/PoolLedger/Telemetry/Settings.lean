/-!
# Telemetry settings

The name of the service, how much is logged, and in which form.  Environment
variables that are not set leave the defaults.
-/

namespace PoolLedger

namespace Telemetry

structure Settings where
  serviceName : String := "cfmm-ledger"
  logLevel : String := "info"
  jsonLogs : Bool := false
deriving DecidableEq, Repr

namespace Settings

/-- Whether a variable switches something on: `1`, or `true` in any letter case. -/
def isOn (value : String) : Bool :=
  value.toList.map Char.toLower == "true".toList || value == "1"

def ofEnvironment (lookup : String → Option String) : Settings :=
  let defaults : Settings := {}
  { serviceName := (lookup "CFMM_SERVICE_NAME").getD defaults.serviceName
    logLevel :=
      ((lookup "CFMM_LOG_LEVEL").orElse fun _ => lookup "RUST_LOG").getD defaults.logLevel
    jsonLogs := ((lookup "CFMM_JSON_LOGS").map isOn).getD defaults.jsonLogs }

end Settings

end Telemetry

end PoolLedger
