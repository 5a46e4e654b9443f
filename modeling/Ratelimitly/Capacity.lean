import Mathlib.Tactic
import Ratelimitly.ContentIds
import Ratelimitly.RequestFormat

/-! Which requests and reports fit into one datagram. -/
namespace Ratelimitly

open Lib

variable {crypto : Crypto} {resources : List ResourceRequest} {guards : List LatencyGuard}
  {reports : List ServiceLatencyReport} {name : String} {pdu : List UInt8}

/-- The size of the datagram that a request would need. -/
def requestSize (authMethod : AuthMethod) (resources : List ResourceRequest)
    (guards : List LatencyGuard) (metricsLabel : Option String) : ℕ :=
  tenantTlvLen + authHeaderSize authMethod + pduHeaderLen + 4 + guardLen * guards.length +
    resourceLen * resources.length + (metricsLabelBytes metricsLabel).length

end Ratelimitly
