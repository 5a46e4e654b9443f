import Mathlib.Tactic
import Ratelimitly.ClientSteps
import Ratelimitly.Deadlines
import Ratelimitly.Marks
import Ratelimitly.PublicClient

/-! What the results of the public operations say about how far they got. -/
namespace Ratelimitly

open Lib Rounds

namespace Request

open Registration (Logged)

variable {client : CoreClient} {query : Query} {pc pc' : Pc} {reply : Reply}

/-- The size of the datagram of the request. -/
def size (client : CoreClient) (query : Query) : ℕ :=
  requestSize client.config.apiKey.authMethod query.resources query.guards query.metricsLabel

/-- Why a request fails, and how far it got. -/
inductive Cause (client : CoreClient) (query : Query) : Option Flight → CoreError → Prop
  | undiscovered {message} : Cause client query none (.dns message)
  | oversized {message} : maxPacketSize < size client query →
      Cause client query none (.protocol message)
  | undelivered {flight error} : Logged flight.state.log (.decided (.err (.io error))) →
      Cause client query (some flight) (.io error)
  | silence {flight} : flight.reg.resolved.targets ≠ [] →
      attempts (.round 0) flight.state.log = flight.reg.resolved.targets →
      Logged flight.state.log (.decided (.ok none)) →
      Cause client query (some flight) .timeout
  | unsteered {flight result error} : Registration.Selected flight.state result →
      Cause client query (some flight) (.io error)

end Request

/-! ### Reports -/

namespace Report

variable {client : CoreClient} {reports : List ServiceLatencyReport} {s t : State} {reply : Reply}

/-- Why a report fails, and how far it got. -/
inductive Cause : List Datagram → CoreError → Prop
  | undiscovered {message} : Cause [] (.dns message)
  | undelivered {sent error} : sent ≠ [] → Cause sent (.io error)

end Report

/-! ### Calls of a client -/

namespace Client

variable {client : CoreClient} {s t : State} {event : Event} {wake : Wake} {i : ℕ}

end Client

/-! ### Public operations -/

namespace PublicClient

open Registration (Logged Selected)

variable {crypto : Crypto} {ipText : IpText} {builder : ClientBuilder} {bindUdp : BindUdp}
  {now i : ℕ}
  {client : PublicClient} {start s : Client.State} {events : List Client.Event} {slot : Client.Slot}

/-- What `Client::report_latency` returns in a state of the client, and what it has sent by then:
the core client is called only if the duration fits. -/
inductive Reports (tracker : LatencyTracker crypto) (observed : Duration) (s : Client.State) :
    Outcome Error Unit → List Datagram → Prop
  | refused {error : Error} : latencyReport tracker observed = .err error →
      Reports tracker observed s (.err error) []
  | returned {report : ServiceLatencyReport} {i : ℕ} {slot : Client.Slot} {state : Report.State}
      {outcome : Outcome CoreError Unit} : latencyReport tracker observed = .ok report →
      s.slots[i]? = some slot → slot.call = .report [report] state →
      state.pc = .returned outcome →
      Reports tracker observed s (reportResult outcome) state.sent

def sampleKey : ApiKey := ⟨7, .none, sampleApiKey.limits⟩

/-- A request that hears nothing for 60 ms. -/
def sampleSilence : List Client.Event :=
  Client.sampleBegin 0 1 ++
    [.tick 100020000000, .wake 0 .elapsed, .wake 0 .socket, .wake 0 (.sent (.ok 100)),
      .wake 0 (.sent (.ok 100)), .tick 100040000000, .wake 0 .elapsed, .tick 100060000000,
      .wake 0 .elapsed]

/-- The reports and the outcome of a report that has returned. -/
def reported : Client.Call → Option (List ServiceLatencyReport × Outcome CoreError Unit)
  | .report reports ⟨.returned outcome, _⟩ => some (reports, outcome)
  | _ => none

end PublicClient

end Ratelimitly
