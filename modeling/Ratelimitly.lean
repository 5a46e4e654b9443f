import Ratelimitly.Lib.Outcome
import Ratelimitly.Lib.Bytes
import Ratelimitly.Lib.Word
import Ratelimitly.Lib.Digits
import Ratelimitly.Lib.Register
import Ratelimitly.Lib.Text
import Ratelimitly.Error
import Ratelimitly.Protocol
import Ratelimitly.Wire
import Ratelimitly.RequestPolicy
import Ratelimitly.Config
import Ratelimitly.ResponseParser
import Ratelimitly.ResponseFormat
import Ratelimitly.Aead
import Ratelimitly.RequestBuilder
import Ratelimitly.RequestFormat
import Ratelimitly.Authenticity
import Ratelimitly.ApiKeyCodec
import Ratelimitly.Bech32Symbols
import Ratelimitly.Bech32Text
import Ratelimitly.ApiKeyFormat
import Ratelimitly.ApiKeyCorruption
import Ratelimitly.ParserTotal
import Ratelimitly.Lib.Lts
import Ratelimitly.Discovery
import Ratelimitly.Rounds
import Ratelimitly.SendSchedule
import Ratelimitly.Horizon
import Ratelimitly.Selection
import Ratelimitly.Steering
import Ratelimitly.Request
import Ratelimitly.Flights
import Ratelimitly.Housekeeping
import Ratelimitly.SendLaw
import Ratelimitly.Report
import Ratelimitly.Datagrams
import Ratelimitly.Effects
import Ratelimitly.Client
import Ratelimitly.ClientSteps
import Ratelimitly.ClientGuards
import Ratelimitly.SocketEpochs
import Ratelimitly.SteeringAdvice
import Ratelimitly.StoredServers
import Ratelimitly.Response
import Ratelimitly.Inflight
import Ratelimitly.Answers
import Ratelimitly.ColdStart
import Ratelimitly.Families
import Ratelimitly.Rotation
import Ratelimitly.Definitions
import Ratelimitly.ContentIds
import Ratelimitly.Schedules
import Ratelimitly.Policies
import Ratelimitly.MetricsLabels
import Ratelimitly.ServerNames
import Ratelimitly.Routing
import Ratelimitly.Untrusted
import Ratelimitly.PortSearch
import Ratelimitly.Broadcast
import Ratelimitly.Traffic
import Ratelimitly.Completion
import Ratelimitly.Lib.Progress
import Ratelimitly.Termination
import Ratelimitly.Liveness
import Ratelimitly.Marks
import Ratelimitly.Deliveries
import Ratelimitly.Statistics
import Ratelimitly.Deadlines
import Ratelimitly.Invisible
import Ratelimitly.Capacity
import Ratelimitly.ServiceDomains
import Ratelimitly.PublicClient
import Ratelimitly.Failures
import Ratelimitly.Snapshots
import Ratelimitly.Lib.Merge
import Ratelimitly.Receiving
import Ratelimitly.Freshness
import Ratelimitly.Nonces
import Ratelimitly.Counters
import Ratelimitly.Metering
import Ratelimitly.Responses
