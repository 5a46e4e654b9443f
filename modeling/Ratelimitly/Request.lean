import Mathlib.Tactic
import Ratelimitly.RequestBuilder
import Ratelimitly.Rounds
import Ratelimitly.Steering

/-! A whole call of `check_rate_limit`, from its first check to its return. -/
namespace Ratelimitly

open Lib Rounds

/-- What a client keeps for its whole life. -/
structure CoreClient where
  crypto : Crypto
  ipText : IpText
  config : CoreConfig

/-- The arguments of `check_rate_limit`. -/
structure Query where
  resources : List ResourceRequest
  guards : List LatencyGuard
  metricsLabel : Option String
  deriving DecidableEq, Repr

/-- A registered request: what is fixed and where its round loop is. -/
structure Flight where
  reg : Registration
  state : State

namespace Request

inductive Pc where
  /-- `self.last_dns_refresh.lock().await` -/
  | refreshCheck (dedupTtlMs : UInt32)
  /-- `self._refresh_servers().await` -/
  | refreshing (dedupTtlMs : UInt32)
  /-- `self.current_targets().await` -/
  | resolving (dedupTtlMs : UInt32)
  /-- `self.request_activity.read().await` -/
  | entering (dedupTtlMs : UInt32) (resolved : ResolvedTargets)
  | flying (flight : Flight)
  /-- `self.apply_steering_feedback(&result).await` -/
  | steering (flight : Flight) (result : RateLimitResult) (pc : Steering.Pc)
  | returned (flight : Option Flight) (outcome : Outcome CoreError RateLimitResult)

/-- What an await point yields, with the values that are read before the next one. -/
inductive Reply where
  | lastRefresh (lastDnsRefresh now : ℕ)
  | refresh (servers : ServerList) (resolver : Resolver) (now : ℕ)
  | servers (servers : List ServerEndpoint) (resolver : Resolver)
  | activity (seed : PacketSeed) (now : ℕ)
  | flight (now : ℕ) (reply : Rounds.Reply)
  | steering (reply : Steering.Reply)

/-- The registration and the round loop's locals, while the call has them or when it had them. -/
def Pc.flight : Pc → Option Flight
  | .flying flight | .steering flight _ _ => some flight
  | .returned flight _ => flight
  | _ => none

/-- The inflight registration that has not been dropped. -/
def Pc.registered : Pc → Option (Bytes 16)
  | .flying flight | .steering flight _ _ => some flight.reg.requestId
  | _ => none

variable (client : CoreClient) (query : Query)

/-- The local answer to an empty request. -/
def localGrant : RateLimitResult := ⟨true, [], [], 0, false⟩

/-- The checks before the first await. -/
def begin : Pc :=
  let limits := client.config.apiKey.limits
  match validateRateWindowsAgainstQuota query.resources (some limits.rateWindowSizeMsMax) with
  | .err error => .returned none (.err error)
  | .panic => .returned none .panic
  | .ok () =>
    if query.resources = [] ∧ query.guards = [] then .returned none (.ok localGrant)
    else
      match client.config.requestPolicy.horizonMs limits.dedupTtlMsMax with
      | .err message => .returned none (.err (.config message.toText))
      | .panic => .returned none .panic
      | .ok dedupTtlMs => .refreshCheck dedupTtlMs

/-- `elapsed().as_secs() > dns_refresh_interval_s`. -/
def refreshDue (lastDnsRefresh now : ℕ) : Bool :=
  (now - lastDnsRefresh) / 1000000000 > client.config.dnsRefreshIntervalS.toNat

/-- The snapshot of `current_targets`, and the check that it has a target. -/
def enter (dedupTtlMs : UInt32) (servers : List ServerEndpoint) (resolver : Resolver) : Pc :=
  match currentTargets client.ipText resolver servers with
  | .err error => .returned none (.err error)
  | .panic => .returned none .panic
  | .ok resolved =>
    if resolved.targets = [] then .returned none (.err (.dns "No servers available"))
    else .entering dedupTtlMs resolved

/-- What a packet registers. -/
def registration (dedupTtlMs : UInt32) (resolved : ResolvedTargets) (seed : PacketSeed) (now : ℕ)
    (packet : List UInt8) : Registration where
  crypto := client.crypto
  authMethod := client.config.apiKey.authMethod
  policy := client.config.requestPolicy
  dedupTtlMs := dedupTtlMs
  resolved := resolved
  requestId := seed.requestId
  packet := packet
  startedAt := now

/-- The packet is built, and only then is the request registered. -/
def register (dedupTtlMs : UInt32) (resolved : ResolvedTargets) (seed : PacketSeed) (now : ℕ) : Pc :=
  match buildRateRequestPacket client.crypto client.config.apiKey seed dedupTtlMs query.resources
      query.guards query.metricsLabel with
  | .err error => .returned none (.err error)
  | .panic => .returned none .panic
  | .ok packet =>
    let reg := registration client dedupTtlMs resolved seed now packet
    .flying ⟨reg, reg.start⟩

/-- `self.apply_steering_feedback(&result).await?; Ok(result)`. -/
def steer (flight : Flight) (result : RateLimitResult) (pc : Steering.Pc) : Pc :=
  match pc with
  | .done (.ok ()) _ => .returned (some flight) (.ok result)
  | .done (.error error) _ => .returned (some flight) (.err error)
  | pc => .steering flight result pc

/-- The code after the completion delivery. -/
def leaveFlight (flight : Flight) : Pc :=
  match flight.state.pc with
  | .settled result => steer flight result (Steering.start client.config result)
  | .returned outcome => .returned (some flight) outcome
  | _ => .flying flight

/-- The code from one await point to the next. -/
def step : Pc → Reply → Option Pc
  | .refreshCheck dedupTtlMs, .lastRefresh lastDnsRefresh now =>
    some (if refreshDue client lastDnsRefresh now then .refreshing dedupTtlMs
      else .resolving dedupTtlMs)
  | .refreshing dedupTtlMs, .refresh servers resolver now =>
    some (match (refreshServers client.ipText resolver client.config.apiKey.serviceDomain now
      servers).1 with
    | .ok () => .resolving dedupTtlMs
    | .err error => .returned none (.err error)
    | .panic => .returned none .panic)
  | .resolving dedupTtlMs, .servers servers resolver =>
    some (enter client dedupTtlMs servers resolver)
  | .entering dedupTtlMs resolved, .activity seed now =>
    some (register client query dedupTtlMs resolved seed now)
  | .flying flight, .flight now reply =>
    (flight.reg.step flight.state now reply).map fun state => leaveFlight client ⟨flight.reg, state⟩
  | .steering flight result pc, .steering reply => (Steering.step pc reply).map (steer flight result)
  | _, _ => none

def lts : Lts Pc Reply where
  init pc := pc = begin client query
  step pc reply pc' := step client query pc reply = some pc'

/-- The ways from one await point to the next. -/
inductive Steps : Pc → Reply → Pc → Prop
  | lastRefresh {dedupTtlMs lastDnsRefresh now} :
      Steps (.refreshCheck dedupTtlMs) (.lastRefresh lastDnsRefresh now)
        (if refreshDue client lastDnsRefresh now then .refreshing dedupTtlMs
          else .resolving dedupTtlMs)
  | refreshed {dedupTtlMs servers resolver now} :
      (refreshServers client.ipText resolver client.config.apiKey.serviceDomain now servers).1 =
        .ok () →
      Steps (.refreshing dedupTtlMs) (.refresh servers resolver now) (.resolving dedupTtlMs)
  | unrefreshed {dedupTtlMs servers resolver now outcome} : (∀ result, outcome ≠ .ok result) →
      Steps (.refreshing dedupTtlMs) (.refresh servers resolver now) (.returned none outcome)
  | servers {dedupTtlMs servers resolver} :
      Steps (.resolving dedupTtlMs) (.servers servers resolver)
        (enter client dedupTtlMs servers resolver)
  | activity {dedupTtlMs resolved seed now} :
      Steps (.entering dedupTtlMs resolved) (.activity seed now)
        (register client query dedupTtlMs resolved seed now)
  | flight {flight now reply state} : flight.reg.step flight.state now reply = some state →
      Steps (.flying flight) (.flight now reply) (leaveFlight client ⟨flight.reg, state⟩)
  | steering {flight result pc reply pc'} : Steering.step pc reply = some pc' →
      Steps (.steering flight result pc) (.steering reply) (steer flight result pc')

variable {client query} {pc pc' : Pc} {reply : Reply}

theorem steps_of_step (h : step client query pc reply = some pc') :
    Steps client query pc reply pc' := by
  unfold step at h
  split at h
  next => exact Option.some.inj h ▸ .lastRefresh
  next =>
    split at h
    next hrefreshed => exact Option.some.inj h ▸ .refreshed hrefreshed
    next => exact Option.some.inj h ▸ .unrefreshed nofun
    next => exact Option.some.inj h ▸ .unrefreshed nofun
  next => exact Option.some.inj h ▸ .servers
  next => exact Option.some.inj h ▸ .activity
  next =>
    obtain ⟨state, hstate, rfl⟩ := Option.map_eq_some_iff.mp h
    exact .flight hstate
  next =>
    obtain ⟨pc, hpc, rfl⟩ := Option.map_eq_some_iff.mp h
    exact .steering hpc
  next => cases h

end Request

end Ratelimitly
