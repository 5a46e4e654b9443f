import Mathlib.Tactic
import Ratelimitly.Request

/-! A whole call of `report_latency`. -/
namespace Ratelimitly

open Lib

/-- A datagram handed to `send_datagram`. -/
structure Datagram where
  socket : ℕ
  target : SocketAddr
  packet : List UInt8
  deriving DecidableEq, Repr

namespace Report

inductive Pc where
  /-- `self.last_dns_refresh.lock().await` -/
  | refreshCheck
  /-- `self._refresh_servers().await` -/
  | refreshing
  /-- `self.current_targets().await` -/
  | resolving (packet : List UInt8)
  /-- `self.socket.read().await` -/
  | sendSocket (packet : List UInt8) (resolved : ResolvedTargets)
  /-- `self.send_datagram(..).await` -/
  | sending (packet : List UInt8) (resolved : ResolvedTargets) (socket : ℕ) (target : SocketAddr)
      (rest : List SocketAddr) (sends : SendLoop)
  /-- the statistics lock of `record_send_failures` -/
  | recordFailures (serverIds : List UInt64)
  | returned (outcome : Outcome CoreError Unit)

/-- What an await point yields, with the values that are drawn before the next one. -/
inductive Reply where
  | lastRefresh (lastDnsRefresh now : ℕ) (seed : PacketSeed)
  | refresh (servers : ServerList) (resolver : Resolver) (now : ℕ) (seed : PacketSeed)
  | servers (servers : List ServerEndpoint) (resolver : Resolver)
  | socket (handle : ℕ)
  | sent (result : Except IoError ℕ)
  | stats

/-- `sent` is history: the datagrams so far, latest first. -/
structure State where
  pc : Pc
  sent : List Datagram

variable (client : CoreClient) (reports : List ServiceLatencyReport)

def begin : State where
  pc := if reports = [] then .returned (.ok ()) else .refreshCheck
  sent := []

/-- The packet is built before anything is resolved. -/
def build (seed : PacketSeed) : Pc :=
  match buildLatencyReportPacket client.crypto client.config.apiKey seed reports with
  | .ok packet => .resolving packet
  | .err error => .returned (.err error)
  | .panic => .returned .panic

/-- The code after the send loop. -/
def finishSends (resolved : ResolvedTargets) (sends : SendLoop) : Pc :=
  if sends.delivered = 0 then
    match sends.lastError with
    | some error => .returned (.err (.io error))
    | none => .returned (.ok ())
  else if sends.delivered < resolved.targets.length ∧ sends.failedServerIds ≠ [] then
    .recordFailures sends.failedServerIds
  else .returned (.ok ())

/-- The send loop from its next target on. -/
def sendNext (packet : List UInt8) (resolved : ResolvedTargets) (socket : ℕ)
    (targets : List SocketAddr) (sends : SendLoop) (sent : List Datagram) : State :=
  match targets with
  | [] => ⟨finishSends resolved sends, sent⟩
  | target :: rest =>
    ⟨.sending packet resolved socket target rest { sends with attempted := sends.attempted + 1 },
      ⟨socket, target, packet⟩ :: sent⟩

/-- The bookkeeping of one send. -/
def recordSend (resolved : ResolvedTargets) (target : SocketAddr) (result : Except IoError ℕ)
    (sends : SendLoop) : SendLoop :=
  match result with
  | .ok _ => { sends with delivered := sends.delivered + 1 }
  | .error error =>
    { sends with
      failedServerIds := sends.failedServerIds ++ (resolved.targetServerIds target).toList
      lastError := some error }

/-- The code from one await point to the next. -/
def step (s : State) (reply : Reply) : Option State :=
  match s.pc, reply with
  | .refreshCheck, .lastRefresh lastDnsRefresh now seed =>
    some { s with
      pc := if Request.refreshDue client lastDnsRefresh now then .refreshing
        else build client reports seed }
  | .refreshing, .refresh servers resolver now seed =>
    some { s with
      pc := match (refreshServers client.ipText resolver client.config.apiKey.serviceDomain now
          servers).1 with
        | .ok () => build client reports seed
        | .err error => .returned (.err error)
        | .panic => .returned .panic }
  | .resolving packet, .servers servers resolver =>
    some { s with
      pc := match currentTargets client.ipText resolver servers with
        | .ok resolved => .sendSocket packet resolved
        | .err error => .returned (.err error)
        | .panic => .returned .panic }
  | .sendSocket packet resolved, .socket handle =>
    some (sendNext packet resolved handle resolved.targets ⟨0, 0, none, []⟩ s.sent)
  | .sending packet resolved socket target rest sends, .sent result =>
    some (sendNext packet resolved socket rest (recordSend resolved target result sends) s.sent)
  | .recordFailures _, .stats => some { s with pc := .returned (.ok ()) }
  | _, _ => none

def lts : Lts State Reply where
  init s := s = begin reports
  step s reply t := step client reports s reply = some t

/-- The ways from one await point to the next. -/
inductive Steps (sent : List Datagram) : Pc → Reply → State → Prop
  | lastRefresh {lastDnsRefresh now seed} :
      Steps sent .refreshCheck (.lastRefresh lastDnsRefresh now seed)
        ⟨if Request.refreshDue client lastDnsRefresh now then .refreshing
          else build client reports seed, sent⟩
  | refreshed {servers resolver now seed} :
      (refreshServers client.ipText resolver client.config.apiKey.serviceDomain now servers).1 =
        .ok () →
      Steps sent .refreshing (.refresh servers resolver now seed) ⟨build client reports seed, sent⟩
  | unrefreshed {servers resolver now seed error} :
      (refreshServers client.ipText resolver client.config.apiKey.serviceDomain now servers).1 =
        .err error →
      Steps sent .refreshing (.refresh servers resolver now seed) ⟨.returned (.err error), sent⟩
  | resolved {packet servers resolver resolved} :
      currentTargets client.ipText resolver servers = .ok resolved →
      Steps sent (.resolving packet) (.servers servers resolver) ⟨.sendSocket packet resolved, sent⟩
  | unresolved {packet servers resolver outcome} :
      (∀ resolved, currentTargets client.ipText resolver servers ≠ .ok resolved) →
      outcome ≠ .ok () →
      Steps sent (.resolving packet) (.servers servers resolver) ⟨.returned outcome, sent⟩
  | socket {packet resolved handle} : Steps sent (.sendSocket packet resolved) (.socket handle)
      (sendNext packet resolved handle resolved.targets ⟨0, 0, none, []⟩ sent)
  | sent {packet resolved socket target rest sends result} :
      Steps sent (.sending packet resolved socket target rest sends) (.sent result)
        (sendNext packet resolved socket rest (recordSend resolved target result sends) sent)
  | stats {serverIds} : Steps sent (.recordFailures serverIds) .stats ⟨.returned (.ok ()), sent⟩

variable {client reports} {s t : State} {reply : Reply}

theorem steps_of_step (h : step client reports s reply = some t) :
    Steps client reports s.sent s.pc reply t := by
  obtain ⟨pc, sent⟩ := s
  unfold step at h
  split at h
  next heq =>
    cases heq
    exact Option.some.inj h ▸ .lastRefresh
  next heq =>
    cases heq
    cases h
    split
    next hrefreshed => exact .refreshed hrefreshed
    next hrefreshed => exact .unrefreshed hrefreshed
    next hrefreshed => exact absurd hrefreshed (not_panic_refreshServers _)
  next heq =>
    cases heq
    cases h
    split
    next hresolved => exact .resolved hresolved
    next herr => exact .unresolved (by simp [herr]) nofun
    next hpanic => exact .unresolved (by simp [hpanic]) nofun
  next heq =>
    cases heq
    exact Option.some.inj h ▸ .socket
  next heq =>
    cases heq
    exact Option.some.inj h ▸ .sent
  next heq =>
    cases heq
    exact Option.some.inj h ▸ .stats
  next => cases h

/-- The packet of the call for the given draws. -/
def IsPacket (client : CoreClient) (reports : List ServiceLatencyReport) (packet : List UInt8) :
    Prop :=
  ∃ seed, buildLatencyReportPacket client.crypto client.config.apiKey seed reports = .ok packet

/-- The packet at hand is one that was built, and nothing is sent before that. -/
def Pc.Sound (client : CoreClient) (reports : List ServiceLatencyReport) (sent : List Datagram) :
    Pc → Prop
  | .refreshCheck | .refreshing => sent = []
  | .resolving packet | .sendSocket packet _ => IsPacket client reports packet ∧ sent = []
  | .sending packet _ _ _ _ _ => IsPacket client reports packet
  | .recordFailures _ | .returned _ => True

structure Sound (client : CoreClient) (reports : List ServiceLatencyReport) (s : State) : Prop where
  sent : ∀ datagram ∈ s.sent, IsPacket client reports datagram.packet
  pc : s.pc.Sound client reports s.sent

theorem sound_build (seed : PacketSeed) : (build client reports seed).Sound client reports [] := by
  unfold build
  split
  next packet hpacket => exact ⟨⟨seed, hpacket⟩, rfl⟩
  next => trivial
  next => trivial

theorem sound_finishSends (resolved : ResolvedTargets) (sends : SendLoop) (sent : List Datagram) :
    (finishSends resolved sends).Sound client reports sent := by
  unfold finishSends
  split
  · split <;> trivial
  · split <;> trivial

theorem sound_sendNext {packet : List UInt8} {resolved : ResolvedTargets} {socket : ℕ}
    {targets : List SocketAddr} {sends : SendLoop} {sent : List Datagram}
    (hpacket : IsPacket client reports packet)
    (hsent : ∀ datagram ∈ sent, IsPacket client reports datagram.packet) :
    Sound client reports (sendNext packet resolved socket targets sends sent) := by
  cases targets with
  | nil => exact ⟨hsent, sound_finishSends _ _ _⟩
  | cons target rest =>
    refine ⟨fun datagram hd => ?_, hpacket⟩
    rcases List.mem_cons.mp hd with rfl | hd
    · exact hpacket
    · exact hsent datagram hd

theorem sound_step (h : Sound client reports s) (hstep : step client reports s reply = some t) :
    Sound client reports t := by
  obtain ⟨pc, sent⟩ := s
  obtain ⟨hsent, hpc⟩ := h
  cases steps_of_step hstep with
  | lastRefresh =>
    cases hpc
    refine ⟨hsent, ?_⟩
    dsimp only
    split
    · rfl
    · exact sound_build _
  | refreshed =>
    cases hpc
    exact ⟨hsent, sound_build _⟩
  | unrefreshed | unresolved | stats => exact ⟨hsent, trivial⟩
  | resolved => exact ⟨hsent, hpc⟩
  | socket => exact sound_sendNext hpc.1 hsent
  | sent => exact sound_sendNext hpc hsent

theorem sound_begin : Sound client reports (begin reports) := by
  refine ⟨by simp [begin], ?_⟩
  unfold begin
  dsimp only
  split
  · trivial
  · rfl

theorem sound_reachable (h : (lts client reports).Reachable s) : Sound client reports s := by
  refine h.invariant ?_ ?_
  · rintro _ rfl
    exact sound_begin
  · intro s reply t _ hs hstep
    exact sound_step hs hstep

end Report

end Ratelimitly
