import Mathlib.Tactic
import Ratelimitly.Report
import Ratelimitly.Request

/-! A client with all its calls, its response router and what they share. -/
namespace Ratelimitly

open Lib

/-! ### The guards a call holds -/

/-- The new socket of a rebind that has not replaced the shared one yet. -/
def Steering.Pc.newSocket : Steering.Pc → Option FamilySockets
  | .epochReadyLock _ newSocket | .socketWrite _ newSocket => some newSocket
  | _ => none

/-- The guard of `steering_apply_lock` is held. -/
def Steering.Pc.applying : Steering.Pc → Bool
  | .storePending | .applyLock | .done _ _ => false
  | _ => true

/-- The write guard of `request_activity` is held. -/
def Steering.Pc.rebinding : Steering.Pc → Bool
  | .storePending | .applyLock | .activityWrite | .done _ _ => false
  | _ => true

/-- The statistics as they stand, once their lock was taken. -/
def Steering.Pc.stats : Steering.Pc → Option SteeringStats
  | .socketRead stats | .epochReadyLock stats _ | .socketWrite stats _ | .epochChanged stats _ _ =>
    some stats
  | .done _ stats => stats
  | _ => none

namespace Request.Pc

/-- The read guard of `request_activity` is held. -/
def active : Pc → Bool
  | .flying _ => true
  | _ => false

def steeringPc : Pc → Option Steering.Pc
  | .steering _ _ pc => some pc
  | _ => none

def applying (pc : Pc) : Bool := pc.steeringPc.any (·.applying)

def rebinding (pc : Pc) : Bool := pc.steeringPc.any (·.rebinding)

/-- The id under which a call is or was registered. -/
def requestId (pc : Pc) : Option (Bytes 16) := pc.flight.map (·.reg.requestId)

/-- `self.socket.read()` is held across the sends. -/
def sending : Pc → Bool
  | .flying flight =>
    match flight.state.pc with
    | .sending .. => true
    | _ => false
  | _ => false

/-- A future is dropped only at an await point; the store of the flag is none. -/
def suspended : Pc → Bool
  | .steering _ _ .storePending | .returned _ _ => false
  | _ => true

end Request.Pc

namespace Client

/-- The owners of the guards of `request_activity` and `steering_apply_lock`. -/
structure Guards where
  readers : List ℕ
  writer : Option ℕ
  applying : Option ℕ
  deriving DecidableEq, Repr

/-- The owner of an exclusive guard once call `i` is where it holds it or not. -/
def owner (current : Option ℕ) (i : ℕ) (holds : Bool) : Option ℕ :=
  if holds then some i else if current = some i then none else current

/-- A guard lives in the future of its call: it is there exactly as long as the call is at a point
that holds it. A dropped call has no such point. -/
def Guards.settle (guards : Guards) (i : ℕ) (pc : Option Request.Pc) : Guards where
  readers := if pc.any (·.active) then guards.readers.insert i else guards.readers.filter (· ≠ i)
  writer := owner guards.writer i (pc.any (·.rebinding))
  applying := owner guards.applying i (pc.any (·.applying))

/-- `inflight` maps a request id to the sender of the call that is registered under it. -/
abbrev Inflight := Bytes 16 → Option ℕ

/-- The registration and the drop of an `InflightRegistration`. -/
def Inflight.settle (inflight : Inflight) (i : ℕ) (old new : Option (Bytes 16)) : Inflight :=
  match old, new with
  | none, some id => Function.update inflight id (some i)
  | some id, none => Function.update inflight id none
  | _, _ => inflight

/-! ### States -/

inductive Call where
  | check (query : Query) (pc : Request.Pc)
  | report (reports : List ServiceLatencyReport) (state : Report.State)

/-- A call that was started, with the unread part of its response channel. -/
structure Slot where
  call : Call
  channel : List ResponsePacket
  dropped : Bool

/-- The point of a call to `check_rate_limit` that has not been dropped. -/
def Slot.live (slot : Slot) : Option Request.Pc :=
  match slot.dropped, slot.call with
  | false, .check _ pc => some pc
  | _, _ => none

def Slot.requestId (slot : Slot) : Option (Bytes 16) :=
  match slot.call with
  | .check _ pc => pc.requestId
  | .report _ _ => none

def Slot.sending (slot : Slot) : Bool :=
  !slot.dropped &&
    match slot.call with
    | .check _ pc => pc.sending
    | .report _ state =>
      match state.pc with
      | .sending .. => true
      | _ => false

def Slot.suspended (slot : Slot) : Bool :=
  !slot.dropped &&
    match slot.call with
    | .check _ pc => pc.suspended
    | .report _ state =>
      match state.pc with
      | .returned _ => false
      | _ => true

/-- Where `response_router` is, with the generation of its `active_socket`. -/
inductive RouterPc where
  /-- `socket.read().await` -/
  | reading
  /-- before `socket_epoch_ready.send_replace(active_epoch)`; not an await -/
  | acking (generation : ℕ) (epoch : UInt64)
  /-- `tokio::select!` -/
  | receiving (generation : ℕ)
  /-- before `sender.send(..)`; not an await -/
  | delivering (generation : ℕ) (call : ℕ) (packet : ResponsePacket)
  deriving DecidableEq, Repr

/-- `socket_epoch_ready`: its value, and whether its receiver has seen it. -/
structure EpochReady where
  value : UInt64
  seen : Bool
  deriving DecidableEq, Repr

/-- `generation`, `acked` and `received` are history: how often the socket was replaced, the last
generation that the router has acknowledged, and the datagrams that reached the router. -/
structure State where
  clock : ℕ
  servers : ServerList
  slots : List Slot
  inflight : Inflight
  guards : Guards
  steeringPending : Bool
  stats : SteeringStats
  socket : FamilySockets
  epoch : UInt64
  epochReady : EpochReady
  router : RouterPc
  generation : ℕ
  acked : ℕ
  received : List ResponsePacket

/-- `checked_sub(dns_refresh_interval_s + 1)`, or the time itself. Instants are counted from the
earliest one that the platform can represent, before which `checked_sub` yields `None`. -/
def initialLastDnsRefresh (dnsRefreshIntervalS : UInt64) (now : ℕ) : ℕ :=
  let span := min (dnsRefreshIntervalS.toNat + 1) (2 ^ 64 - 1) * 1000000000
  if span ≤ now then now - span else now

/-- The client that `CoreClient::new` puts together. -/
def start (config : CoreConfig) (socket : FamilySockets) (now : ℕ) : State where
  clock := now
  servers := ⟨[], initialLastDnsRefresh config.dnsRefreshIntervalS now⟩
  slots := []
  inflight := fun _ => none
  guards := ⟨[], none, none⟩
  steeringPending := false
  stats := ⟨0, 0, none, 0⟩
  socket := socket
  epoch := 0
  epochReady := ⟨0, true⟩
  router := .reading
  generation := 0
  acked := 0
  received := []

/-- `CoreClient::new`; the resolver is not part of the state. -/
def new (config : CoreConfig) (bindUdp : BindUdp) (now : ℕ) : Outcome CoreError State :=
  match FamilySockets.bind bindUdp 0 with
  | .error error => .err error
  | .ok socket =>
    match config.requestPolicy.horizonMs config.apiKey.limits.dedupTtlMsMax with
    | .err message => .err (.config message.toText)
    | .panic => .panic
    | .ok _ => .ok (start config socket now)

/-! ### Steps -/

/-- What the environment adds to what the shared state answers at an await point. A seed is drawn
for the packet that is built before the next one, if any. -/
inductive Wake where
  | lastRefresh (seed : PacketSeed)
  | refresh (resolver : Resolver) (seed : PacketSeed)
  | servers (resolver : Resolver)
  | activity (seed : PacketSeed)
  | socket
  | sent (result : Except IoError ℕ)
  | stats
  | received
  | elapsed
  | storePending
  | applyLock
  | activityWrite
  | steeringStats
  | socketRead (localAddr : Except IoError SocketAddr) (bindUdp : BindUdp)
  | epochReadyLock
  | socketWrite (localAddr : Except IoError SocketAddr)
  | epochChanged

inductive Event where
  | tick (now : ℕ)
  | check (query : Query)
  | report (reports : List ServiceLatencyReport)
  | wake (i : ℕ) (wake : Wake)
  | drop (i : ℕ)
  | routerRead
  | routerAck
  | epochChanged
  | datagram (packet : ResponsePacket)
  | receiveError
  | deliver

namespace State

/-- Request ids are fresh: the random ids of a client's requests are distinct. -/
def fresh (s : State) (id : Bytes 16) : Bool := s.slots.all fun slot => slot.requestId ≠ some id

/-- The answer to a call of `check_rate_limit`, if there is one now. -/
def requestReply (s : State) (channel : List ResponsePacket) : Wake → Option Request.Reply
  | .lastRefresh _ => some (.lastRefresh s.servers.lastDnsRefresh s.clock)
  | .refresh resolver _ => some (.refresh s.servers resolver s.clock)
  | .servers resolver => some (.servers s.servers.servers resolver)
  | .activity seed =>
    if s.guards.writer = none ∧ s.fresh seed.requestId then some (.activity seed s.clock) else none
  | .socket => some (.flight s.clock (.socket s.generation))
  | .sent result => some (.flight s.clock (.sent result))
  | .stats => some (.flight s.clock .stats)
  | .received => channel.head?.map fun packet => .flight s.clock (.received packet)
  | .elapsed => some (.flight s.clock .elapsed)
  | .storePending => some (.steering .storePending)
  | .applyLock =>
    if s.guards.applying = none then some (.steering (.applyLock s.steeringPending)) else none
  | .activityWrite =>
    if s.guards.readers = [] ∧ s.guards.writer = none then
      some (.steering (.activityWrite s.steeringPending))
    else none
  | .steeringStats => some (.steering (.stats s.stats))
  | .socketRead localAddr bindUdp => some (.steering (.socketRead localAddr bindUdp))
  | .epochReadyLock => some (.steering .epochReadyLock)
  | .socketWrite localAddr =>
    if s.slots.any (·.sending) then none
    else some (.steering (.socketWrite s.epoch localAddr s.epochReady.value))
  | .epochChanged =>
    if s.epochReady.seen then none
    else some (.steering (.epochChanged (some s.epochReady.value)))

/-- The answer to a call of `report_latency`. -/
def reportReply (s : State) : Wake → Option Report.Reply
  | .lastRefresh seed => some (.lastRefresh s.servers.lastDnsRefresh s.clock seed)
  | .refresh resolver seed => some (.refresh s.servers resolver s.clock seed)
  | .servers resolver => some (.servers s.servers.servers resolver)
  | .socket => some (.socket s.generation)
  | .sent result => some (.sent result)
  | .stats => some .stats
  | _ => none

/-- The stored servers after a wake-up. -/
def refreshed (s : State) (client : CoreClient) : Wake → ServerList
  | .refresh resolver _ =>
    (refreshServers client.ipText resolver client.config.apiKey.serviceDomain s.clock s.servers).2
  | _ => s.servers

/-- `*socket = new_socket` and the new epoch; then the router's answer is looked at for the first
time, unless the new socket has no address. -/
def replaceSocket (s : State) (newSocket : FamilySockets) (localAddr : Except IoError SocketAddr) :
    State :=
  { s with
    socket := newSocket
    epoch := s.epoch + 1
    generation := s.generation + 1
    epochReady := ⟨s.epochReady.value, s.epochReady.seen || localAddr.isOk⟩ }

/-- What a step of `apply_steering_feedback` changes in the shared state. -/
def steer (s : State) (pc : Steering.Pc) (reply : Steering.Reply) : State :=
  let s := { s with stats := ((Steering.step pc reply).bind (·.stats)).getD s.stats }
  match pc, reply with
  | _, .storePending => { s with steeringPending := true }
  | _, .activityWrite _ => { s with steeringPending := false }
  | .socketWrite _ newSocket, .socketWrite _ localAddr _ => s.replaceSocket newSocket localAddr
  | _, .epochChanged _ => { s with epochReady := ⟨s.epochReady.value, true⟩ }
  | _, _ => s

/-- A step of a call from `pc` to `pc'`: it changes the shared state, and the call takes and drops
guards and its registration. -/
def move (s : State) (client : CoreClient) (i : ℕ) (slot : Slot) (query : Query)
    (pc pc' : Request.Pc) (wake : Wake) (reply : Request.Reply) : State :=
  let s' :=
    match pc, reply with
    | .steering _ _ pc, .steering reply => s.steer pc reply
    | _, _ => { s with servers := s.refreshed client wake }
  let channel :=
    match wake with
    | .received => slot.channel.tail
    | _ => slot.channel
  { s' with
    slots := s.slots.set i { slot with call := .check query pc', channel }
    guards := s.guards.settle i (some pc')
    inflight := s.inflight.settle i pc.registered pc'.registered }

/-- The drop of a call's future, with its guards and its registration. -/
def dropCall (s : State) (i : ℕ) (slot : Slot) : State :=
  { s with
    slots := s.slots.set i { slot with dropped := true }
    guards := s.guards.settle i none
    inflight := s.inflight.settle i (slot.live.bind (·.registered)) none }

/-- `sender.send(..)`; the channel may have no receiver any more. -/
def deliver (s : State) (i : ℕ) (packet : ResponsePacket) : List Slot :=
  match s.slots[i]? with
  | some slot => s.slots.set i { slot with channel := slot.channel ++ [packet] }
  | none => s.slots

/-- The router looks up whom a datagram is for. -/
def route (s : State) (generation : ℕ) (packet : ResponsePacket) : RouterPc :=
  match peekRequestId packet.data with
  | .ok id =>
    match s.inflight id with
    | some i => .delivering generation i packet
    | none => .reading
  | _ => .reading

end State

variable (client : CoreClient)

def step (s : State) : Event → Option State
  | .tick now => if s.clock ≤ now then some { s with clock := now } else none
  | .check query =>
    some { s with slots := s.slots ++ [⟨.check query (Request.begin client query), [], false⟩] }
  | .report reports =>
    some { s with slots := s.slots ++ [⟨.report reports (Report.begin reports), [], false⟩] }
  | .wake i wake => do
    let slot ← s.slots[i]?
    if slot.dropped then none
    else
      match slot.call with
      | .check query pc => do
        let reply ← s.requestReply slot.channel wake
        let pc' ← Request.step client query pc reply
        some (s.move client i slot query pc pc' wake reply)
      | .report reports state => do
        let reply ← s.reportReply wake
        let state' ← Report.step client reports state reply
        some { s with
          servers := s.refreshed client wake
          slots := s.slots.set i { slot with call := .report reports state' } }
  | .drop i => do
    let slot ← s.slots[i]?
    if slot.suspended then some (s.dropCall i slot) else none
  | .routerRead =>
    match s.router with
    | .reading => some { s with router := .acking s.generation s.epoch }
    | _ => none
  | .routerAck =>
    match s.router with
    | .acking generation epoch =>
      some { s with router := .receiving generation, epochReady := ⟨epoch, false⟩, acked := generation }
    | _ => none
  | .epochChanged =>
    match s.router with
    | .receiving generation =>
      if generation ≠ s.generation then some { s with router := .reading } else none
    | _ => none
  | .datagram packet =>
    match s.router with
    | .receiving generation =>
      some { s with router := s.route generation packet, received := packet :: s.received }
    | _ => none
  | .receiveError =>
    match s.router with
    | .receiving _ => some { s with router := .reading }
    | _ => none
  | .deliver =>
    match s.router with
    | .delivering _ i packet => some { s with router := .reading, slots := s.deliver i packet }
    | _ => none

def lts : Lts State Event where
  init s := ∃ bindUdp now, new client.config bindUdp now = .ok s
  step s event t := step client s event = some t

theorem new_eq_ok_iff {config : CoreConfig} {bindUdp : BindUdp} {now : ℕ} {s : State} :
    new config bindUdp now = .ok s ↔ ∃ socket dedupTtlMs, FamilySockets.bind bindUdp 0 = .ok socket ∧
      config.requestPolicy.horizonMs config.apiKey.limits.dedupTtlMsMax = .ok dedupTtlMs ∧
      s = start config socket now := by
  unfold new
  constructor
  · intro h
    split at h
    next => cases h
    next socket hsocket =>
      split at h
      next => cases h
      next => cases h
      next dedupTtlMs hhorizon =>
        cases h
        exact ⟨socket, dedupTtlMs, hsocket, hhorizon, rfl⟩
  · rintro ⟨socket, dedupTtlMs, hsocket, hhorizon, rfl⟩
    simp [hsocket, hhorizon]

end Client

end Ratelimitly
