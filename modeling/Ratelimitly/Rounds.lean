import Mathlib.Tactic
import Ratelimitly.Lib.Lts
import Ratelimitly.Discovery
import Ratelimitly.ParserTotal

/-! The round loop and the completion delivery of a registered request. Each program counter is an
await point; a step runs the code from one await to the next. -/
namespace Ratelimitly

open Lib

/-- `Duration::from_millis`; instants and durations are in nanoseconds. -/
def fromMillis (ms : ℕ) : ℕ := ms * 1000000

structure ResponsePacket where
  data : List UInt8
  addr : SocketAddr
  deriving DecidableEq, Repr

/-- What `_check_rate_limit_with_retries` has fixed once the request is registered. -/
structure Registration where
  crypto : Crypto
  authMethod : AuthMethod
  policy : RequestPolicy
  dedupTtlMs : UInt32
  resolved : ResolvedTargets
  requestId : Bytes 16
  packet : List UInt8
  startedAt : ℕ

/-- The two uses of `send_to_missing`. -/
inductive Delivery where
  | round (k : ℕ)
  | completion (result : RateLimitResult)
  deriving DecidableEq, Repr

/-- The two receive loops. -/
inductive Window where
  | round (k : ℕ)
  | final
  deriving DecidableEq, Repr

/-- The locals of `send_to_missing`. -/
structure SendLoop where
  attempted : ℕ
  delivered : ℕ
  lastError : Option IoError
  failedServerIds : List UInt64
  deriving DecidableEq, Repr

namespace Rounds

inductive Pc where
  /-- `self.socket.read().await` -/
  | sendSocket (delivery : Delivery)
  /-- `self.send_datagram(..).await` -/
  | sending (delivery : Delivery) (socket : ℕ) (target : SocketAddr) (rest : List SocketAddr)
      (sends : SendLoop)
  /-- the statistics lock of `record_send_failures` -/
  | recordFailures (delivery : Delivery) (now : ℕ) (serverIds : List UInt64)
  /-- `timeout(remaining, response_rx.recv()).await` -/
  | receiving (window : Window) (deadline : ℕ)
  /-- the statistics lock of `accept_policy_response` -/
  | accepting (window : Window) (deadline : ℕ) (result : RateLimitResult)
  /-- before `apply_steering_feedback` -/
  | settled (result : RateLimitResult)
  | returned (outcome : Outcome CoreError RateLimitResult)
  deriving DecidableEq, Repr

/-- What a request does that others can see. -/
inductive Effect where
  | broadcast (round : ℕ)
  | attempt (delivery : Delivery) (socket : ℕ) (target : SocketAddr)
  | sendFailures (delivery : Delivery) (now : ℕ) (serverIds : List UInt64)
  | accepted (packet : ResponsePacket) (result : RateLimitResult)
  | counted (serverId : UInt64)
  | finalReceive
  | decided (outcome : Outcome CoreError (Option RateLimitResult))
  | completion
  deriving DecidableEq, Repr

/-- An effect with its time, and the delay accumulated by then. -/
structure Entry where
  time : ℕ
  delay : ℕ
  effect : Effect
  deriving DecidableEq, Repr

/-- `delay` and `log` are history: how much time went into sends and late wake-ups, and the effects
so far, latest first. -/
structure State where
  pc : Pc
  seenServerIds : List UInt64
  seenAddrs : List SocketAddr
  best : Option RateLimitResult
  clock : ℕ
  delay : ℕ
  log : List Entry
  deriving DecidableEq, Repr

/-- What an await point yields. A registered request's channel has a sender, so `recv` does not
yield `None`. -/
inductive Reply where
  | socket (handle : ℕ)
  | sent (result : Except IoError ℕ)
  | stats
  | received (packet : ResponsePacket)
  | elapsed

namespace State

def emit (s : State) (effect : Effect) : State :=
  { s with log := ⟨s.clock, s.delay, effect⟩ :: s.log }

/-- The part of a wait until `now` that a policy does not provide for: all of it in a delivery, what
exceeds the deadline in a receive loop. -/
def overrun (s : State) (now : ℕ) : ℕ :=
  match s.pc with
  | .receiving _ deadline | .accepting _ deadline _ => (now - deadline) - (s.clock - deadline)
  | _ => now - s.clock

def advance (s : State) (now : ℕ) : State :=
  { s with clock := now, delay := s.delay + s.overrun now }

end State

end Rounds

open Rounds

namespace Registration

variable (reg : Registration)

/-- The last round. -/
def lastRound : ℕ := reg.policy.replayCount.toNat

/-- The end of the deduplication lifetime. -/
def expiry : ℕ := reg.startedAt + fromMillis reg.dedupTtlMs.toNat

/-- `_parse_rate_response`. -/
def parseRateResponse (data : List UInt8) : Outcome CoreError RateLimitResult :=
  parseRateResponseWithAuth reg.crypto data reg.authMethod reg.authMethod.cookieHashCache
    reg.authMethod.aesKeyCache

/-- The answer of `accept_policy_response`, apart from its bookkeeping. The parsers do not panic. -/
def acceptedResult (packet : ResponsePacket) : Option RateLimitResult :=
  match peekServerId packet.data with
  | .ok serverId =>
    if reg.resolved.allowedServerIds ≠ [] ∧ serverId ∉ reg.resolved.allowedServerIds then none
    else
      match reg.parseRateResponse packet.data with
      | .ok result => some result
      | _ => none
  | _ => none

/-- `Duration::from_millis(unit_ms.saturating_mul(units))`. -/
def units (units : UInt32) : ℕ := fromMillis (reg.policy.phaseMs units).toNat

/-! ### The end of the rounds -/

/-- The code after the `async` block, up to `apply_steering_feedback`. -/
def conclude (outcome : Outcome CoreError (Option RateLimitResult)) (s : State) : State :=
  let s := s.emit (.decided outcome)
  match outcome with
  | .ok (some result) =>
    if reg.policy.completionDelivery ∧
        s.clock - reg.startedAt < fromMillis reg.dedupTtlMs.toNat then
      { s.emit .completion with pc := .sendSocket (.completion result) }
    else { s with pc := .settled result }
  | .ok none => { s with pc := .returned (.err .timeout) }
  | .err e => { s with pc := .returned (.err e) }
  | .panic => { s with pc := .returned .panic }

/-! ### Receive loops -/

def startRound (k : ℕ) (s : State) : State :=
  { s.emit (.broadcast k) with pc := .sendSocket (.round k) }

/-- `while Instant::now() < deadline` of the final receive phase. -/
def receiveFinal (deadline : ℕ) (s : State) : State :=
  if s.clock < deadline then { s with pc := .receiving .final deadline }
  else reg.conclude (.ok none) s

/-- The code after the receive loop of round `k`. -/
def leaveRound (k : ℕ) (s : State) : State :=
  if s.best.isSome then reg.conclude (.ok s.best) s
  else if k < reg.policy.replayCount.toNat then startRound (k + 1) s
  else if reg.policy.finalReceiveUnits > 0 then
    reg.receiveFinal (s.clock + reg.units reg.policy.finalReceiveUnits) (s.emit .finalReceive)
  else reg.conclude (.ok none) s

/-- `while Instant::now() < deadline` of round `k`. -/
def receiveRound (k deadline : ℕ) (s : State) : State :=
  if s.clock < deadline then { s with pc := .receiving (.round k) deadline }
  else reg.leaveRound k s

def receive : Window → ℕ → State → State
  | .round k => reg.receiveRound k
  | .final => reg.receiveFinal

/-- The code after a receive loop. -/
def leave : Window → State → State
  | .round k => reg.leaveRound k
  | .final => reg.conclude (.ok none)

/-- A datagram arrives: `accept_policy_response` up to its lock. -/
def onPacket (window : Window) (deadline : ℕ) (packet : ResponsePacket) (s : State) : State :=
  match reg.acceptedResult packet with
  | none => reg.receive window deadline s
  | some result =>
    { s.emit (.accepted packet result) with
      seenServerIds := s.seenServerIds.insert result.serverId
      seenAddrs := s.seenAddrs.insert packet.addr
      pc := .accepting window deadline result }

/-- `best.is_none_or(|current| compare_server_age(..).is_lt())`. -/
def keepOlder (best : Option RateLimitResult) (result : RateLimitResult) : Option RateLimitResult :=
  match best with
  | none => some result
  | some current =>
    if compareServerAge result.serverId current.serverId = .lt then some result else some current

/-- An accepted response after `accept_policy_response` returned it. -/
def onAccepted (window : Window) (deadline : ℕ) (result : RateLimitResult) (s : State) : State :=
  match window with
  | .final => reg.conclude (.ok (some result)) s
  | .round k =>
    let s := { s with best := keepOlder s.best result }
    if reg.resolved.oldestServerId = some result.serverId ∨ 0 < k then
      reg.conclude (.ok s.best) s
    else reg.receiveRound k deadline s

/-! ### Deliveries -/

/-- The code after `send_to_missing` returned. -/
def afterDelivery (delivery : Delivery) (result : Except CoreError Unit) (s : State) : State :=
  match delivery with
  | .completion selected => { s with pc := .settled selected }
  | .round k =>
    match result with
    | .error e => reg.conclude (.err e) s
    | .ok () =>
      match reg.policy.replayGap.units (UInt32.ofNat k) with
      | .ok gap => reg.receiveRound k (s.clock + reg.units gap) s
      | .err message => reg.conclude (.err (.config message.toText)) s
      | .panic => reg.conclude .panic s

def responded (s : State) (target : SocketAddr) : Bool :=
  match reg.resolved.targetServerIds target with
  | some id => s.seenServerIds.contains id
  | none => s.seenAddrs.contains target

/-- The code of `send_to_missing` after its loop. -/
def finishSends (delivery : Delivery) (sends : SendLoop) (s : State) : State :=
  if sends.delivered = 0 then
    match sends.lastError with
    | some error => reg.afterDelivery delivery (.error (.io error)) s
    | none => reg.afterDelivery delivery (.ok ()) s
  else if sends.delivered < sends.attempted ∧ sends.failedServerIds ≠ [] then
    { s with pc := .recordFailures delivery s.clock sends.failedServerIds }
  else reg.afterDelivery delivery (.ok ()) s

/-- The loop of `send_to_missing`. -/
def sendNext (delivery : Delivery) (socket : ℕ) : List SocketAddr → SendLoop → State → State
  | [], sends, s => reg.finishSends delivery sends s
  | target :: rest, sends, s =>
    if reg.responded s target then sendNext delivery socket rest sends s
    else
      { s.emit (.attempt delivery socket target) with
        pc := .sending delivery socket target rest { sends with attempted := sends.attempted + 1 } }

/-- The bookkeeping of one send. -/
def recordSend (target : SocketAddr) (result : Except IoError ℕ) (sends : SendLoop) : SendLoop :=
  match result with
  | .ok _ => { sends with delivered := sends.delivered + 1 }
  | .error error =>
    { sends with
      failedServerIds := sends.failedServerIds ++ (reg.resolved.targetServerIds target).toList
      lastError := some error }

/-! ### Steps -/

/-- The code from the await point `s.pc` to the next one. -/
def resume (s : State) (reply : Reply) : Option State :=
  match s.pc, reply with
  | .sendSocket delivery, .socket handle =>
    some (reg.sendNext delivery handle reg.resolved.targets ⟨0, 0, none, []⟩ s)
  | .sending delivery socket target rest sends, .sent result =>
    some (reg.sendNext delivery socket rest (reg.recordSend target result sends) s)
  | .recordFailures delivery now serverIds, .stats =>
    some (reg.afterDelivery delivery (.ok ()) (s.emit (.sendFailures delivery now serverIds)))
  | .receiving window deadline, .received packet => some (reg.onPacket window deadline packet s)
  | .receiving window deadline, .elapsed =>
    if deadline ≤ s.clock then some (reg.leave window s) else none
  | .accepting window deadline result, .stats =>
    some (reg.onAccepted window deadline result (s.emit (.counted result.serverId)))
  | _, _ => none

/-- One wake-up, at time `now`. -/
def step (s : State) (now : ℕ) (reply : Reply) : Option State :=
  if s.clock ≤ now then reg.resume (s.advance now) reply else none

/-- The ways from one await point to the next. -/
inductive Resumes (s : State) : Reply → State → Prop
  | socket {delivery handle} : s.pc = .sendSocket delivery →
      Resumes s (.socket handle)
        (reg.sendNext delivery handle reg.resolved.targets ⟨0, 0, none, []⟩ s)
  | sent {delivery socket target rest sends result} :
      s.pc = .sending delivery socket target rest sends →
      Resumes s (.sent result)
        (reg.sendNext delivery socket rest (reg.recordSend target result sends) s)
  | failures {delivery now serverIds} : s.pc = .recordFailures delivery now serverIds →
      Resumes s .stats (reg.afterDelivery delivery (.ok ())
        (s.emit (.sendFailures delivery now serverIds)))
  | received {window deadline packet} : s.pc = .receiving window deadline →
      Resumes s (.received packet) (reg.onPacket window deadline packet s)
  | elapsed {window deadline} : s.pc = .receiving window deadline → deadline ≤ s.clock →
      Resumes s .elapsed (reg.leave window s)
  | accepted {window deadline result} : s.pc = .accepting window deadline result →
      Resumes s .stats
        (reg.onAccepted window deadline result (s.emit (.counted result.serverId)))

variable {reg} {s t : State} {now : ℕ} {reply : Reply}

theorem resumes_of_resume (h : reg.resume s reply = some t) : reg.Resumes s reply t := by
  unfold resume at h
  split at h
  next hpc => exact Option.some.inj h ▸ .socket hpc
  next hpc => exact Option.some.inj h ▸ .sent hpc
  next hpc => exact Option.some.inj h ▸ .failures hpc
  next hpc => exact Option.some.inj h ▸ .received hpc
  next hpc =>
    split at h
    next hle => exact Option.some.inj h ▸ .elapsed hpc hle
    next => cases h
  next hpc => exact Option.some.inj h ▸ .accepted hpc
  next => cases h

theorem resumes_of_step (h : reg.step s now reply = some t) :
    s.clock ≤ now ∧ reg.Resumes (s.advance now) reply t := by
  unfold step at h
  split at h
  next hle => exact ⟨hle, resumes_of_resume h⟩
  next => cases h

/-- An accepted response comes from a datagram that parses, and its server is in the snapshot. -/
theorem acceptedResult_spec {packet : ResponsePacket} {result : RateLimitResult}
    (h : reg.acceptedResult packet = some result) :
    reg.parseRateResponse packet.data = .ok result ∧ ∃ header pos,
      parseTenantHeader packet.data = .ok (header, pos) ∧ result.serverId = header.keyId ∧
        (reg.resolved.allowedServerIds ≠ [] → header.keyId ∈ reg.resolved.allowedServerIds) := by
  unfold acceptedResult at h
  split at h
  next serverId hpeek =>
    split at h
    next => cases h
    next hallowed =>
      split at h
      next result' hparse =>
        cases h
        obtain ⟨header, pos, hheader, hid⟩ := exists_header_of_parse hparse
        obtain rfl := Outcome.ok.inj (hpeek.symm.trans (peekServerId_of_header hheader))
        exact ⟨hparse, header, pos, hheader, hid, fun hne => by tauto⟩
      next => cases h
  next => cases h

variable (reg)

def start : State where
  pc := .sendSocket (.round 0)
  seenServerIds := []
  seenAddrs := []
  best := none
  clock := reg.startedAt
  delay := 0
  log := [⟨reg.startedAt, 0, .broadcast 0⟩]

def lts : Lts State (ℕ × Reply) where
  init s := s = reg.start
  step s i t := reg.step s i.1 i.2 = some t

end Registration

/-! ### A sample request to two servers under the default policy -/

def loopback : IpAddr := .v4 ⟨[127, 0, 0, 1], rfl⟩

def sampleAddr (port : UInt16) : SocketAddr := .v4 ⟨[127, 0, 0, 1], rfl⟩ port

def sampleTargets : ResolvedTargets :=
  (ResolvedTargets.empty.push (sampleAddr 1) (some 1)).push (sampleAddr 2) (some 2)

def sampleRegistration : Registration where
  crypto := ⟨fun _ _ _ _ => none, fun _ _ _ _ => none, fun _ => .ofList 32 []⟩
  authMethod := .none
  policy := .default
  dedupTtlMs := 60
  resolved := sampleTargets
  requestId := .ofList 16 []
  packet := []
  startedAt := 0

/-- An empty grant by the server with a small id. -/
def sampleResponse (serverId : UInt8) : ResponsePacket where
  data := [82, 76, 40, 0] ++ serverId :: List.replicate 35 0 ++ [78, 65, 4, 0] ++
    [82, 82, 12, 0, 0, 0, 0, 0, 0, 0, 0, 0]
  addr := sampleAddr serverId.toUInt16

def sampleGrant (serverId : UInt64) : RateLimitResult := ⟨true, [], [], serverId, false⟩

end Ratelimitly
