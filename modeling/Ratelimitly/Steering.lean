import Mathlib.Tactic
import Ratelimitly.Config
import Ratelimitly.Discovery
import Ratelimitly.Protocol

/-! Source-port steering after a response: `apply_steering_feedback`. -/
namespace Ratelimitly

open Lib

def steeringPortMin : UInt16 := 49152
def steeringPortCount : ℕ := 65535 - steeringPortMin.toNat + 1

def nextSteeringPort (port : UInt16) : UInt16 :=
  if ¬ (steeringPortMin ≤ port ∧ port < 65535) then steeringPortMin else port + 1

/-- The sockets of the two address families, as handles. -/
structure FamilySockets where
  v4 : Option ℕ
  v6 : Option ℕ
  deriving DecidableEq, Repr

/-- What `bind_udp_socket_for_family` yields for a port and `ipv6`. -/
abbrev BindUdp := UInt16 → Bool → Except CoreError ℕ

/-- `Err(RClientError::Io(error))` with `error.kind() == AddrInUse`. -/
def isAddrInUse {α : Type} : Except CoreError α → Bool
  | .error (.io error) => error.kind = .addrInUse
  | _ => false

def FamilySockets.bind (bindUdp : BindUdp) (port : UInt16) : Except CoreError FamilySockets :=
  let v4 := bindUdp port false
  let v6 := bindUdp port true
  if isAddrInUse v4 ∨ isAddrInUse v6 then .error (.io ⟨.addrInUse, "address in use"⟩)
  else
    match v4, v6 with
    | .error error, .error _ => .error error
    | v4, v6 => .ok ⟨v4.toOption, v6.toOption⟩

/-- The loop of `bind_next_steering_socket`. -/
def bindLoop (bindUdp : BindUdp) :
    ℕ → UInt16 → Option IoError → Except CoreError (FamilySockets × UInt16)
  | 0, _, lastError =>
    .error (.io (lastError.getD
      ⟨.addrNotAvailable, "no exclusive UDP source port is available for steering"⟩))
  | tries + 1, candidate, _ =>
    match FamilySockets.bind bindUdp candidate with
    | .ok socket => .ok (socket, nextSteeringPort candidate)
    | .error (.io error) =>
      if error.kind = .addrInUse then
        bindLoop bindUdp tries (nextSteeringPort candidate) (some error)
      else .error (.io error)
    | .error error => .error error

/-- The first port that `bind_next_steering_socket` tries. -/
def firstSteeringPort (nextPort currentPort : UInt16) : UInt16 :=
  if nextPort = 0 then nextSteeringPort currentPort else nextPort

def bindNextSteeringSocket (bindUdp : BindUdp) (nextPort currentPort : UInt16) :
    Except CoreError (FamilySockets × UInt16) :=
  bindLoop bindUdp steeringPortCount (firstSteeringPort nextPort currentPort) none

structure SteeringStats where
  feedbackZeroCount : UInt64
  portChanges : UInt64
  lastPort : Option UInt16
  nextPort : UInt16
  deriving DecidableEq, Repr

namespace Steering

inductive Pc where
  /-- before `self.steering_pending.store(true, ..)`; not an await -/
  | storePending
  /-- `self.steering_apply_lock.lock().await` -/
  | applyLock
  /-- `self.request_activity.write().await` -/
  | activityWrite
  /-- `self.steering_stats.lock().await` -/
  | statsLock
  /-- `self.socket.read().await` -/
  | socketRead (stats : SteeringStats)
  /-- `self.socket_epoch_ready.lock().await` -/
  | epochReadyLock (stats : SteeringStats) (newSocket : FamilySockets)
  /-- `self.socket.write().await` -/
  | socketWrite (stats : SteeringStats) (newSocket : FamilySockets)
  /-- `socket_epoch_ready.changed().await` -/
  | epochChanged (stats : SteeringStats) (nextEpoch : UInt64) (actualPort : UInt16)
  /-- The statistics are as left behind, if their lock was taken. -/
  | done (result : Except CoreError Unit) (stats : Option SteeringStats)
  deriving DecidableEq, Repr

/-- What an await point yields, with the values that are read before the next one. -/
inductive Reply where
  | storePending
  | applyLock (steeringPending : Bool)
  | activityWrite (steeringPending : Bool)
  | stats (stats : SteeringStats)
  | socketRead (localAddr : Except IoError SocketAddr) (bindUdp : BindUdp)
  | epochReadyLock
  | socketWrite (epoch : UInt64) (localAddr : Except IoError SocketAddr) (ready : UInt64)
  /-- `None` when the router has dropped its sender. -/
  | epochChanged (ready : Option UInt64)

def start (config : CoreConfig) (result : RateLimitResult) : Pc :=
  if ¬ config.apiKey.steeringFeedback ∨ result.steeringFeedback ∨ config.ignoreSteeringFeedback then
    .done (.ok ()) none
  else .storePending

/-- `while *socket_epoch_ready.borrow_and_update() != next_epoch`, and the statements after it. -/
def awaitEpoch (stats : SteeringStats) (nextEpoch : UInt64) (actualPort : UInt16) (ready : UInt64) :
    Pc :=
  if ready ≠ nextEpoch then .epochChanged stats nextEpoch actualPort
  else
    let portChanges :=
      if stats.lastPort ≠ some actualPort then stats.portChanges + 1 else stats.portChanges
    .done (.ok ()) (some { stats with portChanges, lastPort := some actualPort })

/-- The code from one await point to the next. -/
def step : Pc → Reply → Option Pc
  | .storePending, .storePending => some .applyLock
  | .applyLock, .applyLock steeringPending =>
    some (if ¬ steeringPending then .done (.ok ()) none else .activityWrite)
  | .activityWrite, .activityWrite steeringPending =>
    some (if ¬ steeringPending then .done (.ok ()) none else .statsLock)
  | .statsLock, .stats stats =>
    some (.socketRead { stats with feedbackZeroCount := stats.feedbackZeroCount + 1 })
  | .socketRead stats, .socketRead localAddr bindUdp =>
    some (match localAddr with
    | .error error => .done (.error (.io error)) (some stats)
    | .ok current =>
      match bindNextSteeringSocket bindUdp stats.nextPort current.port with
      | .error error => .done (.error error) (some stats)
      | .ok (newSocket, nextPort) => .epochReadyLock { stats with nextPort } newSocket)
  | .epochReadyLock stats newSocket, .epochReadyLock => some (.socketWrite stats newSocket)
  | .socketWrite stats _, .socketWrite epoch localAddr ready =>
    some (match localAddr with
    | .error error => .done (.error (.io error)) (some stats)
    | .ok actual => awaitEpoch stats (epoch + 1) actual.port ready)
  | .epochChanged stats nextEpoch actualPort, .epochChanged ready =>
    some (match ready with
    | none => .done (.error (.io
        ⟨.other, "response router stopped during source-port steering"⟩)) (some stats)
    | some ready => awaitEpoch stats nextEpoch actualPort ready)
  | _, _ => none

end Steering

/-! ### When a port is found -/

variable {bindUdp : BindUdp} {port nextPort currentPort : UInt16}

/-- One of the families finds the port in use. -/
def PortInUse (bindUdp : BindUdp) (port : UInt16) : Prop :=
  isAddrInUse (bindUdp port false) = true ∨ isAddrInUse (bindUdp port true) = true

/-- Neither family finds the port in use, and at least one binds it. -/
def PortBinds (bindUdp : BindUdp) (port : UInt16) : Prop :=
  ¬ PortInUse bindUdp port ∧ ∃ ipv6 socket, bindUdp port ipv6 = .ok socket

/-- Going round from `port`, only ports in use come before one that binds. -/
def PortFound (bindUdp : BindUdp) (tries : ℕ) (port : UInt16) : Prop :=
  ∃ n < tries, (∀ i < n, PortInUse bindUdp (nextSteeringPort^[i] port)) ∧
    PortBinds bindUdp (nextSteeringPort^[n] port)

theorem FamilySockets.bind_of_inUse (h : PortInUse bindUdp port) :
    bind bindUdp port = .error (.io ⟨.addrInUse, "address in use"⟩) := if_pos h

theorem FamilySockets.bind_of_binds (h : PortBinds bindUdp port) :
    ∃ socket, bind bindUdp port = .ok socket := by
  obtain ⟨hfree, ipv6, socket, hsocket⟩ := h
  rw [PortInUse] at hfree
  rw [bind, if_neg hfree]
  split
  next h4 h6 => cases ipv6 <;> simp_all
  next => exact ⟨_, rfl⟩

/-- Another failure ends the search. -/
theorem FamilySockets.bind_of_fails (hfree : ¬ PortInUse bindUdp port)
    (h : ¬ PortBinds bindUdp port) :
    ∃ error, bind bindUdp port = .error error ∧ ∀ source, error = .io source →
      source.kind ≠ .addrInUse := by
  have hfail (ipv6 : Bool) : ∃ error, bindUdp port ipv6 = .error error := by
    cases hb : bindUdp port ipv6 with
    | error error => exact ⟨error, rfl⟩
    | ok socket => exact absurd ⟨hfree, ipv6, socket, hb⟩ h
  obtain ⟨error, h4⟩ := hfail false
  obtain ⟨error', h6⟩ := hfail true
  refine ⟨error, ?_, ?_⟩
  · rw [PortInUse] at hfree
    rw [bind, if_neg hfree, h4, h6]
  · rintro source rfl hkind
    exact hfree (.inl (by simp [h4, isAddrInUse, hkind]))

theorem portFound_succ_iff {tries : ℕ} : PortFound bindUdp (tries + 1) port ↔
    PortBinds bindUdp port ∨
      PortInUse bindUdp port ∧ PortFound bindUdp tries (nextSteeringPort port) := by
  constructor
  · rintro ⟨n, hn, hinUse, hbinds⟩
    cases n with
    | zero => exact .inl hbinds
    | succ n =>
      refine .inr ⟨hinUse 0 (Nat.succ_pos n), n, by omega, fun i hi => ?_, hbinds⟩
      exact hinUse (i + 1) (by omega)
  · rintro (hbinds | ⟨hinUse, n, hn, hall, hbinds⟩)
    · exact ⟨0, Nat.succ_pos _, by simp, hbinds⟩
    · refine ⟨n + 1, by omega, fun i hi => ?_, hbinds⟩
      cases i with
      | zero => exact hinUse
      | succ i => exact hall i (by omega)

theorem exists_bindLoop_eq_ok_iff (tries : ℕ) (port : UInt16) (lastError : Option IoError) :
    (∃ found, bindLoop bindUdp tries port lastError = .ok found) ↔
      PortFound bindUdp tries port := by
  induction tries generalizing port lastError with
  | zero => simp [bindLoop, PortFound]
  | succ tries ih =>
    rw [portFound_succ_iff, bindLoop]
    by_cases hinUse : PortInUse bindUdp port
    · have hnot : ¬ PortBinds bindUdp port := fun h => h.1 hinUse
      rw [FamilySockets.bind_of_inUse hinUse]
      simpa [hinUse, hnot] using ih _ _
    · by_cases hbinds : PortBinds bindUdp port
      · obtain ⟨socket, hsocket⟩ := FamilySockets.bind_of_binds hbinds
        simp [hsocket, hbinds]
      · obtain ⟨error, herror, hkind⟩ := FamilySockets.bind_of_fails hinUse hbinds
        rw [herror]
        cases error with
        | io source => simp [hinUse, hbinds, hkind source rfl]
        | _ => simp [hinUse, hbinds]

/-- Steering gets a socket when a port is found, and only then. -/
theorem exists_bindNextSteeringSocket_eq_ok_iff :
    (∃ found, bindNextSteeringSocket bindUdp nextPort currentPort = .ok found) ↔
      PortFound bindUdp steeringPortCount (firstSteeringPort nextPort currentPort) :=
  exists_bindLoop_eq_ok_iff _ _ _

namespace Steering

/-- The system calls of this step succeed: the sockets have addresses, a port is found, and the
router runs. -/
def Succeeds : Pc → Reply → Prop
  | .socketRead stats, .socketRead localAddr bindUdp => ∃ current, localAddr = .ok current ∧
      PortFound bindUdp steeringPortCount (firstSteeringPort stats.nextPort current.port)
  | .socketWrite _ _, .socketWrite _ localAddr _ => ∃ actual, localAddr = .ok actual
  | .epochChanged _ _ _, .epochChanged ready => ready ≠ none
  | _, _ => True

/-- `apply_steering_feedback` has failed. -/
def Failed (pc : Pc) : Prop := ∃ error stats, pc = .done (.error error) stats

theorem not_failed_awaitEpoch (stats : SteeringStats) (nextEpoch : UInt64) (actualPort : UInt16)
    (ready : UInt64) : ¬ Failed (awaitEpoch stats nextEpoch actualPort ready) := by
  rintro ⟨error, stats', h⟩
  unfold awaitEpoch at h
  split at h <;> cases h

theorem not_failed_start (config : CoreConfig) (result : RateLimitResult) :
    ¬ Failed (start config result) := by
  rintro ⟨error, stats, h⟩
  unfold start at h
  split at h <;> cases h

/-- A step fails exactly when one of its system calls does. -/
theorem failed_iff_not_succeeds {pc pc' : Pc} {reply : Reply} (h : step pc reply = some pc') :
    Failed pc' ↔ ¬ Succeeds pc reply := by
  unfold step at h
  split at h <;> cases h
  case h_1 | h_4 | h_6 => simp [Failed, Succeeds]
  case h_2 | h_3 => split <;> simp [Failed, Succeeds]
  case h_5 stats localAddr bindUdp =>
    cases localAddr with
    | error error => simp [Failed, Succeeds]
    | ok current =>
      have hfound := @exists_bindNextSteeringSocket_eq_ok_iff bindUdp stats.nextPort current.port
      simp only [Succeeds, Except.ok.injEq, exists_eq_left', ← hfound]
      cases bindNextSteeringSocket bindUdp stats.nextPort current.port with
      | error error => simp [Failed]
      | ok found => simp [Failed]
  case h_7 stats newSocket epoch localAddr ready =>
    cases localAddr with
    | error error => simp [Failed, Succeeds]
    | ok actual => simpa [Succeeds] using not_failed_awaitEpoch _ _ _ _
  case h_8 stats nextEpoch actualPort ready =>
    cases ready with
    | none => simp [Failed, Succeeds]
    | some ready => simpa [Succeeds] using not_failed_awaitEpoch _ _ _ _

end Steering

end Ratelimitly
