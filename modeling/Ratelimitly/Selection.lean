import Mathlib.Tactic
import Ratelimitly.Horizon

/-! The round loop selects the response that the documented algorithm selects. -/
namespace Ratelimitly

open Lib Rounds

/-- A datagram and the time at which it reaches the request. -/
abbrev Arrival := ℕ × ResponsePacket

/-- What an environment does in which sends and wake-ups take no time: the result of each send, given
by its round and the number of targets after it, and the datagrams in the order of their arrival. -/
structure Environment where
  sendResult : ℕ → ℕ → Except IoError ℕ
  arrivals : List Arrival

/-- The result of the round loop and when it was reached. -/
def Rounds.State.decision (s : State) : Option (ℕ × Outcome CoreError (Option RateLimitResult)) :=
  s.log.findSome? fun e =>
    match e.effect with
    | .decided outcome => some (e.time, outcome)
    | _ => none

namespace Environment

variable (env : Environment) (reg : Registration)

/-- The reply to the await point of `s`, and the datagrams that remain. One that arrives at a deadline
is left to the next window. -/
def turn (s : State) (pending : List Arrival) : Option ((ℕ × Reply) × List Arrival) :=
  match s.pc, pending with
  | .sendSocket _, _ => some ((s.clock, .socket 0), pending)
  | .sending (.round k) _ _ rest _, _ =>
    some ((s.clock, .sent (env.sendResult k rest.length)), pending)
  | .recordFailures _ _ _, _ | .accepting _ _ _, _ => some ((s.clock, .stats), pending)
  | .receiving _ deadline, (time, packet) :: rest =>
    if time < deadline then some ((time, .received packet), rest)
    else some ((deadline, .elapsed), pending)
  | .receiving _ deadline, [] => some ((deadline, .elapsed), [])
  | _, _ => none

/-- The run of the round loop in this environment, until its result is reached. -/
def lts : Lts (State × List Arrival) (ℕ × Reply) where
  init x := x = (reg.start, env.arrivals)
  step x i y := x.1.decision = none ∧ env.turn x.1 x.2 = some (i, y.2) ∧
    reg.step x.1 i.1 i.2 = some y.1

/-! ### The documented algorithm -/

/-- The results of the sends to `targets` in round `k`. -/
def sendResults (k : ℕ) : List SocketAddr → List (Except IoError ℕ)
  | [] => []
  | _ :: rest => env.sendResult k rest.length :: sendResults k rest

/-- The error of a broadcast none of whose sends succeeds: that of its last send. -/
def broadcastError (k : ℕ) (targets : List SocketAddr) : Option IoError :=
  let results := env.sendResults k targets
  if results.any (·.isOk) then none
  else
    match results.getLast? with
    | some (.error error) => some error
    | _ => none

end Environment

namespace Registration

variable (reg : Registration) (env : Environment)

/-- The responses that are accepted, with their times. -/
def valid (arrivals : List Arrival) : List (ℕ × RateLimitResult) :=
  arrivals.filterMap fun a => (reg.acceptedResult a.2).map fun result => (a.1, result)

/-- The end of the final receive phase. -/
def finalDeadline : ℕ :=
  reg.nominal (reg.lastRound + 1) + fromMillis (reg.policy.unitMs.toNat * reg.policy.finalReceiveUnits.toNat)

/-- When the request ends without a response from round `k` on, and how: at the first broadcast that
fails, or at the final deadline. -/
def silence (k : ℕ) : ℕ × Outcome CoreError (Option RateLimitResult) :=
  ((List.range' k (reg.lastRound + 1 - k)).findSome? fun j =>
    (env.broadcastError j reg.resolved.targets).map fun error =>
      (reg.nominal j, Outcome.err (.io error))).getD (reg.finalDeadline, .ok none)

/-- The first response of the oldest server among those that responded. -/
def oldestResponse (responses : List (ℕ × RateLimitResult)) : Option RateLimitResult :=
  (responses.find? fun r => responses.all fun r' =>
    compareServerAge r'.2.serverId r.2.serverId ≠ .lt).map (·.2)

/-- The first response, or else what silence comes to. -/
def firstOr (silence : ℕ × Outcome CoreError (Option RateLimitResult)) :
    List (ℕ × RateLimitResult) → ℕ × Outcome CoreError (Option RateLimitResult)
  | (time, result) :: _ => (time, .ok (some result))
  | [] => silence

/-- The documented selection: the oldest server's first response as soon as it arrives in round 0,
else the response of the oldest server that responded in round 0, else the first response, else the
failure. -/
def selection : ℕ × Outcome CoreError (Option RateLimitResult) :=
  let silence := reg.silence env 0
  let responses := (reg.valid env.arrivals).filter (·.1 < silence.1)
  let initial := responses.filter (·.1 < reg.nominal 1)
  match initial.find? fun r => reg.resolved.oldestServerId = some r.2.serverId with
  | some (time, result) => (time, .ok (some result))
  | none =>
    match oldestResponse initial with
    | some result => (reg.nominal 1, .ok (some result))
    | none => firstOr silence responses

end Registration

/-! ### The result of a run -/

namespace Rounds.State

variable {s : State} {effect : Effect}

theorem decision_emit_of_ne (h : ∀ outcome, effect ≠ .decided outcome) :
    (s.emit effect).decision = s.decision := by
  cases effect with
  | decided outcome => exact absurd rfl (h outcome)
  | _ => rfl

end Rounds.State

namespace Registration

variable {reg : Registration} {env : Environment} {s t : State} {now c k : ℕ}
  {pending arrivals before after : List Arrival}

theorem decision_conclude (outcome : Outcome CoreError (Option RateLimitResult)) (s : State) :
    (reg.conclude outcome s).decision = some (s.clock, outcome) := by
  unfold conclude
  dsimp only
  split
  · split <;> rfl
  all_goals rfl

/-- Nothing has been accepted or decided by the time `c`. -/
structure Quiet (s : State) (c : ℕ) : Prop where
  clock : s.clock = c
  best : s.best = none
  seenServerIds : s.seenServerIds = []
  seenAddrs : s.seenAddrs = []
  decision : s.decision = none

theorem Quiet.emit (h : Quiet s c) (effect : Effect) (hne : ∀ outcome, effect ≠ .decided outcome) :
    Quiet (s.emit effect) c :=
  ⟨h.clock, h.best, h.seenServerIds, h.seenAddrs,
    (State.decision_emit_of_ne hne).trans h.decision⟩

theorem Quiet.advance (h : Quiet s c) (now : ℕ) : Quiet (s.advance now) now :=
  ⟨rfl, h.best, h.seenServerIds, h.seenAddrs, h.decision⟩

theorem Quiet.withPc (h : Quiet s c) (pc : Pc) : Quiet { s with pc := pc } c :=
  ⟨h.clock, h.best, h.seenServerIds, h.seenAddrs, h.decision⟩

theorem Quiet.not_responded (h : Quiet s c) (target : SocketAddr) :
    reg.responded s target = false := by
  unfold responded
  split <;> simp [h.seenServerIds, h.seenAddrs]

/-- The run from `x` comes to the result `d`. -/
def Decides (env : Environment) (reg : Registration) (x : State × List Arrival)
    (d : ℕ × Outcome CoreError (Option RateLimitResult)) : Prop :=
  ∃ y, (env.lts reg).Leads x y ∧ y.1.decision = some d

theorem Decides.of_leads {x y : State × List Arrival}
    {d : ℕ × Outcome CoreError (Option RateLimitResult)} (h : (env.lts reg).Leads x y)
    (hy : Decides env reg y d) : Decides env reg x d := by
  obtain ⟨z, hz, hd⟩ := hy
  exact ⟨z, h.trans hz, hd⟩

theorem decides_conclude (outcome : Outcome CoreError (Option RateLimitResult))
    (hclock : s.clock = c) : Decides env reg (reg.conclude outcome s, pending) (c, outcome) :=
  ⟨_, .refl _, hclock ▸ decision_conclude outcome s⟩

/-- A wake-up on the environment's terms. -/
theorem leads_of_turn (reply : Reply) (hd : s.decision = none)
    (hturn : env.turn s pending = some ((now, reply), after)) (hle : s.clock ≤ now)
    (hresume : reg.resume (s.advance now) reply = some t) :
    (env.lts reg).Leads (s, pending) (t, after) := by
  refine .of_step (i := (now, reply)) ⟨hd, hturn, ?_⟩
  rw [step, if_pos hle, hresume]

theorem deterministic_lts (env : Environment) (reg : Registration) :
    (env.lts reg).Deterministic := by
  rintro ⟨s, pending⟩ i ⟨t, after⟩ j ⟨u, after'⟩ ⟨-, hturn, hstep⟩ ⟨-, hturn', hstep'⟩
  dsimp only at hturn hturn' hstep hstep'
  obtain ⟨rfl, rfl⟩ := Prod.mk.inj (Option.some.inj (hturn.symm.trans hturn'))
  obtain rfl := Option.some.inj (hstep.symm.trans hstep')
  exact ⟨rfl, rfl⟩

theorem ended_of_decision {x : State × List Arrival}
    {d : ℕ × Outcome CoreError (Option RateLimitResult)} (h : x.1.decision = some d) :
    (env.lts reg).Ended x := by
  rintro i y ⟨hnone, -⟩
  rw [h] at hnone
  cases hnone

/-! ### Deliveries -/

/-- The locals of `send_to_missing` after sends to all of `targets`. -/
def sendAll (reg : Registration) (env : Environment) (k : ℕ) :
    List SocketAddr → SendLoop → SendLoop
  | [], sends => sends
  | target :: rest, sends =>
    sendAll reg env k rest (reg.recordSend target (env.sendResult k rest.length)
      { sends with attempted := sends.attempted + 1 })

variable (reg env k) in
theorem sendAll_delivered (targets : List SocketAddr) (sends : SendLoop) :
    (sendAll reg env k targets sends).delivered =
      sends.delivered + (env.sendResults k targets).countP (·.isOk) := by
  induction targets generalizing sends with
  | nil => rfl
  | cons target rest ih =>
    rw [sendAll, ih, Environment.sendResults, List.countP_cons]
    cases env.sendResult k rest.length with
    | ok sent =>
      simp [recordSend, Except.isOk, Except.toBool]
      omega
    | error e => simp [recordSend, Except.isOk, Except.toBool]

variable (reg env k) in
theorem sendAll_lastError (targets : List SocketAddr) (sends : SendLoop)
    (h : (env.sendResults k targets).any (·.isOk) = false) :
    (sendAll reg env k targets sends).lastError =
      match (env.sendResults k targets).getLast? with
      | some (.error error) => some error
      | _ => sends.lastError := by
  induction targets generalizing sends with
  | nil => rfl
  | cons target rest ih =>
    rw [Environment.sendResults, List.any_cons, Bool.or_eq_false_iff] at h
    rw [sendAll, ih _ h.2, Environment.sendResults]
    cases hresult : env.sendResult k rest.length with
    | ok sent => simp [hresult, Except.isOk, Except.toBool] at h
    | error e =>
      cases hrest : env.sendResults k rest with
      | nil => rfl
      | cons result results =>
        rw [List.getLast?_cons_cons]
        split
        · rfl
        next hnot =>
          -- the last result is no success either
          have hlast := List.getLast?_eq_some_getLast (List.cons_ne_nil result results)
          have hmem := List.getLast_mem (List.cons_ne_nil result results)
          cases hr : (result :: results).getLast (List.cons_ne_nil result results) with
          | error e' => exact absurd (hlast.trans (congrArg some hr)) (hnot e')
          | ok sent =>
            have hok := List.any_eq_false.mp (hrest ▸ h.2) _ hmem
            simp [hr, Except.isOk, Except.toBool] at hok

variable (reg env k pending) in
/-- A broadcast without an answer so far attempts every target. -/
theorem leads_sendNext (h : Quiet s c) (targets : List SocketAddr) (sends : SendLoop) :
    ∃ t, Quiet t c ∧ (env.lts reg).Leads (reg.sendNext (.round k) 0 targets sends s, pending)
      (reg.finishSends (.round k) (sendAll reg env k targets sends) t, pending) := by
  induction targets generalizing s sends with
  | nil => exact ⟨s, h, .refl _⟩
  | cons target rest ih =>
    rw [sendNext, if_neg (by simp [h.not_responded])]
    have hsending := (h.emit (.attempt (.round k) 0 target) (by simp)).withPc
      (.sending (.round k) 0 target rest { sends with attempted := sends.attempted + 1 })
    obtain ⟨t, ht, hleads⟩ := ih (hsending.advance c) (reg.recordSend target
      (env.sendResult k rest.length) { sends with attempted := sends.attempted + 1 })
    refine ⟨t, ht, (leads_of_turn (.sent (env.sendResult k rest.length)) hsending.decision ?_
      hsending.clock.le rfl).trans hleads⟩
    simp only [Environment.turn, State.emit, h.clock]

variable (env pending) in
/-- A round's broadcast fails with the error of `broadcastError` or opens the receive loop. -/
theorem leads_broadcast (h : Quiet s c) (hs : s.pc = .sendSocket (.round k)) :
    ∃ t, Quiet t c ∧ (env.lts reg).Leads (s, pending)
      (reg.afterDelivery (.round k)
        (match env.broadcastError k reg.resolved.targets with
        | some error => .error (.io error)
        | none => .ok ()) t, pending) := by
  obtain ⟨t, ht, hleads⟩ := leads_sendNext reg env k pending
    (h.advance c) reg.resolved.targets ⟨0, 0, none, []⟩
  have hsocket : (env.lts reg).Leads (s, pending) (reg.sendNext (.round k) 0 reg.resolved.targets
      ⟨0, 0, none, []⟩ (s.advance c), pending) := by
    refine leads_of_turn (.socket 0) h.decision ?_ h.clock.le ?_
    · simp only [Environment.turn, hs, h.clock]
    · simp only [resume, State.advance, hs]
  have hdelivered := sendAll_delivered reg env k reg.resolved.targets
    ⟨0, 0, none, []⟩
  have herror := sendAll_lastError reg env k reg.resolved.targets
    ⟨0, 0, none, []⟩
  replace hleads := hsocket.trans hleads
  generalize sendAll reg env k reg.resolved.targets ⟨0, 0, none, []⟩ = sends at *
  unfold Environment.broadcastError
  dsimp only
  cases hany : (env.sendResults k reg.resolved.targets).any (·.isOk) with
  | false =>
    have hzero : sends.delivered = 0 := by
      rw [hdelivered, Nat.zero_add, List.countP_eq_zero]
      simpa using hany
    refine ⟨t, ht, ?_⟩
    rw [finishSends, if_pos hzero, herror hany] at hleads
    rw [if_neg (by simp)]
    split at hleads <;> split at * <;> simp_all
  | true =>
    have hpos : sends.delivered ≠ 0 := by
      rw [hdelivered, Nat.zero_add]
      exact (List.countP_pos_iff.mpr (by simpa using hany)).ne'
    rw [finishSends, if_neg hpos] at hleads
    rw [if_pos rfl]
    split at hleads
    · have hfailures := ht.withPc (.recordFailures (.round k) t.clock sends.failedServerIds)
      refine ⟨_, (hfailures.advance c).emit (.sendFailures (.round k) t.clock
        sends.failedServerIds) (by simp), hleads.trans (leads_of_turn .stats hfailures.decision ?_
        hfailures.clock.le rfl)⟩
      simp only [Environment.turn, ht.clock]
    · exact ⟨t, ht, hleads⟩

/-! ### Receive loops -/

theorem receive_eq (window : Window) (deadline : ℕ) (s : State) :
    reg.receive window deadline s =
      if s.clock < deadline then { s with pc := .receiving window deadline }
      else reg.leave window s := by
  cases window <;> rfl

theorem serverId_mem_of_acceptedResult {packet : ResponsePacket} {result : RateLimitResult}
    (h : reg.acceptedResult packet = some result) (hne : reg.resolved.allowedServerIds ≠ []) :
    result.serverId ∈ reg.resolved.allowedServerIds := by
  obtain ⟨-, header, -, -, hid, hallowed⟩ := acceptedResult_spec h
  exact hid ▸ hallowed hne

/-- A receive loop has still to see `before`, and `after` comes no earlier than its deadline. -/
structure Waiting (s : State) (before after : List Arrival) (deadline : ℕ) : Prop where
  undecided : s.decision = none
  clock_le : s.clock ≤ deadline
  clock_le_before : ∀ a ∈ before, s.clock ≤ a.1
  sorted : before.Pairwise (·.1 ≤ ·.1)
  before_lt : ∀ a ∈ before, a.1 < deadline
  le_after : ∀ a ∈ after, deadline ≤ a.1

/-- The next datagram is taken from the channel. -/
theorem Waiting.tail {deadline time : ℕ} {packet : ResponsePacket}
    (h : Waiting s ((time, packet) :: before) after deadline) (ht : t.decision = none)
    (hclock : t.clock = time) : Waiting t before after deadline := by
  obtain ⟨-, -, -, hsorted, hlt, hafter⟩ := h
  rw [List.pairwise_cons] at hsorted
  refine ⟨ht, ?_, fun a ha => ?_, hsorted.2, fun a ha => hlt a (List.mem_cons_of_mem _ ha), hafter⟩
  · exact hclock ▸ (hlt _ List.mem_cons_self).le
  · exact hclock ▸ hsorted.1 a ha

/-- `t` is `s` at the time `now`, apart from its await point and its history. -/
structure Later (s t : State) (now : ℕ) : Prop where
  clock : t.clock = now
  best : t.best = s.best
  seenServerIds : t.seenServerIds = s.seenServerIds
  seenAddrs : t.seenAddrs = s.seenAddrs
  decision : t.decision = s.decision

theorem Quiet.later (h : Quiet s c) (ht : Later s t now) : Quiet t now :=
  ⟨ht.clock, ht.best.trans h.best, ht.seenServerIds.trans h.seenServerIds,
    ht.seenAddrs.trans h.seenAddrs, ht.decision.trans h.decision⟩

theorem later_advance (pc : Pc) (s : State) (now : ℕ) :
    Later s ({ s with pc := pc }.advance now) now := ⟨rfl, rfl, rfl, rfl, rfl⟩

variable (reg env) in
/-- A receive loop that sees nothing any more ends at its deadline. -/
theorem leads_leave (window : Window) {deadline : ℕ} (h : Waiting s [] after deadline) :
    ∃ t, Later s t deadline ∧ (env.lts reg).Leads (reg.receive window deadline s, after)
      (reg.leave window t, after) := by
  rw [receive_eq]
  split
  next hlt =>
    refine ⟨_, later_advance (.receiving window deadline) s deadline,
      leads_of_turn .elapsed h.undecided ?_ hlt.le ?_⟩
    · cases after with
      | nil => rfl
      | cons a rest => simp [Environment.turn, not_lt.mpr (h.le_after a List.mem_cons_self)]
    · simp [resume, State.advance]
  next hle =>
    exact ⟨s, ⟨by have := h.clock_le; omega, rfl, rfl, rfl, rfl⟩, .refl _⟩

variable (reg env) in
/-- A datagram that arrives in time is looked at. -/
theorem leads_onPacket (window : Window) {deadline time : ℕ} {packet : ResponsePacket}
    (h : Waiting s ((time, packet) :: before) after deadline) :
    ∃ t, Later s t time ∧ (env.lts reg).Leads
      (reg.receive window deadline s, (time, packet) :: before ++ after)
      (reg.onPacket window deadline packet t, before ++ after) := by
  have hlt : time < deadline := h.before_lt _ List.mem_cons_self
  have hle : s.clock ≤ time := h.clock_le_before _ List.mem_cons_self
  rw [receive_eq, if_pos (hle.trans_lt hlt)]
  refine ⟨_, later_advance (.receiving window deadline) s time,
    leads_of_turn (.received packet) h.undecided ?_ hle rfl⟩
  simp only [Environment.turn, List.cons_append, if_pos hlt]

variable (env pending) in
/-- An accepted response is counted at once. -/
theorem leads_onAccepted (window : Window) (deadline : ℕ) {packet : ResponsePacket}
    {result : RateLimitResult} (hundecided : s.decision = none)
    (haccepted : reg.acceptedResult packet = some result) :
    ∃ t, t.clock = s.clock ∧ t.best = s.best ∧ t.decision = none ∧
      (env.lts reg).Leads (reg.onPacket window deadline packet s, pending)
        (reg.onAccepted window deadline result t, pending) := by
  rw [onPacket, haccepted]
  refine ⟨_, ?_, ?_, ?_, leads_of_turn .stats hundecided rfl le_rfl rfl⟩
  · rfl
  · rfl
  · exact hundecided

variable (reg env) in
/-- After round 0 the first response is the result. -/
theorem leads_first (window : Window) (hwindow : window ≠ .round 0) {deadline : ℕ}
    (hw : Waiting s before after deadline) (h : Quiet s c) :
    match reg.valid before with
    | (time, result) :: _ =>
      Decides env reg (reg.receive window deadline s, before ++ after) (time, .ok (some result))
    | [] => ∃ t, Quiet t deadline ∧ (env.lts reg).Leads
      (reg.receive window deadline s, before ++ after) (reg.leave window t, after) := by
  induction before generalizing s c with
  | nil =>
    obtain ⟨t, ht, hleads⟩ := leads_leave reg env window hw
    exact ⟨t, h.later ht, hleads⟩
  | cons arrival before ih =>
    obtain ⟨time, packet⟩ := arrival
    obtain ⟨t, ht, hpacket⟩ := leads_onPacket reg env window hw
    have hquiet := h.later ht
    cases haccepted : reg.acceptedResult packet with
    | none =>
      rw [onPacket, haccepted] at hpacket
      have hrest := ih (hw.tail hquiet.decision hquiet.clock) hquiet
      rw [valid, List.filterMap_cons_none (by rw [haccepted]; rfl), ← valid]
      split at hrest
      · exact hrest.of_leads hpacket
      · obtain ⟨u, hu, hleads⟩ := hrest
        exact ⟨u, hu, hpacket.trans hleads⟩
    | some result =>
      obtain ⟨u, hclock, hbest, -, hleads⟩ := leads_onAccepted env (before ++ after) window deadline
        hquiet.decision haccepted
      rw [valid, List.filterMap_cons_some (by rw [haccepted]; rfl)]
      refine Decides.of_leads (hpacket.trans hleads) ?_
      have hnone : u.best = none := hbest.trans hquiet.best
      have htime : u.clock = time := hclock.trans hquiet.clock
      cases window with
      | final => exact decides_conclude (.ok (some result)) htime
      | round k =>
        have hk : 0 < k := Nat.pos_of_ne_zero fun h0 => hwindow (h0 ▸ rfl)
        rw [onAccepted, hnone]
        simp only [hk, or_true, if_pos, keepOlder]
        exact decides_conclude (.ok (some result)) htime

/-- A retained answer is not the oldest server's, since that would have ended the round. -/
def Retained (reg : Registration) (best : Option RateLimitResult) : Prop :=
  ∀ current, best = some current → reg.resolved.oldestServerId ≠ some current.serverId ∧
    (reg.resolved.allowedServerIds ≠ [] → current.serverId ∈ reg.resolved.allowedServerIds)

/-- The oldest server's answer displaces a retained one. -/
theorem Retained.keepOlder_oldest {best : Option RateLimitResult} {result : RateLimitResult}
    (h : reg.Retained best) (ho : reg.resolved.oldestServerId = some result.serverId) :
    keepOlder best result = some result := by
  cases best with
  | none => rfl
  | some current =>
    obtain ⟨hne, hallowed⟩ := h current rfl
    obtain ⟨hmem, hle⟩ := ResolvedTargets.oldestServerId_eq_some_iff.mp ho
    have hcurrent := hle _ (hallowed (List.ne_nil_of_mem hmem))
    have hlt : result.serverId < current.serverId := by
      refine UInt64.lt_of_le_of_ne hcurrent fun heq => hne ?_
      rw [ho, heq]
    rw [keepOlder, if_pos (compareServerAge_eq_lt_iff.mpr hlt)]

theorem Retained.keepOlder {best : Option RateLimitResult} {packet : ResponsePacket}
    {result : RateLimitResult} (h : reg.Retained best)
    (haccepted : reg.acceptedResult packet = some result)
    (ho : reg.resolved.oldestServerId ≠ some result.serverId) :
    reg.Retained (keepOlder best result) := by
  have hresult : reg.Retained (some result) := by
    rintro _ ⟨⟩
    exact ⟨ho, serverId_mem_of_acceptedResult haccepted⟩
  cases best with
  | none => exact hresult
  | some current =>
    rw [Registration.keepOlder]
    split
    · exact hresult
    · exact h

theorem keepOlder_ne_none (best : Option RateLimitResult) (result : RateLimitResult) :
    keepOlder best result ≠ none := by
  unfold keepOlder
  split
  · simp
  · split <;> simp

variable (reg env) in
/-- Round 0 ends at once with the oldest server's answer, or at its deadline with the oldest
answer. -/
theorem leads_initial {deadline : ℕ} (hw : Waiting s before after deadline)
    (hbest : reg.Retained s.best) (hquiet : s.best = none → Quiet s s.clock) :
    match (reg.valid before).find? fun r => reg.resolved.oldestServerId = some r.2.serverId with
    | some (time, result) =>
      Decides env reg (reg.receive (.round 0) deadline s, before ++ after) (time, .ok (some result))
    | none => ∃ t, t.clock = deadline ∧
      t.best = ((reg.valid before).map (·.2)).foldl keepOlder s.best ∧
      (t.best = none → Quiet t deadline) ∧ (env.lts reg).Leads
        (reg.receive (.round 0) deadline s, before ++ after) (reg.leave (.round 0) t, after) := by
  induction before generalizing s with
  | nil =>
    obtain ⟨t, ht, hleads⟩ := leads_leave reg env (.round 0) hw
    exact ⟨t, ht.clock, ht.best, fun hnone => (hquiet (ht.best ▸ hnone)).later ht, hleads⟩
  | cons arrival before ih =>
    obtain ⟨time, packet⟩ := arrival
    obtain ⟨t, ht, hpacket⟩ := leads_onPacket reg env (.round 0) hw
    have hundecided : t.decision = none := ht.decision.trans hw.undecided
    cases haccepted : reg.acceptedResult packet with
    | none =>
      rw [onPacket, haccepted] at hpacket
      have hrest := ih (hw.tail hundecided ht.clock) (ht.best ▸ hbest) fun hnone =>
        ht.clock ▸ (hquiet (ht.best ▸ hnone)).later ht
      rw [valid, List.filterMap_cons_none (by rw [haccepted]; rfl), ← valid]
      split at hrest
      · exact hrest.of_leads hpacket
      · obtain ⟨u, hclock, hfold, hu, hleads⟩ := hrest
        exact ⟨u, hclock, ht.best ▸ hfold, hu, hpacket.trans hleads⟩
    | some result =>
      obtain ⟨u, hclock, hubest, hu, hleads⟩ := leads_onAccepted env (before ++ after) (.round 0) deadline
        hundecided haccepted
      replace hleads := hpacket.trans hleads
      have htime : u.clock = time := hclock.trans ht.clock
      replace hubest : u.best = s.best := hubest.trans ht.best
      rw [valid, List.filterMap_cons_some (by rw [haccepted]; rfl), ← valid]
      by_cases ho : reg.resolved.oldestServerId = some result.serverId
      · rw [List.find?_cons_of_pos (by simpa using ho)]
        refine Decides.of_leads hleads ?_
        rw [onAccepted, hubest, hbest.keepOlder_oldest ho]
        simp only [ho, true_or, if_pos]
        exact decides_conclude (.ok (some result)) htime
      · rw [List.find?_cons_of_neg (by simpa using ho)]
        rw [onAccepted, hubest] at hleads
        simp only [ho, lt_irrefl, or_self, if_false] at hleads
        have hkept := keepOlder_ne_none s.best result
        have hrest := ih (s := { u with best := keepOlder s.best result }) (hw.tail hu htime)
          (hbest.keepOlder haccepted ho) fun hnone => absurd hnone hkept
        split at hrest
        · exact hrest.of_leads hleads
        · obtain ⟨v, hvclock, hfold, hv, hvleads⟩ := hrest
          exact ⟨v, hvclock, hfold, hv, hleads.trans hvleads⟩

/-! ### Valid responses -/

theorem valid_append : reg.valid (before ++ after) = reg.valid before ++ reg.valid after :=
  List.filterMap_append

theorem exists_arrival_of_mem_valid {r : ℕ × RateLimitResult} (h : r ∈ reg.valid arrivals) :
    ∃ a ∈ arrivals, a.1 = r.1 := by
  obtain ⟨a, ha, hr⟩ := List.mem_filterMap.mp h
  obtain ⟨result, -, rfl⟩ := Option.map_eq_some_iff.mp hr
  exact ⟨a, ha, rfl⟩

/-- Responses from `c` on are too late for `c`. -/
theorem filter_valid_of_le (h : ∀ a ∈ arrivals, c ≤ a.1) :
    (reg.valid arrivals).filter (·.1 < c) = [] := by
  rw [List.filter_eq_nil_iff]
  intro r hr
  obtain ⟨a, ha, heq⟩ := exists_arrival_of_mem_valid hr
  have hle := h a ha
  simp only [decide_eq_true_eq]
  omega

theorem filter_valid_append (hlt : ∀ a ∈ before, a.1 < c) :
    (reg.valid (before ++ after)).filter (·.1 < c) =
      reg.valid before ++ (reg.valid after).filter (·.1 < c) := by
  rw [valid_append, List.filter_append]
  congr 1
  rw [List.filter_eq_self]
  intro r hr
  obtain ⟨a, ha, heq⟩ := exists_arrival_of_mem_valid hr
  simpa [← heq] using hlt a ha

theorem filter_filter_valid (hlt : ∀ a ∈ before, a.1 < c) (hle : ∀ a ∈ after, c ≤ a.1)
    (hc : c ≤ k) : ((reg.valid (before ++ after)).filter (·.1 < k)).filter (·.1 < c) =
      reg.valid before := by
  rw [List.filter_filter, List.filter_congr (q := fun r => decide (r.1 < c)),
    filter_valid_append hlt, filter_valid_of_le hle, List.append_nil]
  intro r _
  simp only [Bool.and_eq_left_iff_imp, decide_eq_true_iff]
  omega

/-- Datagrams in the order of their arrival split at a deadline. -/
theorem exists_waiting (deadline : ℕ) (hundecided : s.decision = none) (hclock : s.clock = c)
    (hc : c ≤ deadline) (hsorted : pending.Pairwise (·.1 ≤ ·.1)) (hle : ∀ a ∈ pending, c ≤ a.1) :
    ∃ before after, pending = before ++ after ∧ after.Pairwise (·.1 ≤ ·.1) ∧
      Waiting s before after deadline := by
  have hsplit : ∃ before after, pending = before ++ after ∧ (∀ a ∈ before, a.1 < deadline) ∧
      ∀ a ∈ after, deadline ≤ a.1 := by
    clear hle
    induction pending with
    | nil => exact ⟨[], [], rfl, by simp, by simp⟩
    | cons a rest ih =>
      rw [List.pairwise_cons] at hsorted
      by_cases hlt : a.1 < deadline
      · obtain ⟨before, after, rfl, hbefore, hafter⟩ := ih hsorted.2
        exact ⟨a :: before, after, rfl, by simpa [hlt] using hbefore, hafter⟩
      · refine ⟨[], a :: rest, rfl, by simp, ?_⟩
        intro b hb
        rcases List.mem_cons.mp hb with rfl | hb
        · omega
        · have := hsorted.1 b hb
          omega
  obtain ⟨before, after, rfl, hbefore, hafter⟩ := hsplit
  rw [List.pairwise_append] at hsorted
  exact ⟨before, after, rfl, hsorted.2.1, hundecided, hclock.trans_le hc,
    fun a ha => hclock.trans_le (hle a (List.mem_append_left _ ha)), hsorted.1, hbefore, hafter⟩

/-- The fold of the round loop keeps a response that is older than those before it and not younger
than those after it. -/
theorem exists_foldl_keepOlder (responses : List (ℕ × RateLimitResult)) (hne : responses ≠ []) :
    ∃ newer r rest, responses = newer ++ r :: rest ∧
      (responses.map (·.2)).foldl keepOlder none = some r.2 ∧
      (∀ r' ∈ newer, r.2.serverId < r'.2.serverId) ∧
      ∀ r' ∈ rest, r.2.serverId ≤ r'.2.serverId := by
  induction responses using List.reverseRecOn with
  | nil => exact absurd rfl hne
  | append_singleton responses last ih =>
    rw [List.map_append, List.foldl_append, List.map_singleton, List.foldl_cons, List.foldl_nil]
    by_cases hnil : responses = []
    · subst hnil
      exact ⟨[], last, [], rfl, rfl, by simp, by simp⟩
    obtain ⟨newer, r, rest, rfl, hfold, hnewer, hrest⟩ := ih hnil
    rw [hfold, keepOlder]
    by_cases hlt : last.2.serverId < r.2.serverId
    · rw [if_pos (compareServerAge_eq_lt_iff.mpr hlt)]
      refine ⟨newer ++ r :: rest, last, [], rfl, rfl, fun r' hr' => ?_, by simp⟩
      rcases List.mem_append.mp hr' with hr' | hr'
      · exact UInt64.lt_trans hlt (hnewer r' hr')
      · rcases List.mem_cons.mp hr' with rfl | hr'
        · exact hlt
        · exact UInt64.lt_of_lt_of_le hlt (hrest r' hr')
    · rw [if_neg fun h => hlt (compareServerAge_eq_lt_iff.mp h)]
      refine ⟨newer, r, rest ++ [last], by simp, rfl, hnewer, fun r' hr' => ?_⟩
      rcases List.mem_append.mp hr' with hr' | hr'
      · exact hrest r' hr'
      · rw [List.mem_singleton.mp hr']
        exact UInt64.not_lt.mp hlt

/-- The fold of the round loop keeps the first response of the oldest server. -/
theorem oldestResponse_eq_foldl (responses : List (ℕ × RateLimitResult)) :
    oldestResponse responses = (responses.map (·.2)).foldl keepOlder none := by
  by_cases hnil : responses = []
  · subst hnil
    rfl
  obtain ⟨newer, r, rest, heq, hfold, hnewer, hrest⟩ := exists_foldl_keepOlder responses hnil
  rw [hfold, oldestResponse, Option.map_eq_some_iff]
  refine ⟨r, List.find?_eq_some_iff_append.mpr ⟨?_, newer, rest, heq, fun r' hr' => ?_⟩, rfl⟩
  · rw [List.all_eq_true]
    intro r' hr'
    rw [heq, List.mem_append, List.mem_cons] at hr'
    rw [decide_eq_true_iff, Ne, compareServerAge_eq_lt_iff, UInt64.not_lt]
    rcases hr' with hr' | rfl | hr'
    · exact UInt64.le_of_lt (hnewer r' hr')
    · exact UInt64.le_refl _
    · exact hrest r' hr'
  · have hmem : r ∈ responses := by
      rw [heq]
      simp
    rw [Bool.not_eq_true', List.all_eq_false]
    refine ⟨r, hmem, ?_⟩
    rw [decide_eq_true_iff, not_not, compareServerAge_eq_lt_iff]
    exact hnewer r' hr'

/-! ### Silence -/

theorem silence_of_broadcastError {error : IoError} (hk : k ≤ reg.lastRound)
    (h : env.broadcastError k reg.resolved.targets = some error) :
    reg.silence env k = (reg.nominal k, .err (.io error)) := by
  rw [silence, show reg.lastRound + 1 - k = (reg.lastRound - k) + 1 by omega, List.range'_succ,
    List.findSome?_cons, h]
  rfl

theorem silence_succ (hk : k ≤ reg.lastRound)
    (h : env.broadcastError k reg.resolved.targets = none) :
    reg.silence env k = reg.silence env (k + 1) := by
  rw [silence, show reg.lastRound + 1 - k = (reg.lastRound - k) + 1 by omega, List.range'_succ,
    List.findSome?_cons, h, silence, show reg.lastRound + 1 - (k + 1) = reg.lastRound - k by omega]
  rfl

theorem silence_last : reg.silence env (reg.lastRound + 1) = (reg.finalDeadline, .ok none) := by
  simp [silence]

theorem nominal_le_succ (k : ℕ) : reg.nominal k ≤ reg.nominal (k + 1) := by
  rw [nominal, nominal, RequestPolicy.elapsedMs_succ, fromMillis, fromMillis]
  omega

variable (reg env) in
/-- Silence from round `k` on lasts at least until round `k` starts. -/
theorem nominal_le_silence (hk : k ≤ reg.lastRound + 1) :
    reg.nominal k ≤ (reg.silence env k).1 := by
  induction hk using Nat.decreasingInduction with
  | self =>
    rw [silence_last]
    exact Nat.le_add_right _ _
  | of_succ k hk ih =>
    cases h : env.broadcastError k reg.resolved.targets with
    | some error => rw [silence_of_broadcastError (by omega) h]
    | none =>
      rw [silence_succ (by omega) h]
      exact (nominal_le_succ k).trans ih

/-! ### The rounds -/

variable (env pending) in
/-- A round fails at its start or opens its receive loop, which ends when the next round is due. -/
theorem leads_round (haccepted : reg.policy.Accepted reg.dedupTtlMs.toNat) (hk : k ≤ reg.lastRound)
    (h : Quiet s (reg.nominal k)) (hs : s.pc = .sendSocket (.round k)) :
    match env.broadcastError k reg.resolved.targets with
    | some error => Decides env reg (s, pending) (reg.nominal k, .err (.io error))
    | none => ∃ t, Quiet t (reg.nominal k) ∧ (env.lts reg).Leads (s, pending)
        (reg.receive (.round k) (reg.nominal (k + 1)) t, pending) := by
  obtain ⟨t, ht, hleads⟩ := leads_broadcast env pending h hs
  split
  next error herror =>
    rw [herror] at hleads
    exact Decides.of_leads hleads (decides_conclude (.err (.io error)) ht.clock)
  next hnone =>
    rw [hnone] at hleads
    obtain ⟨gap, hgap⟩ := haccepted.units_ok k hk
    refine ⟨t, ht, ?_⟩
    rw [nominal_succ haccepted hk hgap, ← ht.clock]
    rw [afterDelivery] at hleads
    simp only [hgap] at hleads
    exact hleads

/-- The final receive phase, or its absence. -/
theorem decides_final (haccepted : reg.policy.Accepted reg.dedupTtlMs.toNat)
    (h : Quiet s (reg.nominal (reg.lastRound + 1))) (hsorted : pending.Pairwise (·.1 ≤ ·.1))
    (hle : ∀ a ∈ pending, reg.nominal (reg.lastRound + 1) ≤ a.1) :
    Decides env reg (reg.leaveRound reg.lastRound s, pending)
      (firstOr (reg.finalDeadline, .ok none)
        ((reg.valid pending).filter (·.1 < reg.finalDeadline))) := by
  have hunits : reg.units reg.policy.finalReceiveUnits =
      fromMillis (reg.policy.unitMs.toNat * reg.policy.finalReceiveUnits.toNat) := by
    have heq := haccepted.horizon_eq
    have hlt := haccepted.horizon_lt
    exact units_eq (by omega)
  rw [leaveRound, if_neg (by simp [h.best]), if_neg (by simp [lastRound])]
  split
  · have hfinal : s.clock + reg.units reg.policy.finalReceiveUnits = reg.finalDeadline := by
      rw [hunits, h.clock, finalDeadline]
    rw [hfinal]
    have hquiet := h.emit .finalReceive (by simp)
    obtain ⟨before, after, rfl, -, hw⟩ := exists_waiting reg.finalDeadline
      hquiet.decision hquiet.clock (Nat.le_add_right _ _) hsorted hle
    have hfirst := leads_first reg env .final (by simp) hw hquiet
    rw [filter_valid_append hw.before_lt, filter_valid_of_le hw.le_after, List.append_nil]
    split at hfirst
    next hvalid =>
      rw [hvalid]
      exact hfirst
    next hvalid =>
      obtain ⟨t, ht, hleads⟩ := hfirst
      rw [hvalid]
      exact Decides.of_leads hleads (decides_conclude (.ok none) ht.clock)
  next hzero =>
    have hfinal : reg.nominal (reg.lastRound + 1) = reg.finalDeadline := by
      have hunits : reg.policy.finalReceiveUnits.toNat = 0 := by
        simpa [UInt32.lt_iff_toNat_lt] using hzero
      simp [finalDeadline, hunits, fromMillis]
    rw [← hfinal, filter_valid_of_le hle]
    exact decides_conclude (.ok none) h.clock

/-- After a silent round the first response is the result. -/
theorem decides_leaveRound (haccepted : reg.policy.Accepted reg.dedupTtlMs.toNat)
    (hk : k ≤ reg.lastRound) (h : Quiet s (reg.nominal (k + 1)))
    (hsorted : pending.Pairwise (·.1 ≤ ·.1)) (hle : ∀ a ∈ pending, reg.nominal (k + 1) ≤ a.1) :
    Decides env reg (reg.leaveRound k s, pending)
      (firstOr (reg.silence env (k + 1))
        ((reg.valid pending).filter (·.1 < (reg.silence env (k + 1)).1))) := by
  induction hk using Nat.decreasingInduction generalizing s pending with
  | self =>
    rw [silence_last]
    exact decides_final haccepted h hsorted hle
  | of_succ k hk ih =>
    have hleave : reg.leaveRound k s = startRound (k + 1) s := by
      rw [leaveRound, if_neg (by simp [h.best])]
      exact if_pos hk
    rw [hleave]
    have hround := leads_round env pending haccepted hk
      ((h.emit (.broadcast (k + 1)) (by simp)).withPc (.sendSocket (.round (k + 1)))) rfl
    split at hround
    next error herror =>
      rw [silence_of_broadcastError hk herror, filter_valid_of_le hle]
      exact hround
    next hnone =>
      obtain ⟨t, ht, hleads⟩ := hround
      rw [silence_succ hk hnone]
      have hsilence := nominal_le_silence reg env (k := k + 2) (by omega)
      obtain ⟨before, after, rfl, hsorted', hw⟩ := exists_waiting
        (reg.nominal (k + 2)) ht.decision ht.clock (nominal_le_succ (k + 1)) hsorted hle
      have hfirst := leads_first reg env (.round (k + 1)) (by simp)
        hw ht
      rw [filter_valid_append fun a ha => (hw.before_lt a ha).trans_le hsilence]
      split at hfirst
      next hvalid =>
        rw [hvalid]
        exact hfirst.of_leads hleads
      next hvalid =>
        obtain ⟨u, hu, hleads'⟩ := hfirst
        rw [hvalid, List.nil_append]
        exact (ih hu hsorted' hw.le_after).of_leads (hleads.trans hleads')

/-- The round loop comes to the documented selection. -/
theorem decides_selection (haccepted : reg.policy.Accepted reg.dedupTtlMs.toNat)
    (hsorted : env.arrivals.Pairwise (·.1 ≤ ·.1)) (hle : ∀ a ∈ env.arrivals, reg.startedAt ≤ a.1) :
    Decides env reg (reg.start, env.arrivals) (reg.selection env) := by
  have hnominal : reg.nominal 0 = reg.startedAt := by
    simp [nominal, RequestPolicy.elapsedMs, fromMillis]
  have hstart : Quiet reg.start (reg.nominal 0) := ⟨hnominal.symm, rfl, rfl, rfl, rfl⟩
  have hround := leads_round env env.arrivals haccepted (Nat.zero_le _)
    hstart rfl
  unfold selection
  dsimp only
  split at hround
  next error herror =>
    rw [silence_of_broadcastError (Nat.zero_le _) herror, filter_valid_of_le (hnominal ▸ hle)]
    exact hround
  next hnone =>
    obtain ⟨t, ht, hleads⟩ := hround
    rw [silence_succ (Nat.zero_le _) hnone]
    have hsilence := nominal_le_silence reg env (k := 1) (by omega)
    obtain ⟨before, after, heq, hsorted', hw⟩ := exists_waiting (reg.nominal 1)
      ht.decision ht.clock (nominal_le_succ 0) hsorted (hnominal ▸ hle)
    have hinitial := leads_initial reg env hw
      (by simp [Retained, ht.best]) fun _ => ⟨rfl, ht.best, ht.seenServerIds, ht.seenAddrs, ht.decision⟩
    rw [heq] at hleads ⊢
    rw [filter_filter_valid hw.before_lt hw.le_after hsilence]
    split at hinitial
    next => exact hinitial.of_leads hleads
    next =>
      obtain ⟨u, hclock, hbest, hquiet, hleads'⟩ := hinitial
      rw [oldestResponse_eq_foldl]
      rw [ht.best] at hbest
      replace hleads := hleads.trans hleads'
      cases hfold : ((reg.valid before).map (·.2)).foldl keepOlder none with
      | some result =>
        have hleave : reg.leave (.round 0) u = reg.conclude (.ok (some result)) u := by
          rw [leave, leaveRound, hbest, hfold]
          rfl
        rw [hleave] at hleads
        exact Decides.of_leads hleads (decides_conclude (.ok (some result)) hclock)
      | none =>
        have hnil : reg.valid before = [] := by
          by_contra hne
          obtain ⟨_, _, _, -, hsome, -⟩ := exists_foldl_keepOlder _ hne
          rw [hfold] at hsome
          cases hsome
        rw [filter_valid_append fun a ha => (hw.before_lt a ha).trans_le hsilence, hnil,
          List.nil_append]
        exact (decides_leaveRound haccepted (Nat.zero_le _) (hquiet (hbest.trans hfold)) hsorted'
          hw.le_after).of_leads hleads

/-- With sends and wake-ups that take no time the round loop comes to the documented selection, and
to nothing else. -/
theorem roundLoop_selects {limit : UInt32}
    (hpolicy : reg.policy.horizonMs limit = .ok reg.dedupTtlMs)
    (hsorted : env.arrivals.Pairwise (·.1 ≤ ·.1))
    (hle : ∀ a ∈ env.arrivals, reg.startedAt ≤ a.1) :
    (∃ x, (env.lts reg).Reachable x ∧ x.1.decision = some (reg.selection env)) ∧
      ∀ x d, (env.lts reg).Reachable x → x.1.decision = some d → d = reg.selection env := by
  obtain ⟨y, hleads, hy⟩ :=
    decides_selection (RequestPolicy.accepted_of_horizonMs hpolicy) hsorted hle
  constructor
  · obtain ⟨xs, hrun⟩ := hleads
    exact ⟨y, hrun.reachable (.init rfl), hy⟩
  · intro x d hx hd
    obtain ⟨_, xs, rfl, hrun⟩ := hx.exists_run
    have heq := (deterministic_lts env reg).end_unique ⟨xs, hrun⟩ hleads (ended_of_decision hd)
      (ended_of_decision hy)
    rw [heq, hy] at hd
    exact (Option.some.inj hd).symm

/-- Garbage and a grant by the younger server arrive in round 0, and a grant by the older server
after it. -/
def sampleEnvironment : Environment where
  sendResult _ _ := .ok 100
  arrivals := [(5000000, ⟨[82, 76, 40], sampleAddr 1⟩), (6000000, sampleResponse 2),
    (25000000, sampleResponse 1)]

theorem roundLoop_selects_younger :
    ∃ x, (sampleEnvironment.lts sampleRegistration).Reachable x ∧
      x.1.decision = some (20000000, .ok (some (sampleGrant 2))) := by
  have hpolicy : sampleRegistration.policy.horizonMs 2000 = .ok sampleRegistration.dedupTtlMs := by
    decide +kernel
  have h := @roundLoop_selects sampleRegistration sampleEnvironment 2000 hpolicy (by decide)
    (by simp [sampleRegistration])
  have hselection : sampleRegistration.selection sampleEnvironment =
      (20000000, .ok (some (sampleGrant 2))) := by decide +kernel
  rw [hselection] at h
  exact h.1

end Registration

end Ratelimitly
