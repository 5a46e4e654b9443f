import Mathlib.Tactic
import Ratelimitly.SendSchedule
import Ratelimitly.Report

/-! The send loops of `send_to_missing` and of `report_latency`, and what a partial delivery leaves
in the server statistics. -/
namespace Ratelimitly

open Lib Rounds

structure ServerStats where
  lastSeen : ℕ
  validResponses : UInt64
  sendFailures : UInt64
  deriving DecidableEq, Repr

def ServerStats.new (now : ℕ) : ServerStats := ⟨now, 0, 0⟩

/-- `server_stats`, by server id. -/
abbrev StatsMap := UInt64 → Option ServerStats

/-- `stats.entry(*id).or_insert_with(|| ServerStats::new(now)).send_failures += 1`. The counter
wraps, as in a release build. -/
def countFailure (now : ℕ) (stats : StatsMap) (id : UInt64) : StatsMap :=
  let entry := (stats id).getD (.new now)
  Function.update stats id (some { entry with sendFailures := entry.sendFailures + 1 })

/-- `now` is the instant the call draws. -/
def recordSendFailures (now : ℕ) (serverIds : List UInt64) (stats : StatsMap) : StatsMap :=
  if serverIds = [] then stats else serverIds.foldl (countFailure now) stats

namespace Broadcast

/-- An attempted target, and what the send returned. -/
structure Sent where
  target : SocketAddr
  result : Except IoError ℕ
  deriving DecidableEq

/-- `sent` is history: the attempts so far, in order. -/
structure Progress where
  sent : List Sent
  sends : SendLoop

/-- What a broadcast does, returns and leaves in the statistics. -/
structure Delivered where
  sent : List Sent
  result : Except CoreError Unit
  stats : StatsMap

def Progress.begin : Progress := ⟨[], ⟨0, 0, none, []⟩⟩

variable (resolved : ResolvedTargets) (seenServerIds : List UInt64) (seenAddrs : List SocketAddr)
  (results : ℕ → Except IoError ℕ) (now : ℕ) (stats : StatsMap)

/-- One send. `report_latency` does not count its attempts. -/
def Progress.send (target : SocketAddr) (result : Except IoError ℕ) (p : Progress) : Progress where
  sent := p.sent ++ [⟨target, result⟩]
  sends :=
    Report.recordSend resolved target result { p.sends with attempted := p.sends.attempted + 1 }

def responded (target : SocketAddr) : Bool :=
  match resolved.targetServerIds target with
  | some id => seenServerIds.contains id
  | none => seenAddrs.contains target

/-- The loop of `send_to_missing`, whose `n`-th send returns `results n`. -/
def sendLoop : List SocketAddr → Progress → Progress
  | [], p => p
  | target :: rest, p =>
    if responded resolved seenServerIds seenAddrs target then sendLoop rest p
    else sendLoop rest (p.send resolved target (results p.sent.length))

def sendToMissing : Delivered :=
  let p := sendLoop resolved seenServerIds seenAddrs results resolved.targets .begin
  if p.sends.delivered = 0 then
    match p.sends.lastError with
    | some error => ⟨p.sent, .error (.io error), stats⟩
    | none => ⟨p.sent, .ok (), stats⟩
  else if p.sends.delivered < p.sends.attempted then
    ⟨p.sent, .ok (), recordSendFailures now p.sends.failedServerIds stats⟩
  else ⟨p.sent, .ok (), stats⟩

/-- The loop of `report_latency`. -/
def reportLoop : List SocketAddr → Progress → Progress
  | [], p => p
  | target :: rest, p => reportLoop rest (p.send resolved target (results p.sent.length))

/-- The broadcast of `report_latency`. -/
def reportSends : Delivered :=
  let p := reportLoop resolved results resolved.targets .begin
  if p.sends.delivered = 0 then
    match p.sends.lastError with
    | some error => ⟨p.sent, .error (.io error), stats⟩
    | none => ⟨p.sent, .ok (), stats⟩
  else if p.sends.delivered < resolved.targets.length then
    ⟨p.sent, .ok (), recordSendFailures now p.sends.failedServerIds stats⟩
  else ⟨p.sent, .ok (), stats⟩

/-! ### What a broadcast comes to -/

/-- The targets that have not responded. -/
def missing (targets : List SocketAddr) : List SocketAddr :=
  targets.filter fun target => ¬ responded resolved seenServerIds seenAddrs target

namespace Sent

def Ok (s : Sent) : Prop := s.result.isOk = true

instance (s : Sent) : Decidable s.Ok := inferInstanceAs (Decidable (_ = true))

def error (s : Sent) : Option IoError :=
  match s.result with
  | .ok _ => none
  | .error error => some error

/-- The server that a failed send is charged to, if it is known. -/
def failedServerIds (s : Sent) : List UInt64 :=
  match s.result with
  | .ok _ => []
  | .error _ => (resolved.targetServerIds s.target).toList

end Sent

/-- How many of the sends are charged to the server `id`. -/
def failures (sent : List Sent) (id : UInt64) : ℕ :=
  sent.countP fun s => ¬ s.Ok ∧ resolved.targetServerIds s.target = some id

/-- Some sends succeeded and some failed. -/
def Partial (sent : List Sent) : Prop := (∃ s ∈ sent, s.Ok) ∧ ∃ s ∈ sent, ¬ s.Ok

/-- The locals of a send loop in terms of the attempts so far. -/
structure Tally (p : Progress) : Prop where
  attempted : p.sends.attempted = p.sent.length
  delivered : p.sends.delivered = p.sent.countP (·.Ok)
  lastError : p.sends.lastError = (p.sent.filterMap Sent.error).getLast?
  failedServerIds : p.sends.failedServerIds = p.sent.flatMap (Sent.failedServerIds resolved)

variable {resolved seenServerIds seenAddrs results now stats} {p : Progress}

theorem missing_cons_of_responded {target : SocketAddr} {rest : List SocketAddr}
    (h : responded resolved seenServerIds seenAddrs target) :
    missing resolved seenServerIds seenAddrs (target :: rest) =
      missing resolved seenServerIds seenAddrs rest := by simp [missing, h]

theorem missing_cons_of_not_responded {target : SocketAddr} {rest : List SocketAddr}
    (h : ¬ responded resolved seenServerIds seenAddrs target) :
    missing resolved seenServerIds seenAddrs (target :: rest) =
      target :: missing resolved seenServerIds seenAddrs rest := by simp [missing, h]

theorem exists_error {s : Sent} (h : ¬ s.Ok) : ∃ target error, s = ⟨target, .error error⟩ := by
  obtain ⟨target, result⟩ := s
  cases result with
  | ok n => exact absurd rfl h
  | error error => exact ⟨target, error, rfl⟩

theorem tally_begin : Tally resolved .begin := ⟨rfl, rfl, rfl, rfl⟩

theorem tally_send (h : Tally resolved p) (target : SocketAddr) (result : Except IoError ℕ) :
    Tally resolved (p.send resolved target result) := by
  obtain ⟨hattempted, hdelivered, hlast, hfailed⟩ := h
  cases result with
  | ok n =>
    constructor <;>
      simp [Progress.send, Report.recordSend, Sent.Ok, Sent.error, Sent.failedServerIds,
        Except.isOk, Except.toBool, *]
  | error error =>
    constructor <;>
      simp [Progress.send, Report.recordSend, Sent.Ok, Sent.error, Sent.failedServerIds,
        Except.isOk, Except.toBool, *]

theorem tally_sendLoop (h : Tally resolved p) (targets : List SocketAddr) :
    Tally resolved (sendLoop resolved seenServerIds seenAddrs results targets p) := by
  induction targets generalizing p with
  | nil => exact h
  | cons target rest ih =>
    unfold sendLoop
    split
    · exact ih h
    · exact ih (tally_send h _ _)

/-- Every target that has not responded is attempted once, in order, whatever the sends return. -/
theorem sent_sendLoop (targets : List SocketAddr) (p : Progress) :
    (sendLoop resolved seenServerIds seenAddrs results targets p).sent =
      p.sent ++ (missing resolved seenServerIds seenAddrs targets).mapIdx
        fun i target => ⟨target, results (p.sent.length + i)⟩ := by
  induction targets generalizing p with
  | nil => simp [sendLoop, missing]
  | cons target rest ih =>
    unfold sendLoop
    split
    next hr => rw [ih, missing_cons_of_responded hr]
    next hr =>
      rw [ih, missing_cons_of_not_responded hr]
      simp [Progress.send, List.mapIdx_cons, Nat.add_assoc, Nat.add_comm 1]

theorem responded_nil (target : SocketAddr) : responded resolved [] [] target = false := by
  unfold responded
  split <;> rfl

theorem missing_nil (targets : List SocketAddr) : missing resolved [] [] targets = targets := by
  simp [missing, responded_nil]

theorem reportLoop_eq (targets : List SocketAddr) (p : Progress) :
    reportLoop resolved results targets p = sendLoop resolved [] [] results targets p := by
  induction targets generalizing p with
  | nil => rfl
  | cons target rest ih =>
    simp [reportLoop, sendLoop, responded_nil, ih]

/-! ### Counters -/

theorem count_failedServerIds (sent : List Sent) (id : UInt64) :
    (sent.flatMap (Sent.failedServerIds resolved)).count id = failures resolved sent id := by
  induction sent with
  | nil => rfl
  | cons s rest ih =>
    rw [List.flatMap_cons, List.count_append, ih, failures, failures, List.countP_cons, Nat.add_comm]
    congr 1
    obtain ⟨target, result⟩ := s
    cases result with
    | ok n => simp [Sent.failedServerIds, Sent.Ok, Except.isOk, Except.toBool]
    | error error =>
      cases htarget : resolved.targetServerIds target with
      | none => simp [Sent.failedServerIds, htarget]
      | some server =>
        simp [Sent.failedServerIds, Sent.Ok, Except.isOk, Except.toBool, htarget,
          List.count_singleton]

theorem foldl_countFailure (ids : List UInt64) (stats : StatsMap) (id : UInt64) :
    ids.foldl (countFailure now) stats id =
      if id ∈ ids then
        let entry := (stats id).getD (.new now)
        some { entry with sendFailures := entry.sendFailures + UInt64.ofNat (ids.count id) }
      else stats id := by
  induction ids generalizing stats with
  | nil => simp
  | cons server rest ih =>
    rw [List.foldl_cons, ih]
    by_cases hserver : server = id
    · subst hserver
      by_cases hrest : server ∈ rest
      · simp [countFailure, hrest, UInt64.add_assoc, UInt64.add_comm 1]
      · simp [countFailure, hrest, List.count_eq_zero_of_not_mem]
    · have hne : id ≠ server := Ne.symm hserver
      simp [countFailure, hserver, hne]

/-- Each id in the list adds one to its counter, and no other record changes. -/
theorem recordSendFailures_apply (ids : List UInt64) (stats : StatsMap) (id : UInt64) :
    recordSendFailures now ids stats id =
      if id ∈ ids then
        let entry := (stats id).getD (.new now)
        some { entry with sendFailures := entry.sendFailures + UInt64.ofNat (ids.count id) }
      else stats id := by
  unfold recordSendFailures
  split
  next hnil => simp [hnil]
  next => exact foldl_countFailure ids stats id

/-- Nothing got out. -/
theorem Tally.delivered_eq_zero (h : Tally resolved p) :
    p.sends.delivered = 0 ↔ ∀ s ∈ p.sent, ¬ s.Ok := by
  rw [h.delivered, List.countP_eq_zero]
  simp

theorem Tally.partial_iff (h : Tally resolved p) :
    (p.sends.delivered ≠ 0 ∧ p.sends.delivered < p.sends.attempted) ↔ Partial p.sent := by
  have hall : p.sent.countP (·.Ok) = p.sent.length ↔ ∀ s ∈ p.sent, s.Ok := by simp
  have hle : p.sent.countP (·.Ok) ≤ p.sent.length := List.countP_le_length
  rw [Ne, h.delivered_eq_zero, h.delivered, h.attempted, hle.lt_iff_ne, Ne, hall, Partial]
  simp

/-- If nothing got out, the error kept is that of the last send. -/
theorem Tally.lastError_iff (h : Tally resolved p) (hnone : ∀ s ∈ p.sent, ¬ s.Ok) (error : IoError) :
    p.sends.lastError = some error ↔ ∃ target, p.sent.getLast? = some ⟨target, .error error⟩ := by
  rw [h.lastError]
  cases hsent : p.sent using List.reverseRecOn with
  | nil => simp
  | append_singleton older s =>
    obtain ⟨target, error, rfl⟩ := exists_error (hnone s (by simp [hsent]))
    simp [Sent.error]

/-- The broadcast of `report_latency` is that of `send_to_missing` before any response. -/
theorem reportSends_eq :
    reportSends resolved results now stats = sendToMissing resolved [] [] results now stats := by
  have htally : Tally resolved (sendLoop resolved [] [] results resolved.targets .begin) :=
    tally_sendLoop tally_begin _
  have hattempted : (sendLoop resolved [] [] results resolved.targets .begin).sends.attempted =
      resolved.targets.length := by
    rw [htally.attempted, sent_sendLoop]
    simp [Progress.begin, missing_nil]
  unfold reportSends sendToMissing
  rw [reportLoop_eq]
  dsimp only
  rw [hattempted]

/-- The attempts of `send_to_missing` with what the sends return. -/
def attempted (resolved : ResolvedTargets) (seenServerIds : List UInt64) (seenAddrs : List SocketAddr)
    (results : ℕ → Except IoError ℕ) : List Sent :=
  (missing resolved seenServerIds seenAddrs resolved.targets).mapIdx fun i target =>
    ⟨target, results i⟩

theorem target_attempted (resolved : ResolvedTargets) (seenServerIds : List UInt64)
    (seenAddrs : List SocketAddr) (results : ℕ → Except IoError ℕ) :
    (attempted resolved seenServerIds seenAddrs results).map Sent.target =
      missing resolved seenServerIds seenAddrs resolved.targets :=
  List.ext_getElem (by simp [attempted]) (by simp [attempted])

/-- The three ways a broadcast ends: nothing got out, some of it did, or all of it. -/
theorem sendToMissing_cases (resolved : ResolvedTargets) (seenServerIds : List UInt64)
    (seenAddrs : List SocketAddr) (results : ℕ → Except IoError ℕ) (now : ℕ) (stats : StatsMap)
    {sent : List Sent} (hsent : attempted resolved seenServerIds seenAddrs results = sent) :
    let delivered := sendToMissing resolved seenServerIds seenAddrs results now stats
    ((∀ s ∈ sent, ¬ s.Ok) ∧ delivered.sent = sent ∧ delivered.stats = stats ∧
      ∀ e, delivered.result = .error e ↔
        ∃ target error, sent.getLast? = some ⟨target, .error error⟩ ∧ e = .io error) ∨
    (Partial sent ∧ delivered = ⟨sent, .ok (),
      recordSendFailures now (sent.flatMap (Sent.failedServerIds resolved)) stats⟩) ∨
    (sent ≠ [] ∧ (∀ s ∈ sent, s.Ok) ∧ delivered = ⟨sent, .ok (), stats⟩) := by
  have htally : Tally resolved
      (sendLoop resolved seenServerIds seenAddrs results resolved.targets .begin) :=
    tally_sendLoop tally_begin _
  have hloop : (sendLoop resolved seenServerIds seenAddrs results resolved.targets .begin).sent =
      sent := by
    rw [sent_sendLoop, ← hsent]
    simp [Progress.begin, attempted, missing]
  intro delivered
  unfold delivered sendToMissing
  generalize sendLoop resolved seenServerIds seenAddrs results resolved.targets .begin = p at *
  subst hloop
  dsimp only
  split
  next hzero =>
    have hnone := htally.delivered_eq_zero.mp hzero
    have hlast := htally.lastError_iff hnone
    left
    split
    next error herror =>
      refine ⟨hnone, rfl, rfl, fun e => ⟨fun he => ?_, ?_⟩⟩
      · cases he
        obtain ⟨target, hsent⟩ := (hlast error).mp herror
        exact ⟨target, error, hsent, rfl⟩
      · rintro ⟨target, error', hsent, rfl⟩
        cases herror.symm.trans ((hlast error').mpr ⟨target, hsent⟩)
        rfl
    next herror =>
      refine ⟨hnone, rfl, rfl, fun e => ⟨fun he => (by cases he), ?_⟩⟩
      rintro ⟨target, error, hsent, -⟩
      cases herror.symm.trans ((hlast error).mpr ⟨target, hsent⟩)
  next hzero =>
    right
    split
    next hlt => exact .inl ⟨htally.partial_iff.mp ⟨hzero, hlt⟩, by rw [htally.failedServerIds]⟩
    next hlt =>
      right
      have hmixed : ¬ Partial p.sent := fun hp => hlt (htally.partial_iff.mpr hp).2
      rw [htally.delivered_eq_zero] at hzero
      push Not at hzero
      obtain ⟨s, hs, hok⟩ := hzero
      refine ⟨List.ne_nil_of_mem hs, fun s' hs' => ?_, rfl⟩
      by_contra hfailed
      exact hmixed ⟨⟨s, hs, hok⟩, s', hs', hfailed⟩

theorem sent_sendToMissing (resolved : ResolvedTargets) (seenServerIds : List UInt64)
    (seenAddrs : List SocketAddr) (results : ℕ → Except IoError ℕ) (now : ℕ) (stats : StatsMap) :
    (sendToMissing resolved seenServerIds seenAddrs results now stats).sent =
      attempted resolved seenServerIds seenAddrs results := by
  rcases sendToMissing_cases resolved seenServerIds seenAddrs results now stats rfl
    with ⟨-, hsent, -⟩ | ⟨-, heq⟩ | ⟨-, -, heq⟩
  · exact hsent
  · exact congrArg Delivered.sent heq
  · exact congrArg Delivered.sent heq

end Broadcast

/-! ### The deliveries of a request -/

open Broadcast

namespace Registration

variable {reg : Registration} {s t : State} {delivery : Delivery} {socket now : ℕ} {p : Progress}
  {results : ℕ → Except IoError ℕ} {stats : StatsMap} {labels : List (ℕ × Reply)}

theorem responded_eq (s : State) (target : SocketAddr) :
    reg.responded s target =
      Broadcast.responded reg.resolved s.seenServerIds s.seenAddrs target := rfl

theorem recordSend_eq (target : SocketAddr) (result : Except IoError ℕ) (sends : SendLoop) :
    reg.recordSend target result sends = Report.recordSend reg.resolved target result sends := by
  cases result <;> rfl

/-- A run in which the sends return `results` comes to the end of the loop. -/
theorem run_sendNext {targets : List SocketAddr}
    (h : reg.lts.Run (reg.sendNext delivery socket targets p.sends s) labels t)
    (hreplies : labels.map (·.2) =
      (Broadcast.missing reg.resolved s.seenServerIds s.seenAddrs targets).mapIdx
        fun i _ => .sent (results (p.sent.length + i))) :
    ∃ u, t = reg.finishSends delivery (sendLoop reg.resolved s.seenServerIds s.seenAddrs results
        targets p).sends u ∧
      attempts delivery u.log = attempts delivery s.log ++
        Broadcast.missing reg.resolved s.seenServerIds s.seenAddrs targets := by
  induction targets generalizing p s labels with
  | nil =>
    obtain rfl : labels = [] := by simpa [Broadcast.missing] using hreplies
    cases h
    exact ⟨s, rfl, by simp [Broadcast.missing]⟩
  | cons target rest ih =>
    unfold sendNext at h
    unfold sendLoop
    rw [responded_eq] at h
    split at h
    next hr =>
      rw [missing_cons_of_responded hr] at hreplies ⊢
      rw [if_pos hr]
      exact ih h hreplies
    next hr =>
      rw [missing_cons_of_not_responded hr, List.mapIdx_cons] at hreplies
      rw [missing_cons_of_not_responded hr, if_neg hr]
      cases h with
      | refl => simp at hreplies
      | @head _ i _ _ _ hstep hrun =>
        obtain ⟨hreply, hrest⟩ := List.cons.inj hreplies
        replace hreply : i.2 = _ := hreply
        obtain ⟨-, hresumes⟩ := resumes_of_step hstep
        rw [hreply] at hresumes
        cases hresumes with
        | sent hpc =>
          cases hpc
          rw [recordSend_eq] at hrun
          obtain ⟨u, hu, hlog⟩ := ih (p := p.send reg.resolved target _) hrun (by
            simpa [Progress.send, State.advance, State.emit, Nat.add_assoc, Nat.add_comm 1]
              using hrest)
          refine ⟨u, hu, hlog.trans ?_⟩
          simp [State.advance, State.emit, attempts_cons_self]

/-- After the loop the request goes on as `send_to_missing` returns, if need be once it has counted
the failures. -/
theorem finishSends_eq (s u : State) :
    let p := sendLoop reg.resolved s.seenServerIds s.seenAddrs results reg.resolved.targets .begin
    let delivered := sendToMissing reg.resolved s.seenServerIds s.seenAddrs results now stats
    (∃ serverIds, reg.finishSends delivery p.sends u =
        { u with pc := .recordFailures delivery u.clock serverIds } ∧
      delivered.result = .ok () ∧ delivered.stats = recordSendFailures now serverIds stats) ∨
    (reg.finishSends delivery p.sends u = reg.afterDelivery delivery delivered.result u ∧
      delivered.stats = stats) := by
  intro p delivered
  unfold delivered sendToMissing finishSends
  dsimp only
  split
  next hzero =>
    right
    cases p.sends.lastError with
    | none => exact ⟨rfl, rfl⟩
    | some error => exact ⟨rfl, rfl⟩
  next hzero =>
    by_cases hlt : p.sends.delivered < p.sends.attempted
    · rw [if_pos hlt]
      by_cases hids : p.sends.failedServerIds = []
      · right
        rw [if_neg (by tauto)]
        exact ⟨rfl, if_pos hids⟩
      · left
        rw [if_pos ⟨hlt, hids⟩]
        exact ⟨_, rfl, rfl, rfl⟩
    · right
      rw [if_neg hlt, if_neg (by tauto)]
      exact ⟨rfl, rfl⟩

/-- A delivery attempts what a broadcast does, and goes on with what that returns, if need be once
it has counted the failures. -/
def Broadcasts (reg : Registration) (delivery : Delivery) (now : ℕ) (stats : StatsMap)
    (delivered : Delivered) (s t : State) : Prop :=
  ∃ u, attempts delivery u.log = attempts delivery s.log ++ delivered.sent.map Sent.target ∧
    ((∃ serverIds, t = { u with pc := .recordFailures delivery u.clock serverIds } ∧
      delivered.result = .ok () ∧ delivered.stats = recordSendFailures now serverIds stats) ∨
    (t = reg.afterDelivery delivery delivered.result u ∧ delivered.stats = stats))

/-- Every delivery whose sends return `results` does what `send_to_missing` does. -/
theorem run_sendSocket {handle : ℕ} (hpc : s.pc = .sendSocket delivery) (h : reg.lts.Run s labels t)
    (hreplies : labels.map (·.2) = .socket handle ::
      (Broadcast.missing reg.resolved s.seenServerIds s.seenAddrs reg.resolved.targets).mapIdx
        fun i _ => .sent (results i)) :
    reg.Broadcasts delivery now stats
      (sendToMissing reg.resolved s.seenServerIds s.seenAddrs results now stats) s t := by
  have hsent : (sendToMissing reg.resolved s.seenServerIds s.seenAddrs results now stats).sent.map
      Sent.target =
        Broadcast.missing reg.resolved s.seenServerIds s.seenAddrs reg.resolved.targets := by
    rw [sent_sendToMissing, target_attempted]
  cases h with
  | refl => simp at hreplies
  | @head _ i _ _ _ hstep hrun =>
    obtain ⟨hreply, hrest⟩ := List.cons.inj hreplies
    replace hreply : i.2 = _ := hreply
    obtain ⟨-, hresumes⟩ := resumes_of_step hstep
    rw [hreply] at hresumes
    cases hresumes with
    | socket hpc' =>
      obtain rfl : delivery = _ := Pc.sendSocket.inj (hpc.symm.trans hpc')
      obtain ⟨u, rfl, hlog⟩ := run_sendNext (p := .begin) hrun (by
        simpa [Progress.begin, State.advance] using hrest)
      refine ⟨u, ?_, ?_⟩
      · rw [hsent]
        exact hlog
      · exact finishSends_eq s u

end Registration

namespace Report

variable {client : CoreClient} {reports : List ServiceLatencyReport} {packet : List UInt8}
  {resolved : ResolvedTargets} {socket now : ℕ} {sent : List Datagram} {s t : State} {p : Progress}
  {results : ℕ → Except IoError ℕ} {stats : StatsMap} {labels : List Reply}

theorem run_sendNext {targets : List SocketAddr}
    (h : (lts client reports).Run (sendNext packet resolved socket targets p.sends sent) labels t)
    (hreplies : labels = targets.mapIdx fun i _ => .sent (results (p.sent.length + i))) :
    t.pc = finishSends resolved (reportLoop resolved results targets p).sends ∧
      t.sent.map Datagram.target = targets.reverse ++ sent.map Datagram.target := by
  induction targets generalizing p sent labels with
  | nil =>
    obtain rfl : labels = [] := by simpa using hreplies
    cases h
    exact ⟨rfl, rfl⟩
  | cons target rest ih =>
    rw [List.mapIdx_cons] at hreplies
    cases h with
    | refl => cases hreplies
    | head hstep hrun =>
      obtain ⟨rfl, hrest⟩ := List.cons.inj hreplies
      cases steps_of_step hstep with
      | sent =>
        obtain ⟨hpc, hsent⟩ := ih (p := p.send resolved target _) hrun (by
          simpa [Progress.send, Nat.add_assoc, Nat.add_comm 1] using hrest)
        exact ⟨hpc, by simpa [sendNext] using hsent⟩

/-- After the loop the call returns as `reportSends` does, if need be once it has counted the
failures. -/
theorem finishSends_eq (resolved : ResolvedTargets) (results : ℕ → Except IoError ℕ) :
    let p := reportLoop resolved results resolved.targets .begin
    let delivered := reportSends resolved results now stats
    (∃ serverIds, finishSends resolved p.sends = .recordFailures serverIds ∧
      delivered.result = .ok () ∧ delivered.stats = recordSendFailures now serverIds stats) ∨
    (finishSends resolved p.sends =
        .returned (match delivered.result with | .ok () => .ok () | .error e => .err e) ∧
      delivered.stats = stats) := by
  intro p delivered
  unfold delivered reportSends finishSends
  dsimp only
  split
  next hzero =>
    right
    cases p.sends.lastError with
    | none => exact ⟨rfl, rfl⟩
    | some error => exact ⟨rfl, rfl⟩
  next hzero =>
    by_cases hlt : p.sends.delivered < resolved.targets.length
    · rw [if_pos hlt]
      by_cases hids : p.sends.failedServerIds = []
      · right
        rw [if_neg (by tauto)]
        exact ⟨rfl, if_pos hids⟩
      · left
        rw [if_pos ⟨hlt, hids⟩]
        exact ⟨_, rfl, rfl, rfl⟩
    · right
      rw [if_neg hlt, if_neg (by tauto)]
      exact ⟨rfl, rfl⟩

/-- A report sends what a broadcast does, and returns what that returns, if need be once it has
counted the failures. -/
def Broadcasts (now : ℕ) (stats : StatsMap) (delivered : Delivered) (s t : State) : Prop :=
  t.sent.map Datagram.target =
    (delivered.sent.map Sent.target).reverse ++ s.sent.map Datagram.target ∧
  ((∃ serverIds, t.pc = .recordFailures serverIds ∧
      delivered.result = .ok () ∧ delivered.stats = recordSendFailures now serverIds stats) ∨
    (t.pc = .returned (match delivered.result with | .ok () => .ok () | .error e => .err e) ∧
      delivered.stats = stats))

/-- Every report whose sends return `results` does what `reportSends` does. -/
theorem run_sendSocket {handle : ℕ} (hpc : s.pc = .sendSocket packet resolved)
    (h : (lts client reports).Run s labels t)
    (hreplies : labels = .socket handle :: resolved.targets.mapIdx fun i _ => .sent (results i)) :
    Broadcasts now stats (reportSends resolved results now stats) s t := by
  have htargets : (reportSends resolved results now stats).sent.map Sent.target =
      resolved.targets := by
    rw [reportSends_eq, sent_sendToMissing, target_attempted, missing_nil]
  obtain ⟨pc, sent⟩ := s
  cases hpc
  cases h with
  | refl => cases hreplies
  | head hstep hrun =>
    obtain ⟨rfl, hrest⟩ := List.cons.inj hreplies
    cases steps_of_step hstep with
    | socket =>
      obtain ⟨hpc, hsent⟩ := run_sendNext (p := .begin) hrun (by
        simpa [Progress.begin] using hrest)
      rw [Broadcasts, htargets, hpc]
      exact ⟨hsent, finishSends_eq resolved results⟩

end Report

/-- A broadcast attempts each target that has not responded once, in order; it fails with the last
error if there were attempts and all failed; a partial delivery adds one to the failures of a server
for each failed send to it, in a new record if there is none, and changes nothing else in the
statistics. `report_latency` broadcasts in the same way, to every target. The deliveries of a
request and the sends of a report do so in every run. -/
theorem broadcast_exact (resolved : ResolvedTargets) (seenServerIds : List UInt64)
    (seenAddrs : List SocketAddr) (results : ℕ → Except IoError ℕ) (now : ℕ) (stats : StatsMap) :
    let sent : List Sent :=
      (missing resolved seenServerIds seenAddrs resolved.targets).mapIdx fun i target =>
        ⟨target, results i⟩
    let delivered := sendToMissing resolved seenServerIds seenAddrs results now stats
    delivered.sent = sent ∧
    ((∃ e, delivered.result = .error e) ↔ sent ≠ [] ∧ ∀ s ∈ sent, ¬ s.Ok) ∧
    (∀ e, delivered.result = .error e →
      ∃ target error, sent.getLast? = some ⟨target, .error error⟩ ∧ e = .io error) ∧
    (Partial sent → ∀ id,
      (failures resolved sent id = 0 → delivered.stats id = stats id) ∧
      (failures resolved sent id ≠ 0 → ∃ record, delivered.stats id = some record ∧
        let before := (stats id).getD (.new now)
        record.lastSeen = before.lastSeen ∧ record.validResponses = before.validResponses ∧
        record.sendFailures = before.sendFailures + UInt64.ofNat (failures resolved sent id))) ∧
    (¬ Partial sent → delivered.stats = stats) ∧
    reportSends resolved results now stats = sendToMissing resolved [] [] results now stats ∧
    (∀ (reg : Registration) s t delivery handle labels, reg.resolved = resolved →
      s.seenServerIds = seenServerIds → s.seenAddrs = seenAddrs → s.pc = .sendSocket delivery →
      reg.lts.Run s labels t →
      labels.map (·.2) = .socket handle :: sent.map (fun attempt => .sent attempt.result) →
        reg.Broadcasts delivery now stats delivered s t) ∧
    ∀ client reports packet s t handle labels, s.pc = .sendSocket packet resolved →
      (Report.lts client reports).Run s labels t →
      labels = .socket handle :: resolved.targets.mapIdx (fun i _ => .sent (results i)) →
        Report.Broadcasts now stats (reportSends resolved results now stats) s t := by
  intro sent delivered
  have hdelivers (reg : Registration) (s t : State) (delivery : Delivery) (handle : ℕ)
      (labels : List (ℕ × Reply)) (hresolved : reg.resolved = resolved)
      (hids : s.seenServerIds = seenServerIds) (haddrs : s.seenAddrs = seenAddrs)
      (hpc : s.pc = .sendSocket delivery) (hrun : reg.lts.Run s labels t)
      (hlabels : labels.map (·.2) =
        .socket handle :: sent.map (fun attempt => .sent attempt.result)) :
      reg.Broadcasts delivery now stats delivered s t := by
    subst hresolved hids haddrs
    have hresults : sent.map (fun attempt => Reply.sent attempt.result) =
        (missing reg.resolved s.seenServerIds s.seenAddrs reg.resolved.targets).mapIdx
          fun i _ => .sent (results i) := by
      simp only [sent, List.mapIdx_eq_zipIdx_map, List.map_map]
      rfl
    rw [hresults] at hlabels
    exact Registration.run_sendSocket hpc hrun hlabels
  have hreports (client : CoreClient) (reports : List ServiceLatencyReport) (packet : List UInt8)
      (s t : Report.State) (handle : ℕ) (labels : List Report.Reply)
      (hpc : s.pc = .sendSocket packet resolved) (hrun : (Report.lts client reports).Run s labels t)
      (hlabels : labels = .socket handle :: resolved.targets.mapIdx fun i _ => .sent (results i)) :
      Report.Broadcasts now stats (reportSends resolved results now stats) s t :=
    Report.run_sendSocket hpc hrun hlabels
  have hsent : attempted resolved seenServerIds seenAddrs results = sent := rfl
  rcases sendToMissing_cases resolved seenServerIds seenAddrs results now stats hsent
    with ⟨hnone, hdelivered, hstats, hresult⟩ | ⟨hmixed, hdelivered⟩ | ⟨hne, hall, hdelivered⟩
  · have hnot : ¬ Partial sent := by
      rintro ⟨⟨s, hs, hok⟩, -⟩
      exact hnone s hs hok
    refine ⟨hdelivered, ⟨?_, ?_⟩, fun e he => (hresult e).mp he, fun hp => absurd hp hnot,
      fun _ => hstats, reportSends_eq, hdelivers, hreports⟩
    · rintro ⟨e, he⟩
      obtain ⟨target, error, hlast, -⟩ := (hresult e).mp he
      exact ⟨List.ne_nil_of_mem (List.mem_of_getLast? hlast), hnone⟩
    · rintro ⟨hne, -⟩
      obtain ⟨target, error, hlast⟩ := exists_error (hnone _ (List.getLast_mem hne))
      rw [← Option.some.injEq, ← List.getLast?_eq_some_getLast hne] at hlast
      exact ⟨_, (hresult _).mpr ⟨target, error, hlast, rfl⟩⟩
  · obtain ⟨s, hs, hok⟩ := hmixed.1
    replace hdelivered : delivered = _ := hdelivered
    have hresult (e : CoreError) : delivered.result ≠ .error e := by
      rw [hdelivered]
      exact fun h => by cases h
    refine ⟨congrArg Delivered.sent hdelivered, ⟨?_, ?_⟩, fun e he => absurd he (hresult e),
      fun _ id => ?_, fun hnot => absurd hmixed hnot, reportSends_eq, hdelivers, hreports⟩
    · rintro ⟨e, he⟩
      exact absurd he (hresult e)
    · rintro ⟨-, hnone⟩
      exact absurd hok (hnone s hs)
    · rw [hdelivered]
      dsimp only
      have hmem : id ∈ sent.flatMap (Sent.failedServerIds resolved) ↔
          failures resolved sent id ≠ 0 := by
        rw [← count_failedServerIds, Ne, List.count_eq_zero, not_not]
      constructor
      · intro hzero
        rw [recordSendFailures_apply, if_neg fun h => hmem.mp h hzero]
      · intro hne
        rw [recordSendFailures_apply, if_pos (hmem.mpr hne), count_failedServerIds]
        exact ⟨_, rfl, rfl, rfl, rfl⟩
  · have hnot : ¬ Partial sent := by
      rintro ⟨-, s, hs, hfailed⟩
      exact hfailed (hall s hs)
    replace hdelivered : delivered = _ := hdelivered
    have hresult (e : CoreError) : delivered.result ≠ .error e := by
      rw [hdelivered]
      exact fun h => by cases h
    refine ⟨congrArg Delivered.sent hdelivered, ⟨?_, ?_⟩, fun e he => absurd he (hresult e),
      fun hp => absurd hp hnot, fun _ => congrArg Delivered.stats hdelivered, reportSends_eq,
      hdelivers, hreports⟩
    · rintro ⟨e, he⟩
      exact absurd he (hresult e)
    · rintro ⟨-, hnone⟩
      obtain ⟨s, hs⟩ := List.exists_mem_of_ne_nil sent hne
      exact absurd (hall s hs) (hnone s hs)

/-- A failure counted for a server without a record gives it one, last seen at that moment. -/
theorem not_lastSeen_kept : ¬ ∀ (resolved : ResolvedTargets) (seenServerIds : List UInt64)
    (seenAddrs : List SocketAddr) (results : ℕ → Except IoError ℕ) (now : ℕ) (stats : StatsMap),
    let delivered := sendToMissing resolved seenServerIds seenAddrs results now stats
    Partial delivered.sent → ∀ id,
      (delivered.stats id).map ServerStats.lastSeen = (stats id).map ServerStats.lastSeen := by
  intro h
  let results : ℕ → Except IoError ℕ := fun i =>
    if i = 0 then .error ⟨.other, "Network is unreachable"⟩ else .ok 40
  have hseen := h sampleTargets [] [] results 7 (fun _ => none)
    ⟨⟨⟨sampleAddr 2, .ok 40⟩, by decide, by decide⟩,
      ⟨sampleAddr 1, .error ⟨.other, "Network is unreachable"⟩⟩, by decide, by decide⟩ 1
  revert hseen
  decide

end Ratelimitly
