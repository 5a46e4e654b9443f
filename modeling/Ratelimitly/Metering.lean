import Mathlib.Tactic
import Ratelimitly.ClientSteps
import Ratelimitly.Datagrams
import Ratelimitly.Marks
import Ratelimitly.SendLaw
import Ratelimitly.Snapshots

/-! What the traffic counters of a client count. -/
namespace Ratelimitly

open Lib Rounds

/-! ### Attempts -/

namespace Registration

variable {reg : Registration} {s t : State} {reply : Reply} {now : ℕ}

/-- The code between two awaits attempts one send if it ends at one, and else none. -/
def Opens (s t : State) : Prop :=
  (allAttempts t.log).length = (allAttempts s.log).length + t.pc.sends.toNat

theorem Rests.opens (h : Rests s t) : Opens s t := by
  rw [Opens, h.attempts, h.sends]
  rfl

theorem opens_sendNext (delivery : Delivery) (socket : ℕ) (targets : List SocketAddr)
    (sends : SendLoop) : Opens s (reg.sendNext delivery socket targets sends s) := by
  induction targets with
  | nil => exact (rests_finishSends delivery sends).opens
  | cons target rest ih =>
    rw [sendNext]
    split
    · exact ih
    · rfl

theorem opens_of_step (h : reg.step s now reply = some t) : Opens s t := by
  have hresumes := (resumes_of_step h).2
  -- The log does not change when time advances.
  have hopens : Opens (s.advance now) t := by
    cases hresumes with
    | socket | sent => exact opens_sendNext _ _ _ _
    | failures => exact ((rests_afterDelivery _ _).after (by simp)).opens
    | @received window deadline packet =>
      unfold onPacket
      split
      · exact (rests_receive window deadline).opens
      next result _ =>
        exact Rests.opens
          (@Rests.after _ _ (.accepted packet result) (.of_log_eq rfl rfl) (by simp))
    | elapsed => exact (rests_leave _).opens
    | accepted => exact ((rests_onAccepted _ _ _).after (by simp)).opens
  exact hopens

end Registration

namespace Request

variable {client : CoreClient} {query : Query} {pc pc' : Pc} {reply : Reply}

theorem sending_steer (flight : Flight) (result : RateLimitResult) (pc : Steering.Pc) :
    (steer flight result pc).sending = false := by
  unfold steer
  split <;> rfl

theorem sending_leaveFlight (flight : Flight) :
    (leaveFlight client flight).sending = flight.state.pc.sends := by
  unfold leaveFlight
  split
  next hpc =>
    rw [sending_steer, hpc]
    rfl
  next hpc =>
    rw [hpc]
    rfl
  next =>
    unfold Pc.sending Rounds.Pc.sends
    rfl

theorem attempts_of_flight_eq (h : pc'.flight = pc.flight) (hpc : pc'.sending = false) :
    (Registration.allAttempts pc'.log).length =
      (Registration.allAttempts pc.log).length + pc'.sending.toNat := by
  rw [Pc.log, Pc.log, h, hpc]
  rfl

theorem attempts_of_step (h : step client query pc reply = some pc') :
    (Registration.allAttempts pc'.log).length =
      (Registration.allAttempts pc.log).length + pc'.sending.toNat := by
  cases steps_of_step h with
  | lastRefresh => split <;> exact attempts_of_flight_eq rfl rfl
  | refreshed | unrefreshed => exact attempts_of_flight_eq rfl rfl
  | servers =>
    unfold enter
    split
    · exact attempts_of_flight_eq rfl rfl
    · exact attempts_of_flight_eq rfl rfl
    · split <;> exact attempts_of_flight_eq rfl rfl
  | activity =>
    unfold register
    split
    · exact attempts_of_flight_eq rfl rfl
    · exact attempts_of_flight_eq rfl rfl
    · rfl
  | flight hstep =>
    rw [sending_leaveFlight, log_of_flight (flight_leaveFlight _)]
    exact Registration.opens_of_step hstep
  | steering => exact attempts_of_flight_eq (flight_steer _ _ _) (sending_steer _ _ _)

theorem not_sending_begin : (begin client query).sending = false := by
  unfold begin
  dsimp only
  split
  · rfl
  · rfl
  · split
    · rfl
    · split <;> rfl

/-- A call that is sending is woken by the result of the send only. -/
theorem sent_of_step (h : step client query pc reply = some pc') (hsending : pc.sending = true) :
    ∃ now result, reply = .flight now (.sent result) := by
  cases steps_of_step h with
  | @flight flight now reply state hstep =>
    unfold Pc.sending at hsending
    dsimp only at hsending
    split at hsending
    next hpc =>
      unfold Registration.step at hstep
      obtain ⟨-, hstep⟩ := Option.ite_none_right_eq_some.mp hstep
      cases (Registration.resumes_of_resume hstep) with
      | sent => exact ⟨now, _, rfl⟩
      | socket hpc' | failures hpc' | received hpc' | elapsed hpc' | accepted hpc' =>
        cases hpc.symm.trans hpc'
    next => cases hsending
  | _ => cases hsending

end Request

namespace Report

variable {client : CoreClient} {reports : List ServiceLatencyReport} {s t : State} {reply : Reply}

def Pc.sends : Pc → Bool
  | .sending .. => true
  | _ => false

theorem not_sends_build (seed : PacketSeed) : (build client reports seed).sends = false := by
  unfold build
  split <;> rfl

theorem length_sendNext {packet : List UInt8} {resolved : ResolvedTargets} {socket : ℕ}
    {targets : List SocketAddr} {sends : SendLoop} {sent : List Datagram} :
    (sendNext packet resolved socket targets sends sent).sent.length =
      sent.length + (sendNext packet resolved socket targets sends sent).pc.sends.toNat := by
  unfold sendNext
  split
  · unfold finishSends
    split
    · split <;> rfl
    · split <;> rfl
  · rfl

theorem length_sent_of_step (h : step client reports s reply = some t) :
    t.sent.length = s.sent.length + t.pc.sends.toNat := by
  have hsteps := steps_of_step h
  generalize s.pc = pc at hsteps
  cases hsteps with
  | lastRefresh =>
    split
    · rfl
    · rw [not_sends_build]
      rfl
  | refreshed =>
    rw [not_sends_build]
    rfl
  | unrefreshed | resolved | unresolved | stats => rfl
  | socket | sent => exact length_sendNext

/-- A report that is sending is woken by the result of the send only. -/
theorem sent_of_step (h : step client reports s reply = some t) (hsends : s.pc.sends = true) :
    ∃ result, reply = .sent result := by
  have hsteps := steps_of_step h
  generalize s.pc = pc at hsteps hsends
  cases hsteps with
  | sent => exact ⟨_, rfl⟩
  | _ => cases hsends

end Report

/-! ### Steps -/

namespace Client

/-- The packet that a call is sending, and its target. -/
def Call.outgoing : Call → Option (List UInt8 × SocketAddr)
  | .check _ (.flying flight) =>
    match flight.state.pc with
    | .sending _ _ target _ _ => some (flight.reg.packet, target)
    | _ => none
  | .report _ state =>
    match state.pc with
    | .sending packet _ _ target _ _ => some (packet, target)
    | _ => none
  | _ => none

/-- How many sends a call has attempted. -/
def Call.attempts : Call → ℕ
  | .check _ pc => (Registration.allAttempts pc.log).length
  | .report _ state => state.sent.length

def State.callAt (s : State) (i : ℕ) : Option Call := s.slots[i]?.map (·.call)

/-- What an event has the client count, and for which task: `some i` is call `i`, and `none` is the
router, which counts a datagram before it looks at it. -/
def State.counts (s : State) : Event → Option (Option ℕ × Traffic.Call)
  | .wake i (.sent result) =>
    ((s.callAt i).bind (·.outgoing)).map fun send =>
      (some i, .sent (.ofNat send.1.length) send.2 (result.map UInt64.ofNat))
  | .datagram packet => some (none, .received (.ofNat packet.data.length) packet.addr)
  | _ => none

/-- A client with the `traffic-stats` feature, and what its tasks have counted. -/
structure Meter where
  state : State
  calls : Option ℕ → List Traffic.Call

namespace Meter

def record (calls : Option ℕ → List Traffic.Call) :
    Option (Option ℕ × Traffic.Call) → Option ℕ → List Traffic.Call
  | some (task, call) => Function.update calls task (calls task ++ [call])
  | none => calls

def step (client : CoreClient) (m : Meter) (event : Event) : Option Meter :=
  (Client.step client m.state event).map fun state =>
    ⟨state, record m.calls (m.state.counts event)⟩

/-- The tasks by what they have counted. -/
def tasks (m : Meter) (task : Option (Fin m.state.slots.length)) : List Traffic.Call :=
  m.calls (task.map Fin.val)

end Meter

def metered (client : CoreClient) : Lts Meter Event where
  init m := (lts client).init m.state ∧ m.calls = fun _ => []
  step m event m' := m.step client event = some m'

variable {client : CoreClient} {s t : State} {m m' : Meter} {event : Event} {i : ℕ} {slot : Slot}
  {query : Query} {reports : List ServiceLatencyReport}

theorem isSome_outgoing_check (query : Query) (pc : Request.Pc) :
    (Call.check query pc).outgoing.isSome = pc.sending := by
  cases pc with
  | flying flight =>
    obtain ⟨reg, state⟩ := flight
    obtain ⟨pc⟩ := state
    cases pc <;> rfl
  | _ => rfl

theorem isSome_outgoing_report (reports : List ServiceLatencyReport) (state : Report.State) :
    (Call.report reports state).outgoing.isSome = state.pc.sends := by
  obtain ⟨pc, sent⟩ := state
  cases pc <;> rfl

theorem callAt_of_slot (hslot : s.slots[i]? = some slot) : s.callAt i = some slot.call := by
  rw [State.callAt, hslot]
  rfl

/-- What a replaced slot does to the calls. -/
theorem callAt_set (hslot : s.slots[i]? = some slot) {slot' : Slot}
    (h : t.slots = s.slots.set i slot') (j : ℕ) :
    t.callAt j = if j = i then some slot'.call else s.callAt j := by
  rw [State.callAt, h]
  split
  next heq =>
    subst heq
    rw [List.getElem?_set_self (List.getElem?_eq_some_iff.mp hslot).1]
    rfl
  next hne =>
    rw [List.getElem?_set_ne (Ne.symm hne)]
    rfl

theorem callAt_set_same (hslot : s.slots[i]? = some slot) {slot' : Slot}
    (h : t.slots = s.slots.set i slot') (hcall : slot'.call = slot.call) (j : ℕ) :
    t.callAt j = s.callAt j := by
  rw [callAt_set hslot h]
  split
  next heq => rw [heq, callAt_of_slot hslot, hcall]
  next => rfl

/-- What a step of the client is for the sends of its calls. -/
inductive Sends (s : State) (event : Event) (t : State) : Prop
  | none : (∀ j, t.callAt j = s.callAt j) → (∀ i wake, event ≠ .wake i wake) → Sends s event t
  | begin {i : ℕ} {call : Call} : s.callAt i = none →
      (∀ j, t.callAt j = if j = i then some call else s.callAt j) →
      call.attempts = 0 → call.outgoing = none → (∀ i wake, event ≠ .wake i wake) → Sends s event t
  | wake {i : ℕ} {wake : Wake} {call call' : Call} : event = .wake i wake → s.callAt i = some call →
      (∀ j, t.callAt j = if j = i then some call' else s.callAt j) →
      call'.attempts = call.attempts + call'.outgoing.isSome.toNat →
      (call.outgoing.isSome = true → ∃ result, wake = .sent result) → Sends s event t

theorem callAt_append (h : t.slots = s.slots ++ [slot]) (j : ℕ) :
    t.callAt j = if j = s.slots.length then some slot.call else s.callAt j := by
  rw [State.callAt, h]
  split
  next heq =>
    subst heq
    rw [List.getElem?_concat_length]
    rfl
  next hne =>
    rcases lt_or_gt_of_ne hne with hlt | hgt
    · rw [List.getElem?_append_left hlt]
      rfl
    · rw [State.callAt, List.getElem?_eq_none (by simpa using hgt), List.getElem?_eq_none hgt.le]

/-- The end of the list of calls. -/
theorem callAt_length (s : State) : s.callAt s.slots.length = none := by simp [State.callAt]

theorem sent_of_requestReply {wake : Wake} {channel : List ResponsePacket} {now : ℕ}
    {result : Except IoError ℕ}
    (h : s.requestReply channel wake = some (.flight now (.sent result))) :
    wake = .sent result := by
  cases wake with
  | sent => cases h; rfl
  | received =>
    obtain ⟨packet, -, hreply⟩ := Option.map_eq_some_iff.mp h
    cases hreply
  | activity | applyLock | activityWrite =>
    obtain ⟨-, h⟩ := Option.ite_none_right_eq_some.mp h
    cases h
  | socketWrite | epochChanged =>
    obtain ⟨-, h⟩ := Option.ite_none_left_eq_some.mp h
    cases h
  | _ => cases h

theorem sent_of_reportReply {wake : Wake} {result : Except IoError ℕ}
    (h : s.reportReply wake = some (.sent result)) : wake = .sent result := by
  cases wake <;> cases h
  rfl

theorem sends_of_step (hstep : step client s event = some t) : Sends s event t := by
  cases moves_of_step hstep with
  | tick | routerRead | routerAck | epochChanged | datagram | receiveError =>
    exact .none (fun _ => rfl) (by simp)
  | @check query =>
    refine .begin (callAt_length s) (callAt_append rfl) ?_ ?_ (by simp)
    · rw [Call.attempts, Request.log_eq_nil Request.flight_begin]
      rfl
    · rw [← Option.not_isSome_iff_eq_none, isSome_outgoing_check, Request.not_sending_begin]
      simp
  | @report reports =>
    refine .begin (callAt_length s) (callAt_append rfl) rfl ?_ (by simp)
    rw [← Option.not_isSome_iff_eq_none, isSome_outgoing_report]
    unfold Report.begin
    split <;> simp [Report.Pc.sends]
  | @request i slot query pc wake reply pc' hslot hdropped hcall hreply hrequest =>
    refine .wake rfl (callAt_of_slot hslot) (callAt_set hslot slots_move) ?_ ?_
    · rw [hcall, isSome_outgoing_check]
      exact Request.attempts_of_step hrequest
    · intro hsending
      rw [hcall, isSome_outgoing_check] at hsending
      obtain ⟨now, result, rfl⟩ := Request.sent_of_step hrequest hsending
      exact ⟨result, sent_of_requestReply hreply⟩
  | @reporting i slot reports state wake reply state' hslot hdropped hcall hreply hreport =>
    let slot' : Slot := { slot with call := .report reports state' }
    refine .wake rfl (callAt_of_slot hslot) (@callAt_set s _ i slot hslot slot' rfl) ?_ ?_
    · rw [hcall, isSome_outgoing_report]
      exact Report.length_sent_of_step hreport
    · intro hsends
      rw [hcall, isSome_outgoing_report] at hsends
      obtain ⟨result, rfl⟩ := Report.sent_of_step hreport hsends
      exact ⟨result, sent_of_reportReply hreply⟩
  | drop hslot => exact .none (callAt_set_same hslot rfl rfl) (by simp)
  | @deliver generation i packet =>
    refine .none (fun j => ?_) (by simp)
    cases hslot : s.slots[i]? with
    | none => simp [State.callAt, State.deliver, hslot]
    | some slot =>
      let slot' : Slot := { slot with channel := slot.channel ++ [packet] }
      refine @callAt_set_same s _ i slot hslot slot' ?_ rfl j
      simp [State.deliver, hslot, slot']

/-! ### What has been counted -/

/-- The size of the packet that a call is sending. -/
theorem length_outgoing_le (hcrypto : client.crypto.AeadCorrect) (h : (lts client).Reachable s)
    {call : Call} (hcall : s.callAt i = some call) {send : List UInt8 × SocketAddr}
    (hsend : call.outgoing = some send) : send.1.length ≤ maxPacketSize := by
  obtain ⟨slot, hslot, rfl⟩ := Option.map_eq_some_iff.mp hcall
  have hreachable := calls_reachable h i slot hslot
  unfold Call.outgoing at hsend
  split at hsend
  next query flight heq =>
    rw [heq] at hreachable
    obtain ⟨seed, -, pdu, hcarries, -⟩ := Request.flight_asks hcrypto hreachable rfl
    split at hsend
    · cases hsend
      exact hcarries.length_le
    · cases hsend
  next reports state heq =>
    rw [heq] at hreachable
    have hsound := (Report.sound_reachable hreachable).pc
    split at hsend
    next hpc =>
      cases hsend
      rw [hpc] at hsound
      obtain ⟨seed, hpacket⟩ := hsound
      obtain ⟨pdu, hcarries, -⟩ := buildLatencyReportPacket_spec hcrypto hpacket
      exact hcarries.length_le
    · cases hsend
  next => cases hsend

/-- A counted send of a packet that is not too long. -/
def IsSend : Traffic.Call → Prop
  | .sent len _ _ => len.toNat ≤ maxPacketSize
  | .received .. => False

def receipt (packet : ResponsePacket) : Traffic.Call :=
  .received (.ofNat packet.data.length) packet.addr

/-- Every attempt of a call has been counted, but for one that is under way, and so has every
datagram that the router has received. -/
structure Metered (s : State) (calls : Option ℕ → List Traffic.Call) : Prop where
  attempts : ∀ i call, s.callAt i = some call →
    call.attempts = (calls (some i)).length + call.outgoing.isSome.toNat
  unstarted : ∀ i, s.callAt i = none → calls (some i) = []
  sends : ∀ i, ∀ call ∈ calls (some i), IsSend call
  received : calls none = s.received.reverse.map receipt

theorem record_received (calls : Option ℕ → List Traffic.Call)
    (hstep : step client s event = some t) (h : calls none = s.received.reverse.map receipt) :
    Meter.record calls (s.counts event) none = t.received.reverse.map receipt := by
  have hwake (i : ℕ) (wake : Wake) :
      Meter.record calls (s.counts (.wake i wake)) none = calls none := by
    cases wake with
    | sent result =>
      cases hsend : (s.callAt i).bind (·.outgoing) with
      | none => simp [State.counts, hsend, Meter.record]
      | some send => simp [State.counts, hsend, Meter.record]
    | _ => rfl
  cases moves_of_step hstep with
  | datagram => simp [State.counts, Meter.record, h, receipt]
  | request => rw [hwake, received_move, h]
  | reporting => rw [hwake, h]
  | _ => exact h

theorem record_of_not_wake (calls : Option ℕ → List Traffic.Call)
    (hevent : ∀ i wake, event ≠ .wake i wake) (j : ℕ) :
    Meter.record calls (s.counts event) (some j) = calls (some j) := by
  cases event with
  | wake i wake => exact absurd rfl (hevent i wake)
  | datagram packet => simp [State.counts, Meter.record]
  | _ => rfl

/-- A wake-up counts the send that it ends. -/
theorem record_of_wake (calls : Option ℕ → List Traffic.Call) {wake : Wake} {call : Call}
    (hcall : s.callAt i = some call)
    (hwake : call.outgoing.isSome = true → ∃ result, wake = .sent result)
    (hlen : ∀ send, call.outgoing = some send → send.1.length ≤ maxPacketSize) :
    ∃ new, new.length = call.outgoing.isSome.toNat ∧ (∀ call ∈ new, IsSend call) ∧
      ∀ j, Meter.record calls (s.counts (.wake i wake)) (some j) =
        if j = i then calls (some i) ++ new else calls (some j) := by
  cases hout : call.outgoing with
  | none =>
    refine ⟨[], rfl, nofun, fun j => ?_⟩
    have hcounts : s.counts (.wake i wake) = none := by
      cases wake with
      | sent result => simp [State.counts, hcall, hout]
      | _ => rfl
    rw [hcounts, List.append_nil, Meter.record]
    split
    next heq => rw [heq]
    next => rfl
  | some send =>
    obtain ⟨result, rfl⟩ := hwake (by rw [hout]; rfl)
    refine ⟨[.sent (.ofNat send.1.length) send.2 (result.map UInt64.ofNat)], rfl, ?_, fun j => ?_⟩
    · intro call' hcall'
      rw [List.mem_singleton.mp hcall']
      exact (Nat.mod_le _ _).trans (hlen send hout)
    · simp [State.counts, hcall, hout, Meter.record, Function.update_apply]

theorem metered_step (hcrypto : client.crypto.AeadCorrect) (hreachable : (lts client).Reachable s)
    {calls : Option ℕ → List Traffic.Call} (h : Metered s calls)
    (hstep : step client s event = some t) :
    Metered t (Meter.record calls (s.counts event)) := by
  have hreceived := record_received calls hstep h.received
  cases sends_of_step hstep with
  | none hcallAt hevent =>
    have hrecord := @record_of_not_wake s event calls hevent
    refine ⟨fun i call hcall => ?_, fun i hnone => ?_, fun i => ?_, hreceived⟩
    · rw [hrecord]
      exact h.attempts i call ((hcallAt i).symm.trans hcall)
    · rw [hrecord]
      exact h.unstarted i ((hcallAt i).symm.trans hnone)
    · rw [hrecord]
      exact h.sends i
  | @begin i call hnone hcallAt hattempts hout hevent =>
    have hrecord := @record_of_not_wake s event calls hevent
    refine ⟨fun j call' hcall' => ?_, fun j hj => ?_, fun j => ?_, hreceived⟩
    · rw [hrecord]
      rw [hcallAt j] at hcall'
      split at hcall'
      next heq =>
        cases hcall'
        rw [heq, h.unstarted i hnone, hattempts, hout]
        rfl
      next => exact h.attempts j call' hcall'
    · rw [hrecord]
      rw [hcallAt j] at hj
      split at hj
      · cases hj
      · exact h.unstarted j hj
    · rw [hrecord]
      exact h.sends j
  | @wake i wake call call' hevent hcall hcallAt hattempts hwake =>
    subst hevent
    obtain ⟨new, hnew, hsends, hrecord⟩ := record_of_wake calls hcall hwake fun send hsend =>
      length_outgoing_le hcrypto hreachable hcall hsend
    refine ⟨fun j call'' hcall'' => ?_, fun j hj => ?_, fun j => ?_, hreceived⟩
    · rw [hrecord]
      rw [hcallAt j] at hcall''
      split at hcall''
      next heq =>
        cases hcall''
        rw [if_pos heq, List.length_append, hnew, ← h.attempts i call hcall, hattempts]
      next hne =>
        rw [if_neg hne]
        exact h.attempts j call'' hcall''
    · rw [hrecord]
      rw [hcallAt j] at hj
      split at hj
      next => cases hj
      next hne =>
        rw [if_neg hne]
        exact h.unstarted j hj
    · rw [hrecord]
      split
      · exact fun call' hmem => (List.mem_append.mp hmem).elim (h.sends i call') (hsends call')
      · exact h.sends j

theorem reachable_of_metered (h : (metered client).Reachable m) :
    (lts client).Reachable m.state := by
  refine h.invariant (P := fun m => (lts client).Reachable m.state) ?_ ?_
  · rintro m ⟨hinit, -⟩
    exact .init hinit
  · intro m event m' _ hm hstep
    obtain ⟨t, ht, rfl⟩ := Option.map_eq_some_iff.mp hstep
    exact hm.step ht

theorem metered_reachable (hcrypto : client.crypto.AeadCorrect) (h : (metered client).Reachable m) :
    Metered m.state m.calls := by
  refine h.invariant (P := fun m => Metered m.state m.calls) ?_ ?_
  · rintro ⟨s, calls⟩ ⟨⟨bindUdp, now, hnew⟩, rfl⟩
    obtain ⟨socket, -, -, -, rfl⟩ := new_eq_ok_iff.mp hnew
    exact ⟨by simp [State.callAt, start], fun _ _ => rfl, nofun, rfl⟩
  · intro m event m' hreachable hm hstep
    obtain ⟨t, ht, rfl⟩ := Option.map_eq_some_iff.mp hstep
    exact metered_step hcrypto (reachable_of_metered hreachable) hm ht

/-! ### Totals -/

open Traffic (Counter Direction)

/-- The sends that the calls have attempted. -/
def State.attempts (s : State) : ℕ := (s.slots.map (·.call.attempts)).sum

/-- The sends that are under way, or were when their call was dropped. -/
def State.underway (s : State) : ℕ := (s.slots.map (·.call.outgoing.isSome.toNat)).sum

/-- What the traffic counters are to show. -/
structure Accounts (s : State) (amount : Counter → ℕ) : Prop where
  attempts : amount (.datagrams .sent) + amount .sendFailures + s.underway = s.attempts
  sentBytes : amount (.payloadBytes .sent) ≤ maxPacketSize * amount (.datagrams .sent)
  received : amount (.datagrams .received) = s.received.length
  receivedBytes : amount (.payloadBytes .received) = (s.received.map (·.data.length)).sum
  ipBytes : ∀ d, amount (.payloadBytes d) + 28 * amount (.datagrams d) ≤ amount (.ipBytes d) ∧
    amount (.ipBytes d) ≤ amount (.payloadBytes d) + 48 * amount (.datagrams d)

theorem headers_bounds (peer : SocketAddr) :
    28 ≤ (Traffic.headers peer).toNat ∧ (Traffic.headers peer).toNat ≤ 48 := by
  unfold Traffic.headers
  split
  · decide
  · split <;> decide

/-- The bytes that a call counts with and without headers. -/
theorem ipBytes_of_call (call : Traffic.Call) (d : Direction) :
    call.contribution (.payloadBytes d) + 28 * call.contribution (.datagrams d) ≤
        call.contribution (.ipBytes d) ∧
      call.contribution (.ipBytes d) ≤
        call.contribution (.payloadBytes d) + 48 * call.contribution (.datagrams d) := by
  have hrecorded (direction : Direction) (len : UInt64) (peer : SocketAddr) :
      Traffic.recorded direction len peer (.payloadBytes d) +
          28 * Traffic.recorded direction len peer (.datagrams d) ≤
          Traffic.recorded direction len peer (.ipBytes d) ∧
        Traffic.recorded direction len peer (.ipBytes d) ≤
          Traffic.recorded direction len peer (.payloadBytes d) +
            48 * Traffic.recorded direction len peer (.datagrams d) := by
    have hheaders := headers_bounds peer
    unfold Traffic.recorded
    dsimp only
    split_ifs <;> omega
  cases call with
  | sent len peer result =>
    unfold Traffic.Call.contribution
    dsimp only
    split
    · exact hrecorded .sent len peer
    · simp
  | received len peer => exact hrecorded .received len peer

/-- A send counts as a datagram or as a failure. -/
theorem sent_of_isSend {call : Traffic.Call} (h : IsSend call) :
    call.contribution (.datagrams .sent) + call.contribution .sendFailures = 1 ∧
      call.contribution (.payloadBytes .sent) ≤
        maxPacketSize * call.contribution (.datagrams .sent) := by
  cases call with
  | sent len peer result =>
    replace h : len.toNat ≤ maxPacketSize := h
    unfold Traffic.Call.contribution
    dsimp only
    split
    · simpa [Traffic.recorded] using h
    · simp
  | received => exact h.elim

theorem received_of_isSend {call : Traffic.Call} (h : IsSend call) :
    call.contribution (.datagrams .received) = 0 ∧
      call.contribution (.payloadBytes .received) = 0 := by
  cases call with
  | sent len peer result =>
    unfold Traffic.Call.contribution
    dsimp only
    split <;> simp [Traffic.recorded]
  | received => exact h.elim

theorem fits_of_isSend {call : Traffic.Call} (h : IsSend call) : call.Fits := by
  cases call with
  | sent len peer result =>
    replace h : len.toNat ≤ maxPacketSize := h
    intro d
    have hheaders := headers_bounds peer
    rw [maxPacketSize] at h
    unfold Traffic.Call.contribution Traffic.recorded
    dsimp only
    split_ifs <;> omega
  | received => exact h.elim

theorem fits_receipt {packet : ResponsePacket} (h : packet.data.length ≤ 65536) :
    (receipt packet).Fits := by
  intro d
  have hheaders := headers_bounds packet.addr
  have hlen : (UInt64.ofNat packet.data.length).toNat = packet.data.length :=
    Nat.mod_eq_of_lt (by omega)
  unfold receipt Traffic.Call.contribution Traffic.recorded
  dsimp only
  split <;> omega

theorem total_tasks (m : Meter) (c : Counter) : Traffic.total m.tasks c =
    ((m.calls none).map (Traffic.Call.contribution c)).sum +
      ∑ i : Fin m.state.slots.length,
        ((m.calls (some i)).map (Traffic.Call.contribution c)).sum :=
  Fintype.sum_option _

/-- The router contributes to the received counters only. -/
theorem total_sent (h : Metered m.state m.calls) {c : Counter}
    (hc : ∀ packet, (receipt packet).contribution c = 0) : Traffic.total m.tasks c =
      ∑ i : Fin m.state.slots.length,
        ((m.calls (some i)).map (Traffic.Call.contribution c)).sum := by
  have hzero : (Traffic.Call.contribution c) ∘ receipt = fun _ => 0 := funext hc
  rw [total_tasks, h.received, List.map_map, hzero]
  simp

/-- The calls contribute to the sent counters only. -/
theorem total_received (h : Metered m.state m.calls) {c : Counter}
    (hc : ∀ call, IsSend call → call.contribution c = 0) : Traffic.total m.tasks c =
      (m.state.received.map fun packet => (receipt packet).contribution c).sum := by
  have hzero : ∑ i : Fin m.state.slots.length,
      ((m.calls (some i)).map (Traffic.Call.contribution c)).sum = 0 := by
    refine Finset.sum_eq_zero fun i _ => List.sum_eq_zero fun n hn => ?_
    obtain ⟨call, hcall, rfl⟩ := List.mem_map.mp hn
    exact hc call (h.sends i call hcall)
  rw [total_tasks, hzero, h.received, List.map_map, List.map_reverse, List.sum_reverse,
    Nat.add_zero]
  rfl

theorem total_attempts (h : Metered m.state m.calls) :
    Traffic.total m.tasks (.datagrams .sent) + Traffic.total m.tasks .sendFailures +
      m.state.underway = m.state.attempts := by
  have hlength (i : Fin m.state.slots.length) :
      ((m.calls (some i)).map (Traffic.Call.contribution (.datagrams .sent))).sum +
        ((m.calls (some i)).map (Traffic.Call.contribution .sendFailures)).sum =
      (m.calls (some i)).length := by
    rw [← List.sum_map_add,
      List.map_congr_left fun call hcall => (sent_of_isSend (h.sends i call hcall)).1]
    simp
  rw [total_sent h fun _ => rfl, total_sent h fun _ => rfl, ← Finset.sum_add_distrib,
    Finset.sum_congr rfl fun i _ => hlength i, State.underway, State.attempts,
    ← Fin.sum_univ_fun_getElem, ← Fin.sum_univ_fun_getElem, ← Finset.sum_add_distrib]
  refine Finset.sum_congr rfl fun i _ => (h.attempts i _ ?_).symm
  exact callAt_of_slot (List.getElem?_eq_getElem i.isLt)

theorem accounts_total (h : Metered m.state m.calls)
    (hbuffer : ∀ packet ∈ m.state.received, packet.data.length ≤ 65536) :
    Accounts m.state (Traffic.total m.tasks) := by
  refine ⟨total_attempts h, ?_, ?_, ?_, fun d => ?_⟩
  · rw [total_sent h fun _ => rfl, total_sent h fun _ => rfl, Finset.mul_sum]
    refine Finset.sum_le_sum fun i _ => ?_
    rw [← List.sum_map_mul_left]
    exact List.sum_le_sum fun call hcall => (sent_of_isSend (h.sends i call hcall)).2
  · rw [total_received h fun call hcall => (received_of_isSend hcall).1]
    simp [receipt, Traffic.Call.contribution, Traffic.recorded]
  · rw [total_received h fun call hcall => (received_of_isSend hcall).2]
    refine congrArg List.sum (List.map_congr_left fun packet hpacket => ?_)
    exact Nat.mod_eq_of_lt ((hbuffer packet hpacket).trans_lt (by decide))
  · have hsum {f g : Traffic.Call → ℕ} (hfg : ∀ call, f call ≤ g call) :
        ∑ i, ((m.tasks i).map f).sum ≤ ∑ i, ((m.tasks i).map g).sum :=
      Finset.sum_le_sum fun i _ => List.sum_le_sum fun call _ => hfg call
    have hlower := hsum fun call => (ipBytes_of_call call d).1
    have hupper := hsum fun call => (ipBytes_of_call call d).2
    simp only [List.sum_map_add, List.sum_map_mul_left, Finset.sum_add_distrib,
      ← Finset.mul_sum] at hlower hupper
    exact ⟨hlower, hupper⟩

theorem fits_tasks (h : Metered m.state m.calls)
    (hbuffer : ∀ packet ∈ m.state.received, packet.data.length ≤ 65536) :
    ∀ i, ∀ call ∈ m.tasks i, call.Fits := by
  intro i call hcall
  cases i with
  | none =>
    replace hcall : call ∈ m.calls none := hcall
    rw [h.received] at hcall
    obtain ⟨packet, hpacket, rfl⟩ := List.mem_map.mp hcall
    exact fits_receipt (hbuffer packet (List.mem_reverse.mp hpacket))
  | some i => exact fits_of_isSend (h.sends i call hcall)

/-- However the calls, the router and their counting interleave: a snapshot of the traffic counters
shows at most, and once the tasks have counted exactly, up to saturation, every send that a call
has attempted, but for those under way, as a datagram or as a failure, and every datagram that the
router has received, with their bytes. The router reads into a buffer of 65536 bytes. -/
theorem traffic_accounted (hcrypto : client.crypto.AeadCorrect) (h : (metered client).Reachable m)
    (hbuffer : ∀ packet ∈ m.state.received, packet.data.length ≤ 65536) :
    ∃ amount, Accounts m.state amount ∧ ∀ w labels w', (Traffic.watched m.tasks).Reachable w →
      (Traffic.watched m.tasks).Run w labels w' → w.reader = .begin → w'.reader.todo = [] →
        (∀ c, (w'.reader.stats.get c).toNat ≤ amount c) ∧
        (w'.reader.stats.incomplete = true → ∃ c, 2 ^ 64 - 1 < amount c) ∧
        (w.state.Finished → (∀ c, (w'.reader.stats.get c).toNat = min (2 ^ 64 - 1) (amount c)) ∧
          ((∃ c, 2 ^ 64 - 1 < amount c) → w'.reader.stats.incomplete = true)) := by
  have hmetered := metered_reachable hcrypto h
  have hfits := fits_tasks hmetered hbuffer
  refine ⟨Traffic.total m.tasks, accounts_total hmetered hbuffer, ?_⟩
  intro w labels w' hreachable hrun hbegin hend
  exact Traffic.snapshot_total hfits hreachable hrun hbegin hend

def sampleMeter : Meter := ⟨sampleState, fun _ => []⟩

/-- A send, a send that fails, and an answer. -/
def sampleTraffic : List Event :=
  let seed := sampleSeedOf 0
  [.check sampleQuery, .wake 0 (.lastRefresh seed), .wake 0 (.refresh sampleResolver seed),
    .wake 0 (.servers sampleResolver), .wake 0 (.activity seed), .wake 0 .socket,
    .wake 0 (.sent (.ok 84)), .wake 0 (.sent (.error ⟨.other, "unreachable"⟩)), .routerRead,
    .routerAck, .datagram (sampleAnswer 0)]

/-- A task makes `n` calls of `add`. -/
def sampleAdds {ι : Type} (i : ι) (n : ℕ) : List (Traffic.Watched.Label ι) :=
  (List.replicate n [.task i .load, .task i (.exchange true)]).flatten

/-- The call makes four calls of `add`, and the router three. -/
def sampleCounting (m : Meter) : Option (Traffic.Watched (Option (Fin m.state.slots.length))) :=
  Lts.runSteps Traffic.Watched.step
    (((List.finRange m.state.slots.length).flatMap fun i => sampleAdds (some i) 4) ++
      sampleAdds none 3)
    ⟨Traffic.start m.tasks, .begin⟩

def sampleSnapshot {ι : Type} [DecidableEq ι] (w : Traffic.Watched ι) :
    Option (Traffic.Watched ι) :=
  Lts.runSteps Traffic.Watched.step (List.replicate 8 .load) w

theorem traffic_accounted_sample : ∃ m, (metered sampleClient).Reachable m ∧ ∃ amount,
    Accounts m.state amount ∧ amount (.datagrams .sent) = 1 ∧ amount .sendFailures = 1 := by
  obtain ⟨m, hm, htest⟩ := (Option.any_eq_true _ _).mp
    (show (Lts.runSteps (Meter.step sampleClient) sampleTraffic sampleMeter).any (fun m =>
      (m.state.received.all fun packet => packet.data.length ≤ 65536) ∧
      (sampleCounting m).any fun w => (∀ i, w.state.tasks i = .finished) ∧ w.reader = .begin ∧
        (sampleSnapshot w).any fun w' => w'.reader.todo = [] ∧ w'.reader.stats.sent.datagrams = 1 ∧
          w'.reader.stats.sendFailures = 1) = true by decide +kernel)
  obtain ⟨hbuffer, hcounting⟩ := of_decide_eq_true htest
  obtain ⟨w, hw, hw'⟩ := (Option.any_eq_true _ _).mp hcounting
  obtain ⟨hfinished, hbegin, hsnapshot⟩ := of_decide_eq_true hw'
  obtain ⟨w', hload, htest'⟩ := (Option.any_eq_true _ _).mp hsnapshot
  obtain ⟨hend, hdatagrams, hfailures⟩ := of_decide_eq_true htest'
  have hreachable : (metered sampleClient).Reachable m :=
    (Lts.Run.of_runSteps (m := metered sampleClient) (fun _ _ _ _ h => h) hm).reachable
      (.init ⟨init_sampleState, rfl⟩)
  have hwatched : (Traffic.watched m.tasks).Reachable w :=
    (Lts.Run.of_runSteps (m := Traffic.watched m.tasks) (fun _ _ _ _ h => h) hw).reachable
      (.init ⟨rfl, rfl⟩)
  obtain ⟨amount, haccounts, hamount⟩ := traffic_accounted sampleCrypto_aeadCorrect hreachable
    fun packet hpacket => of_decide_eq_true (List.all_eq_true.mp hbuffer packet hpacket)
  have hstats := ((hamount w _ w' hwatched (.of_runSteps (fun _ _ _ _ h => h) hload) hbegin
    hend).2.2 hfinished).1
  have hsent : (w'.reader.stats.sent.datagrams).toNat =
      min (2 ^ 64 - 1) (amount (.datagrams .sent)) :=
    hstats (.datagrams .sent)
  have hfailed : (w'.reader.stats.sendFailures).toNat = min (2 ^ 64 - 1) (amount .sendFailures) :=
    hstats .sendFailures
  rw [hdatagrams, UInt64.toNat_one] at hsent
  rw [hfailures, UInt64.toNat_one] at hfailed
  exact ⟨m, hreachable, amount, haccounts, by omega, by omega⟩

end Client

end Ratelimitly
