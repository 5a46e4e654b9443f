import Mathlib.Tactic
import Ratelimitly.Lib.Merge
import Ratelimitly.Rounds
import Ratelimitly.Steering

/-! `FamilySockets::recv_from`: which socket is read, and that neither address family starves. -/
namespace Ratelimitly

open Lib

/-- What a ready poll of a socket gives: a datagram or an error. -/
abbrev Received := Except IoError ResponsePacket

/-- `FamilySockets`, with the datagrams that wait at each socket. -/
structure Receiver where
  v4 : Option (List ResponsePacket)
  v6 : Option (List ResponsePacket)
  v6First : Bool
  deriving Repr

namespace Receiver

/-- The sockets as they are bound. -/
def ofSockets (sockets : FamilySockets) : Receiver :=
  ⟨sockets.v4.map fun _ => [], sockets.v6.map fun _ => [], false⟩

def socket (r : Receiver) (ipv6 : Bool) : Option (List ResponsePacket) :=
  if ipv6 then r.v6 else r.v4

def setSocket (r : Receiver) (ipv6 : Bool) (queue : List ResponsePacket) : Receiver :=
  if ipv6 then { r with v6 := some queue } else { r with v4 := some queue }

/-- What waits at the socket of a family. -/
def waiting (r : Receiver) (ipv6 : Bool) : List ResponsePacket := (r.socket ipv6).getD []

/-- The loop of `recv_from`: the first of the bound sockets whose `poll_recv_from` is ready. Here
and below `pollRecvFrom` is what that gives for each family; `none` is `Poll::Pending`. -/
def pollSockets (r : Receiver) (pollRecvFrom : Bool → Option Received) :
    List Bool → Option (Bool × Received)
  | [] => none
  | ipv6 :: order =>
    match r.socket ipv6, pollRecvFrom ipv6 with
    | some _, some result => some (ipv6, result)
    | _, _ => pollSockets r pollRecvFrom order

/-- A datagram that was received waits no longer. -/
def remove (r : Receiver) : Option (Bool × Received) → Receiver
  | some (ipv6, .ok _) => r.setSocket ipv6 (r.waiting ipv6).tail
  | some (_, .error _) | none => r

/-- A poll of `recv_from`. The family of the result is history. -/
def poll (r : Receiver) (pollRecvFrom : Bool → Option Received) :
    Option (Bool × Received) × Receiver :=
  let result := r.pollSockets pollRecvFrom (if r.v6First then [true, false] else [false, true])
  (result, { r.remove result with v6First := !r.v6First })

/-- Something arrives at a socket. -/
def arrive (r : Receiver) (ipv6 : Bool) (packet : ResponsePacket) : Option Receiver :=
  (r.socket ipv6).map fun queue => r.setSocket ipv6 (queue ++ [packet])

/-- A socket gives an error, or it is pending although something waits. -/
def lateAt (r : Receiver) (pollRecvFrom : Bool → Option Received) (ipv6 : Bool) : Bool :=
  match pollRecvFrom ipv6 with
  | some (.ok _) => false
  | some (.error _) => true
  | none => !(r.waiting ipv6).isEmpty

def late (r : Receiver) (pollRecvFrom : Bool → Option Received) : Bool :=
  r.lateAt pollRecvFrom false || r.lateAt pollRecvFrom true

/-- The environment says what `poll_recv_from` gives. `late` and `result` are history. -/
inductive Event where
  | arrive (ipv6 : Bool) (packet : ResponsePacket)
  | poll (pollRecvFrom : Bool → Option Received) (late : Bool) (result : Option (Bool × Received))

def lts (sockets : FamilySockets) : Lts Receiver Event where
  init r := r = ofSockets sockets
  step r event r' :=
    match event with
    | .arrive ipv6 packet => r.arrive ipv6 packet = some r'
    | .poll pollRecvFrom late result =>
      late = r.late pollRecvFrom ∧ r.poll pollRecvFrom = (result, r')

/-- What fits into the buffer. -/
def cut (bufLen : ℕ) (packet : ResponsePacket) : ResponsePacket :=
  { packet with data := packet.data.take bufLen }

/-- What is assumed of `UdpSocket::poll_recv_from`: a datagram that it gives is the first that
waits, cut to the buffer. It may be pending or give an error whatever waits: the runtime has yet to
see that the socket can be read, or the task has used up its budget. -/
def GivesFirst (bufLen : ℕ) (r : Receiver) : Event → Prop
  | .arrive .. => True
  | .poll pollRecvFrom .. => ∀ ipv6 packet, pollRecvFrom ipv6 = some (.ok packet) →
      (r.waiting ipv6).head?.map (cut bufLen) = some packet

namespace Event

def arrival? (ipv6 : Bool) : Event → Option ResponsePacket
  | .arrive other packet => if other = ipv6 then some packet else none
  | .poll .. => none

def result? (ipv6 : Bool) : Event → Option ResponsePacket
  | .poll _ _ (some (other, .ok packet)) => if other = ipv6 then some packet else none
  | _ => none

def isPoll : Event → Bool
  | .arrive .. => false
  | .poll .. => true

def isLate : Event → Bool
  | .arrive .. => false
  | .poll _ late _ => late

end Event

/-- The datagrams that arrive at the socket of a family. -/
def arrivals (ipv6 : Bool) (events : List Event) : List ResponsePacket :=
  events.filterMap (Event.arrival? ipv6)

/-- The datagrams that are received from a family. -/
def results (ipv6 : Bool) (events : List Event) : List ResponsePacket :=
  events.filterMap (Event.result? ipv6)

def polls (events : List Event) : ℕ := events.countP Event.isPoll

def latePolls (events : List Event) : ℕ := events.countP Event.isLate

variable {bufLen : ℕ} {sockets : FamilySockets} {r r' : Receiver} {ipv6 : Bool}
  {pollRecvFrom : Bool → Option Received} {late : Bool} {result : Option (Bool × Received)}
  {event : Event} {events events' : List Event}

/-! ### A poll -/

theorem waiting_setSocket_self (r : Receiver) (ipv6 : Bool) (queue : List ResponsePacket) :
    (r.setSocket ipv6 queue).waiting ipv6 = queue := by
  cases ipv6 <;> rfl

theorem waiting_setSocket_of_ne {other : Bool} (h : other ≠ ipv6) (r : Receiver)
    (queue : List ResponsePacket) :
    (r.setSocket ipv6 queue).waiting other = r.waiting other := by
  cases ipv6 <;> cases other <;> first | rfl | exact absurd rfl h

theorem v6First_setSocket (r : Receiver) (ipv6 : Bool) (queue : List ResponsePacket) :
    (r.setSocket ipv6 queue).v6First = r.v6First := by
  cases ipv6 <;> rfl

/-- A socket that is not bound, or whose poll is pending. -/
def Passed (r : Receiver) (pollRecvFrom : Bool → Option Received) (ipv6 : Bool) : Prop :=
  r.socket ipv6 = none ∨ pollRecvFrom ipv6 = none

theorem pollSockets_of_passed (h : r.Passed pollRecvFrom ipv6) (order : List Bool) :
    r.pollSockets pollRecvFrom (ipv6 :: order) = r.pollSockets pollRecvFrom order := by
  rw [pollSockets]
  rcases h with hsocket | hpending
  · simp only [hsocket]
  · cases r.socket ipv6 <;> simp only [hpending]

theorem passed_or_pollSockets (r : Receiver) (pollRecvFrom : Bool → Option Received) (ipv6 : Bool) :
    r.Passed pollRecvFrom ipv6 ∨ ∃ received, pollRecvFrom ipv6 = some received ∧
      ∀ order, r.pollSockets pollRecvFrom (ipv6 :: order) = some (ipv6, received) := by
  cases hsocket : r.socket ipv6 with
  | none => exact .inl (.inl hsocket)
  | some queue =>
    cases hready : pollRecvFrom ipv6 with
    | none => exact .inl (.inr hready)
    | some received =>
      refine .inr ⟨received, rfl, fun order => ?_⟩
      rw [pollSockets]
      simp only [hsocket, hready]

theorem late_of_lateAt (h : r.lateAt pollRecvFrom ipv6 = true) : r.late pollRecvFrom = true := by
  cases ipv6 with
  | false => exact Bool.or_eq_true_iff.mpr (.inl h)
  | true => exact Bool.or_eq_true_iff.mpr (.inr h)

theorem late_of_error {error : IoError} (h : pollRecvFrom ipv6 = some (.error error)) :
    r.late pollRecvFrom = true := by
  have hlate : r.lateAt pollRecvFrom ipv6 = true := by rw [lateAt, h]
  exact late_of_lateAt hlate

/-- Nothing waits at a socket that is passed, or the poll is late. -/
theorem Passed.waiting_eq_nil (h : r.Passed pollRecvFrom ipv6) :
    r.waiting ipv6 = [] ∨ r.late pollRecvFrom = true := by
  rcases h with hsocket | hpending
  · rw [waiting, hsocket]
    exact .inl rfl
  · by_cases hwaiting : r.waiting ipv6 = []
    · exact .inl hwaiting
    · have hlate : r.lateAt pollRecvFrom ipv6 = true := by
        rw [lateAt, hpending]
        simp only [List.isEmpty_eq_false_iff.mpr hwaiting, Bool.not_false]
      exact .inr (late_of_lateAt hlate)

/-- The sockets with the turns swapped. -/
def swap (r : Receiver) : Receiver := { r with v6First := !r.v6First }

theorem waiting_swap (r : Receiver) (ipv6 : Bool) : r.swap.waiting ipv6 = r.waiting ipv6 := by
  cases ipv6 <;> rfl

theorem swap_setSocket (r : Receiver) (ipv6 : Bool) (queue : List ResponsePacket) :
    (r.setSocket ipv6 queue).swap = r.swap.setSocket ipv6 queue := by
  cases ipv6 <;> rfl

theorem poll_eq (r : Receiver) (pollRecvFrom : Bool → Option Received) :
    r.poll pollRecvFrom = (r.pollSockets pollRecvFrom [r.v6First, !r.v6First],
      (r.remove (r.pollSockets pollRecvFrom [r.v6First, !r.v6First])).swap) := by
  have hfirst (result : Option (Bool × Received)) : (r.remove result).v6First = r.v6First := by
    unfold remove
    split
    · exact v6First_setSocket _ _ _
    all_goals rfl
  have horder : (if r.v6First then [true, false] else [false, true]) =
      [r.v6First, !r.v6First] := by
    cases r.v6First <;> rfl
  rw [poll, horder, swap, hfirst]

/-- What a poll does. -/
inductive Polls (bufLen : ℕ) (r : Receiver) (late : Bool) :
    Option (Bool × Received) → Receiver → Prop
  | datagram (ipv6 : Bool) {packet : ResponsePacket} {queue : List ResponsePacket} :
      r.waiting ipv6 = packet :: queue →
      (ipv6 ≠ r.v6First → r.waiting r.v6First = [] ∨ late = true) →
      Polls bufLen r late (some (ipv6, .ok (cut bufLen packet))) (r.swap.setSocket ipv6 queue)
  | error (ipv6 : Bool) {error : IoError} : late = true →
      Polls bufLen r late (some (ipv6, .error error)) r.swap
  | pending : (∀ ipv6, r.waiting ipv6 = [] ∨ late = true) → Polls bufLen r late none r.swap

theorem polls_of_received {received : Received}
    (hgives : GivesFirst bufLen r (.poll pollRecvFrom late result))
    (hreceived : pollRecvFrom ipv6 = some received)
    (hturn : ipv6 ≠ r.v6First → r.Passed pollRecvFrom r.v6First) :
    Polls bufLen r (r.late pollRecvFrom) (some (ipv6, received))
      (r.remove (some (ipv6, received))).swap := by
  cases received with
  | error error => exact .error _ (late_of_error hreceived)
  | ok packet =>
    obtain ⟨first, hfirst, rfl⟩ := Option.map_eq_some_iff.mp (hgives _ _ hreceived)
    obtain ⟨queue, hqueue⟩ := List.head?_eq_some_iff.mp hfirst
    rw [remove, hqueue, List.tail_cons, swap_setSocket]
    exact .datagram _ hqueue fun hne => (hturn hne).waiting_eq_nil

theorem polls_of_poll (hgives : GivesFirst bufLen r (.poll pollRecvFrom late result))
    (h : r.poll pollRecvFrom = (result, r')) :
    Polls bufLen r (r.late pollRecvFrom) result r' := by
  rw [poll_eq] at h
  cases h
  rcases passed_or_pollSockets r pollRecvFrom r.v6First with hfirst | ⟨received, hready, hpoll⟩
  · rw [pollSockets_of_passed hfirst]
    rcases passed_or_pollSockets r pollRecvFrom !r.v6First with hsecond | ⟨received, hready, hpoll⟩
    · rw [pollSockets_of_passed hsecond]
      refine .pending fun ipv6 => ?_
      by_cases hipv6 : ipv6 = r.v6First
      · exact hipv6 ▸ hfirst.waiting_eq_nil
      · exact Bool.eq_not.mpr hipv6 ▸ hsecond.waiting_eq_nil
    · rw [hpoll]
      exact polls_of_received hgives hready fun _ => hfirst
  · rw [hpoll]
    exact polls_of_received hgives hready fun hne => absurd rfl hne

/-! ### Two queues in turn -/

/-- The queues of the sockets, as they will be read. -/
structure Merges (bufLen : ℕ) (r : Receiver) (m : Merge ResponsePacket) : Prop where
  queue : ∀ ipv6, m.queue ipv6 = (r.waiting ipv6).map (cut bufLen)
  first : m.first = r.v6First

/-- The event with what will be read. A late poll takes what it does although the other queue has
its turn, or nothing although something waits. -/
def Event.merge (bufLen : ℕ) : Event → Merge.Event ResponsePacket
  | .arrive ipv6 packet => .arrive ipv6 (cut bufLen packet)
  | .poll _ late (some (ipv6, .ok packet)) =>
    .poll (fun other => !late || other == ipv6) (some (ipv6, packet))
  | .poll _ late _ => .poll (fun _ => !late) none

theorem merges_ofSockets (bufLen : ℕ) (sockets : FamilySockets) :
    Merges bufLen (ofSockets sockets) .empty := by
  refine ⟨fun ipv6 => ?_, rfl⟩
  obtain ⟨_ | _, _ | _⟩ := sockets <;> cases ipv6 <;> rfl

theorem merges_swap {m : Merge ResponsePacket} (h : Merges bufLen r m) :
    Merges bufLen r.swap { m with first := !m.first } := by
  refine ⟨fun ipv6 => ?_, congrArg Bool.not h.first⟩
  rw [waiting_swap]
  exact h.queue ipv6

theorem merges_take {m : Merge ResponsePacket} {packet : ResponsePacket}
    {queue : List ResponsePacket} (h : Merges bufLen r m)
    (hwaiting : r.waiting ipv6 = packet :: queue) :
    Merges bufLen (r.swap.setSocket ipv6 queue) (m.take ipv6 (cut bufLen packet)) := by
  refine ⟨fun other => ?_, (merges_swap h).first.trans (v6First_setSocket _ _ _).symm⟩
  by_cases ho : other = ipv6
  · subst ho
    simp [Merge.take, h.queue, waiting_setSocket_self, hwaiting]
  · simp [Merge.take, Function.update_of_ne ho, h.queue, waiting_setSocket_of_ne ho, waiting_swap]

theorem merges_arrive {m : Merge ResponsePacket} {packet : ResponsePacket} (h : Merges bufLen r m)
    (harrive : r.arrive ipv6 packet = some r') :
    Merges bufLen r' (m.arrive ipv6 (cut bufLen packet)) := by
  obtain ⟨queue, hqueue, rfl⟩ := Option.map_eq_some_iff.mp harrive
  refine ⟨fun other => ?_, h.first.trans (v6First_setSocket _ _ _).symm⟩
  by_cases ho : other = ipv6
  · subst ho
    have hwaiting : r.waiting other = queue := by rw [waiting, hqueue]; rfl
    simp [Merge.arrive, h.queue, waiting_setSocket_self, hwaiting]
  · simp [Merge.arrive, Function.update_of_ne ho, h.queue, waiting_setSocket_of_ne ho]

theorem merges_step {m : Merge ResponsePacket} (h : Merges bufLen r m)
    (hstep : ((lts sockets).restrict (GivesFirst bufLen)).step r event r') :
    ∃ m', (Merge.lts ResponsePacket).step m (event.merge bufLen) m' ∧ Merges bufLen r' m' := by
  obtain ⟨hgives, hstep⟩ := hstep
  cases event with
  | arrive ipv6 packet => exact ⟨_, .arrive _ _ _, merges_arrive h hstep⟩
  | poll pollRecvFrom late result =>
    obtain ⟨rfl, hpoll⟩ := hstep
    have hnil {ipv6 : Bool} (hwaiting : r.waiting ipv6 = [] ∨ r.late pollRecvFrom = true) :
        m.queue ipv6 = [] ∨ (!r.late pollRecvFrom) = false := by
      rwa [h.queue, List.map_eq_nil_iff, Bool.not_eq_eq_eq_not]
    cases polls_of_poll hgives hpoll with
    | @datagram ipv6 packet queue hwaiting hturn =>
      refine ⟨_, .take ?_ ?_ fun hne => ?_, merges_take h hwaiting⟩
      · rw [h.queue, hwaiting]
        rfl
      · rw [beq_self_eq_true, Bool.or_true]
      · rw [h.first] at hne ⊢
        rw [beq_false_of_ne (Ne.symm hne), Bool.or_false]
        exact hnil (hturn hne)
    | error ipv6 hlate => exact ⟨_, .pending fun _ => hnil (.inr hlate), merges_swap h⟩
    | pending hwaiting => exact ⟨_, .pending fun _ => hnil (hwaiting _), merges_swap h⟩

theorem merges_run {m : Merge ResponsePacket} (h : Merges bufLen r m)
    (hrun : ((lts sockets).restrict (GivesFirst bufLen)).Run r events r') :
    ∃ m', (Merge.lts ResponsePacket).Run m (events.map (Event.merge bufLen)) m' ∧
      Merges bufLen r' m' := by
  induction hrun generalizing m with
  | refl => exact ⟨m, .refl m, h⟩
  | head hstep _ ih =>
    obtain ⟨m', hstep', hm'⟩ := merges_step h hstep
    obtain ⟨u, hrun, hu⟩ := ih hm'
    exact ⟨u, .head hstep' hrun, hu⟩

/-! ### What is received -/

theorem arrivals_merge (bufLen : ℕ) (ipv6 : Bool) (events : List Event) :
    Merge.arrivals ipv6 (events.map (Event.merge bufLen)) =
      (arrivals ipv6 events).map (cut bufLen) := by
  rw [Merge.arrivals, List.filterMap_map, arrivals, List.map_filterMap]
  refine List.filterMap_congr fun event _ => ?_
  cases event with
  | arrive other packet =>
    simp only [Function.comp, Event.merge, Merge.Event.arrival?, Event.arrival?]
    split <;> rfl
  | poll _ _ result => rcases result with _ | ⟨_, _ | _⟩ <;> rfl

theorem results_merge (bufLen : ℕ) (ipv6 : Bool) (events : List Event) :
    Merge.results ipv6 (events.map (Event.merge bufLen)) = results ipv6 events := by
  rw [Merge.results, List.filterMap_map, results]
  refine List.filterMap_congr fun event _ => ?_
  cases event with
  | arrive => rfl
  | poll _ _ result => rcases result with _ | ⟨_, _ | _⟩ <;> rfl

theorem polls_merge (bufLen : ℕ) (events : List Event) :
    Merge.polls (events.map (Event.merge bufLen)) = polls events := by
  rw [Merge.polls, List.countP_map, polls]
  refine List.countP_congr fun event _ => ?_
  cases event with
  | arrive => rfl
  | poll _ _ result => rcases result with _ | ⟨_, _ | _⟩ <;> rfl

theorem latePolls_merge (bufLen : ℕ) (events : List Event) :
    Merge.latePolls (events.map (Event.merge bufLen)) = latePolls events := by
  rw [Merge.latePolls, List.countP_map, latePolls]
  refine List.countP_congr fun event _ => ?_
  cases event with
  | arrive => rfl
  | poll _ late result => rcases result with _ | ⟨_ | _, _ | _⟩ <;> cases late <;> rfl

theorem results_append (ipv6 : Bool) (events events' : List Event) :
    results ipv6 (events ++ events') = results ipv6 events ++ results ipv6 events' :=
  List.filterMap_append

/-- Each socket is read in order, without loss but for what exceeds the buffer. What waits behind
`k` others at its socket is received by the poll `2 * (k + 1)` from now, and after at most `k + 1`
more from the other family. A late poll puts this off by two at most: it swaps the turns all the
same. -/
theorem received_in_turn
    (hrun : ((lts sockets).restrict (GivesFirst bufLen)).Run (ofSockets sockets) events r)
    (hrun' : ((lts sockets).restrict (GivesFirst bufLen)).Run r events' r') (ipv6 : Bool) :
    (arrivals ipv6 events).map (cut bufLen) =
        results ipv6 events ++ (r.waiting ipv6).map (cut bufLen) ∧
      ∀ n packet, (arrivals ipv6 events)[n]? = some packet →
        (2 * (n - (results ipv6 events).length + 1 + latePolls events') ≤ polls events' →
          (results ipv6 (events ++ events'))[n]? = some (cut bufLen packet)) ∧
        ((results ipv6 (events ++ events')).length ≤ n →
          (results (!ipv6) (events ++ events')).length ≤ (results (!ipv6) events).length +
            (n - (results ipv6 events).length) + 1 + 2 * latePolls events') := by
  obtain ⟨m, hm, hmerges⟩ := merges_run (merges_ofSockets bufLen sockets) hrun
  obtain ⟨m', hm', -⟩ := merges_run hmerges hrun'
  have hreachable : (Merge.lts ResponsePacket).Reachable m := hm.reachable (.init rfl)
  have harrived (side : Bool) : m.arrived side = (arrivals side events).map (cut bufLen) :=
    (Merge.history_run hm side).1.trans (arrivals_merge bufLen side events)
  have htaken (side : Bool) : m.taken side = results side events :=
    (Merge.history_run hm side).2.trans (results_merge bufLen side events)
  have htaken' (side : Bool) : m'.taken side = results side (events ++ events') := by
    rw [(Merge.history_run hm' side).2, htaken, results_merge, results_append]
  refine ⟨?_, fun n packet harrival => ?_⟩
  · rw [← harrived, ← htaken, ← hmerges.queue]
    exact Merge.ordered_reachable hreachable ipv6
  · have hat : (m.arrived ipv6)[n]? = some (cut bufLen packet) := by
      rw [harrived, List.getElem?_map, harrival]
      rfl
    have hturn := Merge.taken_in_turn hreachable hm' hat
    rwa [polls_merge, latePolls_merge, htaken, htaken, htaken', htaken'] at hturn

/-! ### A run -/

def sampleDatagram (data : List UInt8) : ResponsePacket := ⟨data, sampleAddr 1⟩

/-- A busy IPv4 socket, and one datagram for IPv6. -/
def sampleArrivals : List Event :=
  [.arrive false (sampleDatagram [1]), .arrive false (sampleDatagram [2]),
    .arrive false (sampleDatagram [3]), .arrive true (sampleDatagram [4])]

def samplePoll (v4 v6 : Option ResponsePacket) (ipv6 : Bool) : Option Received :=
  (if ipv6 then v6 else v4).map .ok

/-- The IPv6 socket is pending at its first turn. -/
def samplePolls : List Event :=
  [.poll (samplePoll (some (sampleDatagram [1])) (some (sampleDatagram [4]))) false
      (some (false, .ok (sampleDatagram [1]))),
    .poll (samplePoll (some (sampleDatagram [2])) none) true
      (some (false, .ok (sampleDatagram [2]))),
    .poll (samplePoll (some (sampleDatagram [3])) (some (sampleDatagram [4]))) false
      (some (false, .ok (sampleDatagram [3]))),
    .poll (samplePoll none (some (sampleDatagram [4]))) false
      (some (true, .ok (sampleDatagram [4])))]

theorem givesFirst_samplePoll {v4 v6 : Option ResponsePacket} (late : Bool)
    (result : Option (Bool × Received))
    (hv4 : ∀ packet ∈ v4, (r.waiting false).head?.map (cut bufLen) = some packet)
    (hv6 : ∀ packet ∈ v6, (r.waiting true).head?.map (cut bufLen) = some packet) :
    GivesFirst bufLen r (.poll (samplePoll v4 v6) late result) := by
  intro ipv6 packet h
  obtain ⟨packet', hpacket, hok⟩ := Option.map_eq_some_iff.mp h
  cases hok
  cases ipv6 with
  | false => exact hv4 packet hpacket
  | true => exact hv6 packet hpacket

theorem received_in_turn_sample : (results true (sampleArrivals ++ samplePolls))[0]? =
    some (cut 2048 (sampleDatagram [4])) := by
  have hrun : ∃ r, ((lts ⟨some 0, some 1⟩).restrict (GivesFirst 2048)).Run
      (ofSockets ⟨some 0, some 1⟩) sampleArrivals r ∧
        ∃ r', ((lts ⟨some 0, some 1⟩).restrict (GivesFirst 2048)).Run r samplePolls r' := by
    refine ⟨_, .head ⟨trivial, rfl⟩ (.head ⟨trivial, rfl⟩ (.head ⟨trivial, rfl⟩
      (.head ⟨trivial, rfl⟩ (.refl _)))), _, .head ⟨?_, rfl, rfl⟩ (.head ⟨?_, rfl, rfl⟩
        (.head ⟨?_, rfl, rfl⟩ (.head ⟨?_, rfl, rfl⟩ (.refl _))))⟩ <;>
    · refine givesFirst_samplePoll _ _ ?_ ?_ <;> rintro _ ⟨⟩ <;> rfl
  obtain ⟨r, hrun, r', hrun'⟩ := hrun
  exact ((received_in_turn hrun hrun' true).2 0 _ rfl).1 (by decide)

end Receiver

end Ratelimitly
