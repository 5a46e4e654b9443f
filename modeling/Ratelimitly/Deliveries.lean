import Mathlib.Tactic
import Ratelimitly.Inflight
import Ratelimitly.Lib.Progress
import Ratelimitly.Marks

/-! The way of a datagram from the router through a call's channel to its acceptance. -/
namespace Ratelimitly

open Lib Rounds

/-- The datagrams that were accepted, in order. -/
def acceptedPackets (log : List Entry) : List ResponsePacket := (collect Effect.packets log).reverse

theorem mem_acceptedPackets {log : List Entry} {packet : ResponsePacket}
    (h : packet ∈ acceptedPackets log) :
    ∃ e ∈ log, ∃ result, e.effect = .accepted packet result := by
  obtain ⟨e, he, hpacket⟩ := List.mem_flatMap.mp (List.mem_reverse.mp h)
  refine ⟨e, he, ?_⟩
  unfold Effect.packets at hpacket
  split at hpacket
  next packet' result heq => exact ⟨result, List.mem_singleton.mp hpacket ▸ heq⟩
  next => cases hpacket

namespace Request

variable {pc pc' : Pc} {reply : Reply} {effects : List Effect} {now : ℕ}

theorem Entered.acceptedPackets (h : Entered pc pc' effects now) :
    acceptedPackets pc'.log = acceptedPackets pc.log ++
      (effects.flatMap Effect.packets).reverse := by
  rw [Ratelimitly.acceptedPackets, h.collect ?_, List.reverse_append, Ratelimitly.acceptedPackets]
  intro effect heffect
  cases effect with
  | accepted => exact heffect.elim
  | _ => rfl

theorem packets_marks (h : ∀ now packet, reply ≠ .flight now (.received packet)) :
    (pc.marks reply).flatMap Effect.packets = [] := by
  unfold Pc.marks
  split
  · unfold Registration.marks
    split
    · rfl
    · rfl
    · exact absurd rfl (h _ _)
    · rfl
  · rfl

theorem packets_marks_received (now : ℕ) (packet : ResponsePacket) :
    ((pc.marks (.flight now (.received packet))).flatMap Effect.packets).Sublist [packet] := by
  unfold Pc.marks
  split
  next flight _ _ hreply =>
    cases hreply
    unfold Registration.marks
    split
    · exact List.nil_sublist _
    next heq => cases heq
    next heq =>
      cases heq
      cases flight.reg.acceptedResult packet with
      | none => exact List.nil_sublist _
      | some result => exact List.Sublist.refl _
    · exact List.nil_sublist _
  next => exact List.nil_sublist _

end Request

namespace Client

variable {client : CoreClient} {s t : State} {event : Event} {i : ℕ} {slot : Slot} {query : Query}
  {pc pc' : Request.Pc} {wake : Wake} {reply : Request.Reply} {packet : ResponsePacket}

/-- The datagrams that the call has accepted, and those that wait in its channel. -/
def Slot.intake (slot : Slot) : List ResponsePacket := acceptedPackets slot.log ++ slot.channel

/-- The datagram that the router is about to send to call `i`. -/
def RouterPc.transit (i : ℕ) : RouterPc → List ResponsePacket
  | .delivering _ j packet => if j = i then [packet] else []
  | _ => []

@[simp] theorem transit_reading : RouterPc.reading.transit i = [] := rfl

@[simp] theorem transit_receiving (generation : ℕ) :
    (RouterPc.receiving generation).transit i = [] := rfl

@[simp] theorem transit_delivering (generation j : ℕ) (packet : ResponsePacket) :
    (RouterPc.delivering generation j packet).transit i = if j = i then [packet] else [] := rfl

/-- All that the router has taken for call `i`, in order, but what the call has refused. -/
def State.intake (s : State) (i : ℕ) : List ResponsePacket :=
  (s.slots[i]?.map Slot.intake).getD [] ++ s.router.transit i

theorem received_of_wake (h : s.requestReply slot.channel wake = some reply) :
    (∃ packet, wake = .received ∧ slot.channel.head? = some packet ∧
      reply = .flight s.clock (.received packet)) ∨
    wake ≠ .received ∧ ∀ now packet, reply ≠ .flight now (.received packet) := by
  by_cases hwake : wake = .received
  · subst hwake
    obtain ⟨packet, hhead, rfl⟩ := Option.map_eq_some_iff.mp h
    exact .inl ⟨packet, rfl, hhead, rfl⟩
  · refine .inr ⟨hwake, ?_⟩
    rintro now packet rfl
    exact hwake (answers_of_requestReply h).2

/-- What a wake-up leaves in the channel. -/
def Slot.unread (slot : Slot) : Wake → List ResponsePacket
  | .received => slot.channel.tail
  | _ => slot.channel

/-- A call takes at most the first datagram of its channel, and accepts it or not. -/
theorem intake_unread (hcall : slot.call = .check query pc)
    (hreply : s.requestReply slot.channel wake = some reply)
    (hstep : Request.step client query pc reply = some pc') :
    (Slot.intake { slot with call := .check query pc', channel := slot.unread wake }).Sublist
      slot.intake := by
  have hlog := (Request.entered_of_step hstep (at_of_requestReply hreply)).acceptedPackets
  have hold : slot.log = pc.log := by rw [Slot.log, hcall]
  rw [Slot.intake, Slot.intake, hold, Slot.log, hlog, List.append_assoc]
  refine List.Sublist.append_left ?_ _
  rcases received_of_wake hreply with ⟨packet, rfl, hhead, rfl⟩ | ⟨hwake, hother⟩
  · obtain ⟨rest, hchannel⟩ := List.head?_eq_some_iff.mp hhead
    rw [Slot.unread, hchannel]
    exact (Request.packets_marks_received _ _).reverse.append (.refl rest)
  · rw [Request.packets_marks hother, List.reverse_nil, List.nil_append]
    cases wake with
    | received => exact absurd rfl hwake
    | _ => exact .refl _

theorem slots_move_unread : (s.move client i slot query pc pc' wake reply).slots =
    s.slots.set i { slot with call := .check query pc', channel := slot.unread wake } := slots_move

theorem intake_set {slot' : Slot} (hslot : s.slots[i]? = some slot)
    (hslots : t.slots = s.slots.set i slot') (hrouter : t.router = s.router)
    (hintake : slot'.intake.Sublist slot.intake) (j : ℕ) : (t.intake j).Sublist (s.intake j) := by
  rw [State.intake, State.intake, hrouter, hslots]
  refine List.Sublist.append_right ?_ _
  rw [List.getElem?_set]
  split
  next heq =>
    subst heq
    rw [hslot, if_pos (List.getElem?_eq_some_iff.mp hslot).1]
    exact hintake
  next => exact .refl _

theorem intake_append {slot' : Slot} (hslots : t.slots = s.slots ++ [slot'])
    (hrouter : t.router = s.router) (hnew : slot'.intake = []) (j : ℕ) :
    t.intake j = s.intake j := by
  rw [State.intake, State.intake, hrouter, hslots]
  congr 1
  rcases lt_trichotomy j s.slots.length with hlt | rfl | hgt
  · rw [List.getElem?_append_left hlt]
  · simp [hnew]
  · rw [List.getElem?_eq_none (by simpa using hgt), List.getElem?_eq_none hgt.le]

theorem intake_begin {call : Call} (h : (⟨call, [], false⟩ : Slot).log = []) :
    (⟨call, [], false⟩ : Slot).intake = [] := by
  rw [Slot.intake, h]
  rfl

/-- The router sends a datagram on to the end of the call's channel. -/
theorem intake_deliver {generation : ℕ} (hrouter : s.router = .delivering generation i packet)
    (hslots : t.slots = s.deliver i packet) (hreading : t.router = .reading) (j : ℕ) :
    (t.intake j).Sublist (s.intake j) := by
  rw [State.intake, State.intake, hrouter, hslots, hreading, transit_reading, transit_delivering,
    List.append_nil]
  unfold State.deliver
  split
  next slot hslot =>
    rw [List.getElem?_set]
    split
    next heq =>
      subst heq
      rw [hslot, if_pos (List.getElem?_eq_some_iff.mp hslot).1]
      show (acceptedPackets slot.log ++ (slot.channel ++ [packet])).Sublist
        (acceptedPackets slot.log ++ slot.channel ++ [packet])
      rw [List.append_assoc]
    next hne => rw [List.append_nil]
  next => exact List.sublist_append_left _ _

/-- A datagram is taken for one call at most. -/
theorem transit_route (generation : ℕ) (packet : ResponsePacket) (i : ℕ) :
    ((s.route generation packet).transit i).Sublist [packet] := by
  unfold State.route
  split
  · split
    · rw [RouterPc.transit]
      split
      · exact .refl _
      · exact List.nil_sublist _
    · exact List.nil_sublist _
  · exact List.nil_sublist _

/-- What is taken for a call was received, in this order. -/
theorem intake_step (h : ∀ i, (s.intake i).Sublist s.received.reverse)
    (hstep : step client s event = some t) (i : ℕ) : (t.intake i).Sublist t.received.reverse := by
  have helsewhere {u : State} (hslots : u.slots = s.slots) (hrouter : u.router.transit i = []) :
      (u.intake i).Sublist s.received.reverse := by
    rw [State.intake, hslots, hrouter, List.append_nil]
    exact (List.sublist_append_left _ _).trans (h i)
  have hbegins {u : State} {slot' : Slot} (hslots : u.slots = s.slots ++ [slot'])
      (hrouter : u.router = s.router) (hnew : slot'.intake = []) :
      (u.intake i).Sublist s.received.reverse := by
    rw [intake_append hslots hrouter hnew]
    exact h i
  cases moves_of_step hstep with
  | tick => exact h i
  | @check query =>
    have hlog : (⟨.check query (Request.begin client query), [], false⟩ : Slot).log = [] :=
      Request.log_eq_nil Request.flight_begin
    exact hbegins rfl rfl (intake_begin hlog)
  | @report reports =>
    have hlog : (⟨.report reports (Report.begin reports), [], false⟩ : Slot).log = [] := rfl
    exact hbegins rfl rfl (intake_begin hlog)
  | request hslot hdropped hcall hreply hrequest =>
    rw [received_move]
    exact (intake_set hslot slots_move_unread router_move
      (intake_unread hcall hreply hrequest) i).trans (h i)
  | @reporting _ slot reports _ _ _ state' hslot _ hcall =>
    have hintake :
        (Slot.intake { slot with call := .report reports state' }).Sublist slot.intake := by
      rw [Slot.intake, Slot.intake, Slot.log, Slot.log, hcall]
    refine (intake_set hslot ?_ ?_ hintake i).trans (h i) <;> rfl
  | @drop j slot hslot =>
    exact (intake_set (t := s.dropCall j slot) hslot rfl rfl (.refl slot.intake) i).trans (h i)
  | routerRead | routerAck | epochChanged | receiveError => exact helsewhere rfl rfl
  | @datagram generation packet hrouter =>
    have hnil : s.intake i = (s.slots[i]?.map Slot.intake).getD [] := by
      rw [State.intake, hrouter, transit_receiving, List.append_nil]
    have hold := h i
    rw [hnil] at hold
    rw [State.intake, List.reverse_cons]
    exact hold.append (transit_route generation packet i)
  | deliver hrouter => exact (intake_deliver hrouter rfl rfl i).trans (h i)

theorem intake_reachable (h : (lts client).Reachable s) :
    ∀ i, (s.intake i).Sublist s.received.reverse := by
  refine h.invariant (P := fun s => ∀ i, (s.intake i).Sublist s.received.reverse) ?_ ?_
  · rintro s ⟨bindUdp, now, hnew⟩ i
    obtain ⟨socket, -, -, -, rfl⟩ := new_eq_ok_iff.mp hnew
    exact List.nil_sublist _
  · intro s event t _ hs hstep
    exact intake_step hs hstep

/-! ### All calls together -/

variable {p : ResponsePacket → Bool}

/-- The datagram that the router is about to send, whatever the call. -/
def RouterPc.held : RouterPc → List ResponsePacket
  | .delivering _ _ packet => [packet]
  | _ => []

@[simp] theorem held_reading : RouterPc.reading.held = [] := rfl

@[simp] theorem held_receiving (generation : ℕ) : (RouterPc.receiving generation).held = [] := rfl

@[simp] theorem held_delivering (generation i : ℕ) (packet : ResponsePacket) :
    (RouterPc.delivering generation i packet).held = [packet] := rfl

/-- How many datagrams of a kind are on their way to a call or were accepted by one. -/
def State.kept (p : ResponsePacket → Bool) (s : State) : ℕ :=
  (s.slots.map fun slot => slot.intake.countP p).sum + s.router.held.countP p

theorem kept_set {slot' : Slot} (hslot : s.slots[i]? = some slot)
    (hslots : t.slots = s.slots.set i slot') (hrouter : t.router = s.router)
    (hintake : slot'.intake.Sublist slot.intake) : t.kept p ≤ s.kept p := by
  have hsum := sum_map_set (fun slot => slot.intake.countP p) hslot slot'
  have hle := hintake.countP_le (p := p)
  rw [State.kept, State.kept, hslots, hrouter]
  omega

theorem kept_append {slot' : Slot} (hslots : t.slots = s.slots ++ [slot'])
    (hrouter : t.router = s.router) (hnew : slot'.intake = []) : t.kept p = s.kept p := by
  simp [State.kept, hslots, hrouter, hnew]

theorem kept_deliver {generation : ℕ} (hrouter : s.router = .delivering generation i packet)
    (hslots : t.slots = s.deliver i packet) (hreading : t.router = .reading) :
    t.kept p ≤ s.kept p := by
  rw [State.kept, State.kept, hrouter, hslots, hreading, held_reading, held_delivering]
  unfold State.deliver
  split
  next slot hslot =>
    have hsum := sum_map_set (fun slot => slot.intake.countP p) hslot
      { slot with channel := slot.channel ++ [packet] }
    have hcount : (Slot.intake { slot with channel := slot.channel ++ [packet] }).countP p =
        slot.intake.countP p + [packet].countP p := by
      simp only [Slot.intake, Slot.log, List.countP_append]
      omega
    rw [List.countP_nil]
    omega
  next => exact Nat.add_le_add_left (Nat.zero_le _) _

theorem held_route (generation : ℕ) (packet : ResponsePacket) :
    (s.route generation packet).held.Sublist [packet] := by
  unfold State.route
  split
  · split
    · exact .refl _
    · exact List.nil_sublist _
  · exact List.nil_sublist _

theorem kept_step (h : s.kept p ≤ s.received.countP p) (hstep : step client s event = some t) :
    t.kept p ≤ t.received.countP p := by
  have helsewhere {u : State} (hslots : u.slots = s.slots) (hrouter : u.router.held = []) :
      u.kept p ≤ s.received.countP p := by
    rw [State.kept, hslots, hrouter, List.countP_nil]
    exact (Nat.le_add_right _ _).trans h
  have hbegins {u : State} {slot' : Slot} (hslots : u.slots = s.slots ++ [slot'])
      (hrouter : u.router = s.router) (hnew : slot'.intake = []) :
      u.kept p ≤ s.received.countP p := by
    rw [kept_append hslots hrouter hnew]
    exact h
  cases moves_of_step hstep with
  | tick => exact h
  | @check query =>
    have hlog : (⟨.check query (Request.begin client query), [], false⟩ : Slot).log = [] :=
      Request.log_eq_nil Request.flight_begin
    exact hbegins rfl rfl (intake_begin hlog)
  | @report reports =>
    have hlog : (⟨.report reports (Report.begin reports), [], false⟩ : Slot).log = [] := rfl
    exact hbegins rfl rfl (intake_begin hlog)
  | request hslot hdropped hcall hreply hrequest =>
    rw [received_move]
    exact (kept_set hslot slots_move_unread router_move
      (intake_unread hcall hreply hrequest)).trans h
  | @reporting _ slot reports _ _ _ state' hslot _ hcall =>
    have hintake :
        (Slot.intake { slot with call := .report reports state' }).Sublist slot.intake := by
      rw [Slot.intake, Slot.intake, Slot.log, Slot.log, hcall]
    refine (kept_set hslot ?_ ?_ hintake).trans h <;> rfl
  | @drop j slot hslot =>
    exact (kept_set (t := s.dropCall j slot) hslot rfl rfl (.refl slot.intake)).trans h
  | routerRead | routerAck | epochChanged | receiveError => exact helsewhere rfl rfl
  | @datagram generation packet hrouter =>
    have hold : s.kept p = (s.slots.map fun slot => slot.intake.countP p).sum := by
      rw [State.kept, hrouter, held_receiving, List.countP_nil, Nat.add_zero]
    have hheld := (@held_route s generation packet).countP_le (p := p)
    have hcons : (packet :: s.received).countP p = [packet].countP p + s.received.countP p := by
      rw [← List.singleton_append, List.countP_append]
    rw [State.kept, hcons]
    dsimp only
    omega
  | deliver hrouter => exact (kept_deliver hrouter rfl rfl).trans h

theorem kept_reachable (h : (lts client).Reachable s) (p : ResponsePacket → Bool) :
    s.kept p ≤ s.received.countP p := by
  refine h.invariant (P := fun s => s.kept p ≤ s.received.countP p) ?_ ?_
  · rintro s ⟨bindUdp, now, hnew⟩
    obtain ⟨socket, -, -, -, rfl⟩ := new_eq_ok_iff.mp hnew
    exact le_rfl
  · intro s event t _ hs hstep
    exact kept_step hs hstep

/-! ### Own datagrams -/

/-- The datagram has the id of the call. -/
def Slot.Owns (slot : Slot) (packet : ResponsePacket) : Prop :=
  ∃ id, slot.requestId = some id ∧ peekRequestId packet.data = .ok id

theorem owns_of_meantFor (hslot : s.slots[i]? = some slot) (h : MeantFor s i packet) :
    slot.Owns packet := by
  obtain ⟨-, id, hpeek, hid⟩ := h
  exact ⟨id, by rw [← hid, requestIdAt_of_slot hslot], hpeek⟩

theorem owns_intake (h : (lts client).Reachable s) (hslot : s.slots[i]? = some slot)
    (hpacket : packet ∈ slot.intake) : slot.Owns packet := by
  have hdelivered := delivered_reachable h
  rcases List.mem_append.mp hpacket with haccepted | hchannel
  · obtain ⟨e, he, result, heff⟩ := mem_acceptedPackets haccepted
    cases hcall : slot.call with
    | report =>
      rw [Slot.log, hcall] at he
      cases he
    | check query pc =>
      rw [Slot.log, hcall] at he
      cases hflight : pc.flight with
      | none =>
        replace he : e ∈ pc.log := he
        rw [Request.log_eq_nil hflight] at he
        cases he
      | some flight =>
        replace he : e ∈ pc.log := he
        rw [Request.log_of_flight hflight] at he
        have hmeant := (hdelivered.accepted i slot query pc flight hslot hcall hflight).log e he
        rw [heff] at hmeant
        exact owns_of_meantFor hslot hmeant
  · exact owns_of_meantFor hslot (hdelivered.channel i slot packet hslot hchannel)

/-- Whatever interleaving of calls, drops, rebinds and datagrams: what a call accepts, followed by
what still waits in its channel, are datagrams with its own id in the order in which the router has
received them, and over all calls no received datagram is handed on or accepted twice. -/
theorem deliveries_in_order (h : (lts client).Reachable s) :
    (∀ (i : ℕ) (slot : Slot), s.slots[i]? = some slot →
      (acceptedPackets slot.log ++ slot.channel).Sublist s.received.reverse ∧
        ∀ packet ∈ acceptedPackets slot.log ++ slot.channel, slot.Owns packet) ∧
      ∀ packet, (s.slots.map fun slot =>
        (acceptedPackets slot.log ++ slot.channel).count packet).sum ≤ s.received.count packet := by
  refine ⟨fun i slot hslot => ⟨?_, fun packet => owns_intake h hslot⟩, fun packet => ?_⟩
  · have hintake := intake_reachable h i
    rw [State.intake, hslot] at hintake
    exact (List.sublist_append_left _ _).trans hintake
  · exact (Nat.le_add_right _ _).trans (kept_reachable h _)

/-- Two calls at once, each with an answer of its own. -/
theorem deliveries_in_order_sample : ∃ s, (lts sampleClient).Reachable s ∧
    s.slots.map (fun slot => acceptedPackets slot.log) = [[sampleAnswer 0], [sampleAnswer 1]] ∧
      ∀ slot ∈ s.slots, (acceptedPackets slot.log ++ slot.channel).Sublist s.received.reverse := by
  obtain ⟨s, hs, htest⟩ := (Option.any_eq_true _ _).mp
    (show (sampleRun (sampleBegin 0 0 ++ sampleBegin 1 1 ++ sampleSelect 1 1 ++
      sampleSelect 0 0)).any (fun s => s.slots.map (fun slot => acceptedPackets slot.log) =
        [[sampleAnswer 0], [sampleAnswer 1]]) = true by decide +kernel)
  refine ⟨s, reachable_sampleRun hs, of_decide_eq_true htest, fun slot hslot => ?_⟩
  obtain ⟨i, hi⟩ := List.mem_iff_getElem?.mp hslot
  exact ((deliveries_in_order (reachable_sampleRun hs)).1 i slot hi).1

end Client

end Ratelimitly
