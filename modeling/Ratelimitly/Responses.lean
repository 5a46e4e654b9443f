import Mathlib.Tactic
import Ratelimitly.Deliveries

/-! That no response is lost between the router and the call that it is for. -/
namespace Ratelimitly

open Lib Rounds

namespace Request

variable {client : CoreClient} {query : Query} {pc pc' : Pc} {reply : Reply}

/-- The response is one that the call accepts. -/
def Pc.accepts (pc : Pc) (packet : ResponsePacket) : Bool :=
  pc.flight.any fun flight => (flight.reg.acceptedResult packet).isSome

theorem accepts_of_flight {flight : Flight} (h : pc.flight = some flight)
    (packet : ResponsePacket) : pc.accepts packet = (flight.reg.acceptedResult packet).isSome := by
  rw [Pc.accepts, h]
  rfl

theorem accepts_of_step (h : step client query pc reply = some pc') (hflight : pc.flight ≠ none) :
    pc'.accepts = pc.accepts := by
  cases steps_of_step h with
  | flight =>
    funext packet
    rw [accepts_of_flight (flight_leaveFlight _), accepts_of_flight rfl]
  | steering =>
    funext packet
    rw [accepts_of_flight (flight_steer _ _ _), accepts_of_flight rfl]
  | _ => exact absurd rfl hflight

/-- A call accepts the datagrams that it takes, unless it refuses them. -/
theorem packets_of_received {now : ℕ} {packet : ResponsePacket}
    (h : step client query pc (.flight now (.received packet)) = some pc') :
    (pc.marks (.flight now (.received packet))).flatMap Effect.packets =
      [packet].filter pc.accepts := by
  cases steps_of_step h with
  | @flight flight _ _ state hstep =>
    obtain ⟨-, hresumes⟩ := Registration.resumes_of_step hstep
    cases hresumes with
    | received hpc =>
      replace hpc : flight.state.pc = _ := hpc
      rw [Pc.marks, hpc, Registration.marks, List.filter_singleton, accepts_of_flight rfl]
      cases flight.reg.acceptedResult packet <;> rfl

end Request

namespace Client

variable {client : CoreClient} {s t : State} {event : Event} {i j : ℕ} {slot slot' : Slot}
  {packet : ResponsePacket} {taken : ℕ → List ResponsePacket}

/-- The response is one that the call accepts. -/
def Slot.accepts (slot : Slot) : ResponsePacket → Bool :=
  match slot.call with
  | .check _ pc => pc.accepts
  | .report _ _ => fun _ => false

/-- What waits for call `i` in its channel and at the router. -/
def State.waiting (s : State) (i : ℕ) : List ResponsePacket :=
  (s.slots[i]?.map (·.channel)).getD [] ++ s.router.transit i

/-- The call that is registered under the id of the datagram. -/
def State.addressee (s : State) (packet : ResponsePacket) : Option ℕ :=
  match peekRequestId packet.data with
  | .ok id => s.inflight id
  | _ => none

/-- The datagram that arrives for call `i`. -/
def State.arrivals (s : State) (event : Event) (i : ℕ) : List ResponsePacket :=
  match event with
  | .datagram packet => if s.addressee packet = some i then [packet] else []
  | _ => []

/-- A client, and the datagrams that have arrived for each call while it was registered. -/
structure Routed where
  state : State
  taken : ℕ → List ResponsePacket

def Routed.step (client : CoreClient) (r : Routed) (event : Event) : Option Routed :=
  (Client.step client r.state event).map fun state =>
    ⟨state, fun i => r.taken i ++ r.state.arrivals event i⟩

def routing (client : CoreClient) : Lts Routed Event where
  init r := (lts client).init r.state ∧ r.taken = fun _ => []
  step r event r' := r.step client event = some r'

/-! ### Steps -/

theorem transit_route_eq (generation : ℕ) (packet : ResponsePacket) (i : ℕ) :
    (s.route generation packet).transit i =
      if s.addressee packet = some i then [packet] else [] := by
  unfold State.route State.addressee
  cases peekRequestId packet.data with
  | ok id =>
    dsimp only
    split
    next j hj => simp [hj]
    next hnone => simp [hnone]
  | _ => rfl

theorem waiting_of_slot (hslot : s.slots[i]? = some slot) :
    s.waiting i = slot.channel ++ s.router.transit i := by
  rw [State.waiting, hslot]
  rfl

/-- What a step does with what is there for a call that has the slot `slot'` after it. -/
inductive Handles (s t : State) (event : Event) (i : ℕ) (slot' : Slot) : Prop
  | kept {slot : Slot} : s.slots[i]? = some slot →
      acceptedPackets slot'.log = acceptedPackets slot.log → slot'.accepts = slot.accepts →
      t.waiting i = s.waiting i ++ s.arrivals event i → Handles s t event i slot'
  | unregistered : s.requestIdAt i = none → acceptedPackets slot'.log = [] →
      (s.waiting i = [] → t.waiting i = []) → s.arrivals event i = [] → Handles s t event i slot'
  | taken {slot : Slot} (packet : ResponsePacket) : s.slots[i]? = some slot →
      slot'.accepts = slot.accepts → s.waiting i = packet :: t.waiting i →
      acceptedPackets slot'.log = acceptedPackets slot.log ++ [packet].filter slot.accepts →
      s.arrivals event i = [] → Handles s t event i slot'

/-- A step that does not touch the slot. -/
theorem handles_of_slot (hslot : s.slots[i]? = some slot')
    (hwaiting : t.waiting i = s.waiting i ++ s.arrivals event i) : Handles s t event i slot' :=
  .kept hslot rfl rfl hwaiting

theorem waiting_eq {new : List ResponsePacket}
    (hslots : (t.slots[i]?.map (·.channel)).getD [] = (s.slots[i]?.map (·.channel)).getD [])
    (hrouter : t.router.transit i = s.router.transit i ++ new) :
    t.waiting i = s.waiting i ++ new := by
  rw [State.waiting, State.waiting, hslots, hrouter, List.append_assoc]

theorem handles_append {new : Slot} (hslots : t.slots = s.slots ++ [new])
    (hrouter : t.router = s.router) (harrivals : s.arrivals event i = []) (hlog : new.log = [])
    (hchannel : new.channel = []) (h : t.slots[i]? = some slot') : Handles s t event i slot' := by
  have hwaiting : t.waiting i = s.waiting i ++ [] := by
    refine waiting_eq ?_ (by rw [hrouter, List.append_nil])
    rw [hslots]
    rcases lt_trichotomy i s.slots.length with hlt | rfl | hgt
    · rw [List.getElem?_append_left hlt]
    · simp [hchannel]
    · rw [List.getElem?_eq_none (by simpa using hgt), List.getElem?_eq_none hgt.le]
  rw [hslots] at h
  rcases lt_trichotomy i s.slots.length with hlt | rfl | hgt
  · rw [List.getElem?_append_left hlt] at h
    exact .kept h rfl rfl (by rw [hwaiting, harrivals])
  · rw [List.getElem?_concat_length] at h
    cases h
    refine .unregistered (by simp [State.requestIdAt]) ?_ (fun hs => ?_) harrivals
    · rw [hlog]
      rfl
    · rw [hwaiting, hs]
      rfl
  · rw [List.getElem?_eq_none (by simpa using hgt)] at h
    cases h

theorem waiting_set {new : Slot} (hslot : s.slots[i]? = some slot)
    (hslots : t.slots = s.slots.set i new) (hrouter : t.router = s.router) :
    t.waiting i = new.channel ++ s.router.transit i := by
  have hnew : t.slots[i]? = some new := by
    rw [hslots, List.getElem?_set_self (List.getElem?_eq_some_iff.mp hslot).1]
  rw [waiting_of_slot hnew, hrouter]

theorem handles_set_of_ne {new : Slot} (hslots : t.slots = s.slots.set j new) (hne : i ≠ j)
    (hrouter : t.router = s.router) (harrivals : s.arrivals event i = [])
    (h : t.slots[i]? = some slot') : Handles s t event i slot' := by
  have hsame : t.slots[i]? = s.slots[i]? := by rw [hslots, List.getElem?_set_ne (Ne.symm hne)]
  refine .kept (hsame.symm.trans h) rfl rfl ?_
  rw [harrivals]
  exact waiting_eq (by rw [hsame]) (by rw [hrouter, List.append_nil])

theorem handles_set {new : Slot} (hslot : s.slots[j]? = some slot)
    (hslots : t.slots = s.slots.set j new) (hrouter : t.router = s.router)
    (harrivals : s.arrivals event i = []) (hlog : new.log = slot.log)
    (haccepts : new.accepts = slot.accepts) (hchannel : new.channel = slot.channel)
    (h : t.slots[i]? = some slot') : Handles s t event i slot' := by
  by_cases heq : i = j
  · subst heq
    rw [hslots, List.getElem?_set_self (List.getElem?_eq_some_iff.mp hslot).1] at h
    cases h
    refine .kept hslot (by rw [hlog]) haccepts ?_
    rw [waiting_of_slot hslot, waiting_set hslot hslots hrouter, hchannel, harrivals,
      List.append_nil]
  · exact handles_set_of_ne hslots heq hrouter harrivals h

theorem handles_request {query : Query} {pc pc' : Request.Pc} {wake : Wake} {reply : Request.Reply}
    (hslot : s.slots[i]? = some slot) (hcall : slot.call = .check query pc)
    (hreply : s.requestReply slot.channel wake = some reply)
    (hstep : Request.step client query pc reply = some pc') :
    Handles s (s.move client i slot query pc pc' wake reply) (.wake i wake) i
      { slot with call := .check query pc', channel := slot.unread wake } := by
  have hentered := Request.entered_of_step hstep (at_of_requestReply hreply)
  have hlog : slot.log = pc.log := log_of_check hcall
  have haccepts : slot.accepts = pc.accepts := by rw [Slot.accepts, hcall]
  have hold := waiting_of_slot hslot
  have hnew : (s.move client i slot query pc pc' wake reply).waiting i =
      slot.unread wake ++ s.router.transit i := waiting_set hslot slots_move_unread router_move
  by_cases hflight : pc.flight = none
  · refine .unregistered ?_ ?_ (fun hs => ?_) rfl
    · rw [requestIdAt_of_slot hslot, Slot.requestId, hcall]
      dsimp only
      rw [Request.Pc.requestId, hflight]
      rfl
    · rw [Slot.log, hentered.acceptedPackets, Request.log_eq_nil hflight]
      unfold Request.Pc.marks
      split
      · cases hflight
      · rfl
    · obtain ⟨hchannel, htransit⟩ := List.append_eq_nil_iff.mp (hold.symm.trans hs)
      rw [hnew, htransit, List.append_nil]
      cases wake <;> simp [Slot.unread, hchannel]
  · have hkept := Request.accepts_of_step hstep hflight
    rcases received_of_wake hreply with ⟨packet, rfl, hhead, rfl⟩ | ⟨hwake, hother⟩
    · obtain ⟨rest, hchannel⟩ := List.head?_eq_some_iff.mp hhead
      refine .taken packet hslot (hkept.trans haccepts.symm) ?_ ?_ rfl
      · rw [hold, hnew, Slot.unread, hchannel]
        rfl
      · rw [hlog, haccepts, Slot.log]
        dsimp only
        rw [hentered.acceptedPackets, Request.packets_of_received hstep, List.filter_singleton]
        cases pc.accepts packet <;> rfl
    · refine .kept hslot ?_ (hkept.trans haccepts.symm) ?_
      · rw [hlog, Slot.log, hentered.acceptedPackets, Request.packets_marks hother]
        simp
      · rw [hold, hnew]
        cases wake with
        | received => exact absurd rfl hwake
        | _ => exact (List.append_nil _).symm

theorem handles_of_step (hdelivered : Delivered s) (hstep : step client s event = some t)
    (h : t.slots[i]? = some slot') : Handles s t event i slot' := by
  have hrouting {router : RouterPc} (hs : s.router.transit i = []) (hslots : t.slots = s.slots)
      (ht : t.router = router) (hnew : router.transit i = s.arrivals event i) :
      Handles s t event i slot' :=
    handles_of_slot (hslots ▸ h) (waiting_eq (by rw [hslots]) (by rw [ht, hnew, hs]; rfl))
  cases moves_of_step hstep with
  | tick => exact handles_of_slot h (List.append_nil _).symm
  | check => exact handles_append rfl rfl rfl (Request.log_eq_nil Request.flight_begin) rfl h
  | report => exact handles_append rfl rfl rfl rfl rfl h
  | @request j slot query pc wake reply pc' hslot hdropped hcall hreply hrequest =>
    by_cases heq : i = j
    · subst heq
      rw [slots_move_unread, List.getElem?_set_self (List.getElem?_eq_some_iff.mp hslot).1] at h
      cases h
      exact handles_request hslot hcall hreply hrequest
    · exact handles_set_of_ne slots_move_unread heq router_move rfl h
  | @reporting j slot reports state wake reply state' hslot hdropped hcall hreply hreport =>
    have hlog : Slot.log { slot with call := .report reports state' } = slot.log := by
      rw [Slot.log, Slot.log, hcall]
    have haccepts : Slot.accepts { slot with call := .report reports state' } = slot.accepts := by
      rw [Slot.accepts, Slot.accepts, hcall]
    exact handles_set hslot rfl rfl rfl hlog haccepts rfl h
  | @drop j slot hslot =>
    have hlog : Slot.log { slot with dropped := true } = slot.log := rfl
    exact handles_set hslot rfl rfl rfl hlog rfl rfl h
  | routerRead hrouter => exact hrouting (by rw [hrouter]; rfl) rfl rfl rfl
  | routerAck hrouter => exact hrouting (by rw [hrouter]; rfl) rfl rfl rfl
  | epochChanged hrouter => exact hrouting (by rw [hrouter]; rfl) rfl rfl rfl
  | receiveError hrouter => exact hrouting (by rw [hrouter]; rfl) rfl rfl rfl
  | datagram hrouter =>
    exact hrouting (by rw [hrouter]; rfl) rfl rfl (transit_route_eq _ _ _)
  | @deliver generation j packet hrouter =>
    obtain ⟨-, id, -, hid⟩ := hdelivered.router generation j packet hrouter
    obtain ⟨slot, hslot, -⟩ := Option.bind_eq_some_iff.mp hid
    have hslots : s.deliver j packet =
        s.slots.set j { slot with channel := slot.channel ++ [packet] } := by
      rw [State.deliver, hslot]
    replace h : (s.deliver j packet)[i]? = some slot' := h
    rw [hslots] at h
    by_cases heq : i = j
    · subst heq
      have hlt := (List.getElem?_eq_some_iff.mp hslot).1
      rw [List.getElem?_set_self hlt] at h
      cases h
      refine .kept hslot rfl rfl ?_
      rw [waiting_of_slot hslot, State.waiting, hslots, List.getElem?_set_self hlt, hrouter,
        transit_delivering, if_pos rfl]
      simp [State.arrivals]
    · rw [List.getElem?_set_ne (Ne.symm heq)] at h
      refine handles_of_slot h (waiting_eq ?_ ?_)
      · rw [hslots, List.getElem?_set_ne (Ne.symm heq)]
      · rw [hrouter, transit_delivering, if_neg (Ne.symm heq)]
        rfl

/-! ### Whole runs -/

/-- Of what has arrived for a call, it has accepted or refused what does not wait any more. -/
structure Kept (s : State) (taken : ℕ → List ResponsePacket) : Prop where
  slots : ∀ i slot, s.slots[i]? = some slot →
    acceptedPackets slot.log ++ (s.waiting i).filter slot.accepts = (taken i).filter slot.accepts
  unregistered : ∀ i, s.requestIdAt i = none → s.waiting i = [] ∧ taken i = []

theorem arrivals_of_unregistered (hkeyed : Keyed s) (h : s.requestIdAt i = none) :
    s.arrivals event i = [] := by
  unfold State.arrivals
  split
  next packet =>
    rw [if_neg]
    intro haddressee
    unfold State.addressee at haddressee
    split at haddressee
    next id _ =>
      rw [requestIdAt_of_registered ((hkeyed id i).mp haddressee)] at h
      cases h
    next => cases haddressee
  next => rfl

theorem waiting_of_none (hdelivered : Delivered s) (h : s.slots[i]? = none) : s.waiting i = [] := by
  rw [State.waiting, h]
  unfold RouterPc.transit
  split
  next generation j packet hrouter =>
    rw [if_neg]
    · rfl
    · rintro rfl
      obtain ⟨-, id, -, hid⟩ := hdelivered.router generation j packet hrouter
      rw [State.requestIdAt, h] at hid
      cases hid
  next => rfl

theorem responses_step (hkeyed : Keyed s) (hdelivered : Delivered s) (hdelivered' : Delivered t)
    (h : Kept s taken) (hstep : step client s event = some t) :
    Kept t fun i => taken i ++ s.arrivals event i := by
  constructor
  · intro i slot' hslot'
    cases handles_of_step hdelivered hstep hslot' with
    | @kept slot hslot hlog haccepts hwaiting =>
      rw [hlog, haccepts, hwaiting, List.filter_append, List.filter_append, ← List.append_assoc,
        h.slots i slot hslot]
    | unregistered hnone hlog hwaiting harrivals =>
      obtain ⟨hs, htaken⟩ := h.unregistered i hnone
      rw [hlog, hwaiting hs, htaken, harrivals]
      rfl
    | @taken slot packet hslot haccepts hwaiting hlog harrivals =>
      have hold := h.slots i slot hslot
      rw [hwaiting, ← List.singleton_append, List.filter_append, ← List.append_assoc] at hold
      rw [hlog, haccepts, hold, harrivals, List.append_nil]
  · intro i hnone
    have hnone' : s.requestIdAt i = none := by
      cases hid : s.requestIdAt i with
      | none => rfl
      | some id =>
        rw [requestIdAt_of_step hstep hid] at hnone
        cases hnone
    obtain ⟨hs, htaken⟩ := h.unregistered i hnone'
    have harrivals : s.arrivals event i = [] := arrivals_of_unregistered hkeyed hnone'
    refine ⟨?_, by rw [htaken, harrivals]; rfl⟩
    cases hslot' : t.slots[i]? with
    | none => exact waiting_of_none hdelivered' hslot'
    | some slot' =>
      cases handles_of_step hdelivered hstep hslot' with
      | kept _ _ _ hwaiting =>
        rw [hwaiting, hs, harrivals]
        rfl
      | unregistered _ _ hwaiting => exact hwaiting hs
      | taken packet _ _ hwaiting =>
        rw [hs] at hwaiting
        cases hwaiting

variable {r : Routed}

theorem reachable_of_routing (h : (routing client).Reachable r) :
    (lts client).Reachable r.state := by
  refine h.invariant (P := fun r => (lts client).Reachable r.state) ?_ ?_
  · rintro r ⟨hinit, -⟩
    exact .init hinit
  · intro r event r' _ hr hstep
    obtain ⟨t, ht, rfl⟩ := Option.map_eq_some_iff.mp hstep
    exact hr.step ht

theorem responses_reachable (h : (routing client).Reachable r) : Kept r.state r.taken := by
  refine h.invariant (P := fun r => Kept r.state r.taken) ?_ ?_
  · rintro ⟨s, taken⟩ ⟨⟨bindUdp, now, hnew⟩, rfl⟩
    obtain ⟨socket, -, -, -, rfl⟩ := new_eq_ok_iff.mp hnew
    exact ⟨by simp [start], fun _ _ => ⟨rfl, rfl⟩⟩
  · intro r event r' hreachable hr hstep
    obtain ⟨t, ht, rfl⟩ := Option.map_eq_some_iff.mp hstep
    have hs := reachable_of_routing hreachable
    exact responses_step (keyed_reachable hs) (delivered_reachable hs)
      (delivered_reachable (hs.step ht)) hr ht

/-- However calls, drops, rebinds and datagrams interleave, no response is lost: of the datagrams
that have arrived under a call's id while it was registered, the call has accepted exactly the
responses that it may accept, in the order of their arrival, but for those that wait for it. -/
theorem responses_kept (h : (routing client).Reachable r) (hslot : r.state.slots[i]? = some slot) :
    acceptedPackets slot.log ++ (r.state.waiting i).filter slot.accepts =
      (r.taken i).filter slot.accepts :=
  (responses_reachable h).slots i slot hslot

/-- An answer that was cut off. -/
def sampleCut : ResponsePacket := { sampleAnswer 0 with data := (sampleAnswer 0).data.take 40 }

/-- A call refuses an answer that was cut off, and accepts the one after it. -/
def sampleAnswers : List Event :=
  sampleBegin 0 0 ++ [.routerRead, .routerAck, .datagram sampleCut, .deliver, .routerRead,
    .routerAck, .datagram (sampleAnswer 0), .deliver, .wake 0 .received, .wake 0 .received]

theorem responses_kept_sample : ∃ (r : Routed) (slot : Slot), (routing sampleClient).Reachable r ∧
    r.taken 0 = [sampleCut, sampleAnswer 0] ∧ acceptedPackets slot.log = [sampleAnswer 0] ∧
      acceptedPackets slot.log ++ (r.state.waiting 0).filter slot.accepts =
        (r.taken 0).filter slot.accepts := by
  obtain ⟨r, hr, htest⟩ := (Option.any_eq_true _ _).mp
    (show (Lts.runSteps (Routed.step sampleClient) sampleAnswers ⟨sampleState, fun _ => []⟩).any
      (fun r => r.taken 0 = [sampleCut, sampleAnswer 0] ∧ r.state.slots[0]?.any fun slot =>
        acceptedPackets slot.log = [sampleAnswer 0]) = true by decide +kernel)
  obtain ⟨htaken, hany⟩ := of_decide_eq_true htest
  obtain ⟨slot, hslot, haccepted⟩ := (Option.any_eq_true _ _).mp hany
  have hreachable : (routing sampleClient).Reachable r :=
    (Lts.Run.of_runSteps (m := routing sampleClient) (fun _ _ _ _ h => h) hr).reachable
      (.init ⟨init_sampleState, rfl⟩)
  exact ⟨r, slot, hreachable, htaken, of_decide_eq_true haccepted, responses_kept hreachable hslot⟩

end Client

end Ratelimitly
