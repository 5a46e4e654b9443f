import Mathlib.Tactic
import Ratelimitly.ClientSteps
import Ratelimitly.Effects

/-! The registrations of a client's requests, and the datagrams that the router hands them. -/
namespace Ratelimitly

open Lib

namespace Request

variable {client : CoreClient} {query : Query} {pc pc' : Pc} {reply : Reply} {id : Bytes 16}

theorem requestId_of_registered (h : pc.registered = some id) : pc.requestId = some id := by
  cases pc with
  | flying | steering => exact h
  | _ => cases h

/-- A call is registered in one step only, under the id that it has drawn. -/
theorem registered_of_steps (h : Steps client query pc reply pc') (hpc' : pc'.registered = some id) :
    pc.registered = some id ∨
      pc.registered = none ∧ ∃ seed now, reply = .activity seed now ∧ id = seed.requestId := by
  have hid := requestId_of_registered hpc'
  cases h with
  | lastRefresh => split at hid <;> cases hid
  | refreshed | unrefreshed => cases hid
  | servers =>
    rw [Pc.requestId, flight_enter] at hid
    cases hid
  | activity =>
    refine .inr ⟨rfl, _, _, rfl, ?_⟩
    unfold register at hpc'
    split at hpc'
    · cases hpc'
    · cases hpc'
    · exact (Option.some.inj hpc').symm
  | flight =>
    rw [Pc.requestId, flight_leaveFlight] at hid
    exact .inl hid
  | steering =>
    rw [Pc.requestId, flight_steer] at hid
    exact .inl hid

theorem requestId_of_steps (h : Steps client query pc reply pc') (hpc : pc.requestId = some id) :
    pc'.requestId = some id := by
  cases h with
  | flight =>
    rw [Pc.requestId, flight_leaveFlight]
    exact hpc
  | steering =>
    rw [Pc.requestId, flight_steer]
    exact hpc
  | _ => cases hpc

theorem not_registered_begin : (begin client query).registered = none := by
  cases h : (begin client query).registered with
  | none => rfl
  | some id =>
    have hid := requestId_of_registered h
    rw [Pc.requestId, flight_begin] at hid
    cases hid

end Request

namespace Client

variable {client : CoreClient} {s t : State} {event : Event} {i j : ℕ} {slot : Slot} {id : Bytes 16}
  {packet : ResponsePacket}

/-! ### The keys of `inflight` -/

/-- The id under which a call is registered. -/
def State.registered (s : State) (i : ℕ) : Option (Bytes 16) := (s.pcAt i).bind (·.registered)

theorem Inflight.settle_eq_some_iff {inflight : Inflight} {registered : ℕ → Option (Bytes 16)}
    (h : ∀ id j, inflight id = some j ↔ registered j = some id) {new : Option (Bytes 16)}
    (hnew : ∀ id, new = some id →
      registered i = some id ∨ registered i = none ∧ ∀ j, registered j ≠ some id) (id : Bytes 16)
    (j : ℕ) : inflight.settle i (registered i) new id = some j ↔
      (if j = i then new else registered j) = some id := by
  cases hold : registered i with
  | none =>
    cases hnew' : new with
    | none =>
      show inflight id = some j ↔ _
      rw [h]
      split
      next hj => rw [hj, hold]
      next => rfl
    | some id₀ =>
      have hfresh := ((hnew id₀ hnew').resolve_left (by simp [hold])).2
      rw [Inflight.settle]
      by_cases heq : id = id₀
      · rw [heq, Function.update_self, Option.some.injEq]
        split
        next hj => simp [hj]
        next hj => exact iff_of_false (Ne.symm hj) (hfresh j)
      · rw [Function.update_of_ne heq, h]
        split
        next hj => simp [hj, hold, Ne.symm heq]
        next => rfl
  | some id₀ =>
    cases hnew' : new with
    | none =>
      rw [Inflight.settle]
      by_cases heq : id = id₀
      · rw [heq, Function.update_self]
        refine iff_of_false (by simp) fun hj => ?_
        split at hj
        next => cases hj
        next hne => exact hne (Option.some.inj (((h id₀ j).mpr hj).symm.trans ((h id₀ i).mpr hold)))
      · rw [Function.update_of_ne heq, h]
        split
        next hj => simp [hj, hold, Ne.symm heq]
        next => rfl
    | some id₁ =>
      -- the id is kept
      have hsame : some id₀ = some id₁ := by
        rcases hnew id₁ hnew' with heq | ⟨heq, -⟩
        · exact hold.symm.trans heq
        · rw [hold] at heq
          cases heq
      show inflight id = some j ↔ _
      rw [h, ← hsame]
      split
      next hj => rw [hj, hold]
      next => rfl

/-- `inflight` has the id of each call that is registered, and no other id. -/
def Keyed (s : State) : Prop := ∀ id i, s.inflight id = some i ↔ s.registered i = some id

theorem registered_ne_of_fresh (h : s.fresh id = true) (j : ℕ) : s.registered j ≠ some id := by
  intro hj
  obtain ⟨pc, hpc, hid⟩ := Option.bind_eq_some_iff.mp hj
  obtain ⟨slot, hslot, hlive⟩ := Option.bind_eq_some_iff.mp hpc
  have hne := of_decide_eq_true (List.all_eq_true.mp h slot (List.mem_of_getElem? hslot))
  unfold Slot.live at hlive
  split at hlive
  next query pc' _ hcall =>
    cases hlive
    rw [Slot.requestId, hcall] at hne
    exact hne (Request.requestId_of_registered hid)
  next => cases hlive

theorem registered_of_pcs {new : Option Request.Pc}
    (hpcs : ∀ j, t.pcAt j = if j = i then new else s.pcAt j) (j : ℕ) :
    t.registered j = if j = i then new.bind (·.registered) else s.registered j := by
  rw [State.registered, hpcs]
  split <;> rfl

theorem keyed_step (h : Keyed s) (hstep : step client s event = some t) : Keyed t := by
  cases changes_of_step hstep with
  | idle hidle =>
    intro id i
    rw [hidle.inflight, h id i, State.registered, State.registered]
    rcases hidle.pcAt i with heq | ⟨hnone, hnew⟩
    · rw [heq]
    · rw [hnone]
      cases hpc : t.pcAt i with
      | none => rfl
      | some pc =>
        obtain ⟨query, rfl⟩ := hnew pc hpc
        rw [Option.bind_some, Request.not_registered_begin, Option.bind_none]
  | @request i slot query pc pc' wake reply _ _ _ hpc hanswers hrequest hpcs ht =>
    have hregistered : s.registered i = pc.registered := by rw [State.registered, hpc, Option.bind_some]
    have hinflight : t.inflight = s.inflight.settle i (s.registered i) pc'.registered := by
      rw [ht, hregistered]
      rfl
    have hnew (id : Bytes 16) (hid : pc'.registered = some id) : s.registered i = some id ∨
        s.registered i = none ∧ ∀ j, s.registered j ≠ some id := by
      rw [hregistered]
      refine (Request.registered_of_steps (Request.steps_of_step hrequest) hid).imp_right ?_
      rintro ⟨hnone, seed, now, rfl, rfl⟩
      exact ⟨hnone, registered_ne_of_fresh hanswers.2.1⟩
    intro id j
    rw [hinflight, Inflight.settle_eq_some_iff h hnew, registered_of_pcs hpcs]
    rfl
  | @drop i slot _ hslot _ hpcs ht =>
    have hinflight : t.inflight = s.inflight.settle i (s.registered i) none := by
      rw [ht, State.registered, State.pcAt, hslot]
      rfl
    have hnone (id : Bytes 16) (hid : none = some id) : s.registered i = some id ∨
        s.registered i = none ∧ ∀ j, s.registered j ≠ some id := by cases hid
    intro id j
    rw [hinflight, Inflight.settle_eq_some_iff h hnone, registered_of_pcs hpcs]
    rfl

theorem keyed_reachable (h : (lts client).Reachable s) : Keyed s := by
  refine h.invariant ?_ ?_
  · rintro s ⟨bindUdp, now, hnew⟩ id i
    obtain ⟨socket, -, -, -, rfl⟩ := new_eq_ok_iff.mp hnew
    simp [start, State.registered, State.pcAt]
  · intro s event t _ hs hstep
    exact keyed_step hs hstep

/-! ### The datagrams of a request -/

/-- The id under which a call is or was registered, also when it was dropped. -/
def State.requestIdAt (s : State) (i : ℕ) : Option (Bytes 16) := s.slots[i]?.bind (·.requestId)

theorem requestIdAt_of_slot (hslot : s.slots[i]? = some slot) :
    s.requestIdAt i = slot.requestId := by
  rw [State.requestIdAt, hslot, Option.bind_some]

theorem requestIdAt_of_registered (h : s.registered i = some id) : s.requestIdAt i = some id := by
  obtain ⟨pc, hpc, hid⟩ := Option.bind_eq_some_iff.mp h
  obtain ⟨slot, hslot, hlive⟩ := Option.bind_eq_some_iff.mp hpc
  rw [requestIdAt_of_slot hslot]
  unfold Slot.live at hlive
  split at hlive
  next query pc' _ hcall =>
    cases hlive
    rw [Slot.requestId, hcall]
    exact Request.requestId_of_registered hid
  next => cases hlive

theorem requestIdAt_of_step (hstep : step client s event = some t) (h : s.requestIdAt i = some id) :
    t.requestIdAt i = some id := by
  obtain ⟨old, hold, hid⟩ := Option.bind_eq_some_iff.mp h
  have hlt : i < t.slots.length :=
    (List.getElem?_eq_some_iff.mp hold).1.trans_le (length_slots_of_step hstep)
  obtain ⟨slot, hslot⟩ : ∃ slot, t.slots[i]? = some slot := ⟨_, List.getElem?_eq_getElem hlt⟩
  rw [requestIdAt_of_slot hslot]
  cases origin_of_step hstep hslot with
  | kept hs =>
    rw [hs] at hold
    exact Option.some.inj hold ▸ hid
  | check _ hs | report _ hs =>
    rw [hs] at hold
    cases hold
  | request hs _ hcall _ _ hrequest =>
    obtain rfl := Option.some.inj (hs.symm.trans hold)
    rw [Slot.requestId, hcall] at hid
    exact Request.requestId_of_steps (Request.steps_of_step hrequest) hid
  | reporting hs hcall =>
    obtain rfl := Option.some.inj (hs.symm.trans hold)
    rw [Slot.requestId, hcall] at hid
    cases hid
  | drop hs | deliver hs =>
    obtain rfl := Option.some.inj (hs.symm.trans hold)
    exact hid

/-- The router has received the datagram, and it has the id of call `i`. -/
def MeantFor (s : State) (i : ℕ) (packet : ResponsePacket) : Prop :=
  packet ∈ s.received ∧ ∃ id, peekRequestId packet.data = .ok id ∧ s.requestIdAt i = some id

theorem received_of_step (hstep : step client s event = some t) (h : packet ∈ s.received) :
    packet ∈ t.received := by
  cases moves_of_step hstep with
  | request => rwa [received_move]
  | datagram => exact List.mem_cons_of_mem _ h
  | _ => exact h

theorem MeantFor.step (h : MeantFor s i packet) (hstep : Client.step client s event = some t) :
    MeantFor t i packet := by
  obtain ⟨hreceived, id, hpeek, hid⟩ := h
  exact ⟨received_of_step hstep hreceived, id, hpeek, requestIdAt_of_step hstep hid⟩

/-- A datagram that is accepted is meant for the call. -/
def AcceptsMeant (s : State) (i : ℕ) : Rounds.Effect → Prop
  | .accepted packet _ => MeantFor s i packet
  | _ => True

/-- Every datagram on its way to a call, and every one that the call has accepted, is meant for it. -/
structure Delivered (s : State) : Prop where
  router : ∀ generation i packet, s.router = .delivering generation i packet → MeantFor s i packet
  channel : ∀ i slot packet, s.slots[i]? = some slot → packet ∈ slot.channel → MeantFor s i packet
  accepted : ∀ i slot query pc flight, s.slots[i]? = some slot → slot.call = .check query pc →
    pc.flight = some flight → Registration.Obeys (AcceptsMeant s i) flight.state

theorem AcceptsMeant.step {effect : Rounds.Effect} (h : AcceptsMeant s i effect)
    (hstep : Client.step client s event = some t) : AcceptsMeant t i effect := by
  cases effect with
  | accepted => exact MeantFor.step h hstep
  | _ => trivial

theorem obeys_of_step {state : Rounds.State} (h : Registration.Obeys (AcceptsMeant s i) state)
    (hstep : step client s event = some t) : Registration.Obeys (AcceptsMeant t i) state :=
  ⟨fun e he => (h.log e he).step hstep, fun _ _ _ _ _ _ _ _ => trivial⟩

theorem acceptsMeant_of_plain (effect : Rounds.Effect) (h : Registration.Plain effect) :
    AcceptsMeant s i effect := by
  cases effect with
  | accepted => exact h.elim
  | _ => trivial

/-- The router looks up the call that the datagram's id is registered for. -/
theorem meantFor_route {generation generation' : ℕ} {packet' : ResponsePacket} (hkeyed : Keyed s)
    (h : s.route generation packet = .delivering generation' i packet') :
    packet' = packet ∧ ∃ id, peekRequestId packet.data = .ok id ∧ s.requestIdAt i = some id := by
  unfold State.route at h
  split at h
  next id hpeek =>
    split at h
    next j hinflight =>
      cases h
      exact ⟨rfl, id, hpeek, requestIdAt_of_registered ((hkeyed id i).mp hinflight)⟩
    next => cases h
  next => cases h

/-- Between the router and the calls no datagram changes hands but by its id. -/
theorem delivered_step (h : Delivered s) (hkeyed : Keyed s)
    (hstep : step client s event = some t) : Delivered t := by
  refine ⟨fun generation i packet hrouter => ?_, fun i slot packet hslot hmem => ?_,
    fun i slot query pc flight hslot hcall hflight => ?_⟩
  · cases moves_of_step hstep with
    | tick | check | report | reporting | drop =>
      exact (h.router _ _ _ hrouter).step hstep
    | request =>
      rw [router_move] at hrouter
      exact (h.router _ _ _ hrouter).step hstep
    | datagram =>
      obtain ⟨rfl, id, hpeek, hid⟩ := meantFor_route hkeyed hrouter
      exact ⟨List.mem_cons_self, id, hpeek, requestIdAt_of_step hstep hid⟩
    | routerRead | routerAck | epochChanged | receiveError | deliver => cases hrouter
  · cases origin_of_step hstep hslot with
    | kept hold => exact (h.channel i slot packet hold hmem).step hstep
    | check | report => cases hmem
    | @request old query pc pc' wake reply hold =>
      refine (h.channel i old packet hold ?_).step hstep
      dsimp only at hmem
      split at hmem
      · exact List.mem_of_mem_tail hmem
      · exact hmem
    | reporting hold | drop hold => exact (h.channel i _ packet hold hmem).step hstep
    | @deliver old generation packet' hold hrouter =>
      rcases List.mem_append.mp hmem with hmem | hmem
      · exact (h.channel i old packet hold hmem).step hstep
      · rw [List.mem_singleton.mp hmem]
        exact (h.router generation i packet' hrouter).step hstep
  · cases origin_of_step hstep hslot with
    | kept hold => exact obeys_of_step (h.accepted i slot query pc flight hold hcall hflight) hstep
    | check =>
      cases hcall
      rw [Request.flight_begin] at hflight
      cases hflight
    | report => cases hcall
    | @request old query pc₀ pc' wake reply hold hdropped hcall₀ hevent hreply hrequest =>
      cases hcall
      rcases Request.flight_of_steps (Request.steps_of_step hrequest) hflight with
        hsame | ⟨state, now, r, rfl, rfl, hflying⟩ | ⟨_, _, _, _, _, _, _, _, _, hstart⟩
      · exact obeys_of_step (h.accepted i old query pc₀ flight hold hcall₀ hsame) hstep
      · have hobeys := obeys_of_step (h.accepted i old query _ ⟨flight.reg, state⟩ hold hcall₀ rfl) hstep
        refine Registration.obeys_step acceptsMeant_of_plain hobeys hflying (fun _ _ _ _ => trivial) ?_
        rintro packet result rfl -
        exact (h.channel i old packet hold (List.mem_of_head? (answers_of_requestReply hreply).1)).step hstep
      · rw [hstart]
        exact Registration.obeys_start acceptsMeant_of_plain
    | reporting => cases hcall
    | @drop old hold => exact obeys_of_step (h.accepted i old query pc flight hold hcall hflight) hstep
    | @deliver old _ _ hold =>
      exact obeys_of_step (h.accepted i old query pc flight hold hcall hflight) hstep

theorem delivered_reachable (h : (lts client).Reachable s) : Delivered s := by
  refine h.invariant ?_ ?_
  · rintro s ⟨bindUdp, now, hnew⟩
    obtain ⟨socket, -, -, -, rfl⟩ := new_eq_ok_iff.mp hnew
    exact ⟨nofun, by simp [start], by simp [start]⟩
  · intro s event t hreachable hs hstep
    exact delivered_step hs (keyed_reachable hreachable) hstep

end Client

end Ratelimitly
