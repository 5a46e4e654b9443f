import Mathlib.Tactic
import Ratelimitly.ClientGuards
import Ratelimitly.Effects

/-! The shared socket does not change under a running request, and the router listens on it. -/
namespace Ratelimitly

open Lib

theorem Request.flight_of_activity {client : CoreClient} {query : Query} {pc pc' : Pc}
    {seed : PacketSeed} {now : ℕ} (h : step client query pc (.activity seed now) = some pc') :
    pc.flight = none := by
  cases pc with
  | entering => rfl
  | _ => cases h

namespace Client

variable {client : CoreClient} {s t : State} {event : Event} {i j : ℕ} {slot : Slot} {query : Query}
  {pc pc' : Request.Pc} {wake : Wake} {reply : Request.Reply} {flight : Flight}

/-! ### What replaces the socket -/

/-- The step of a call that replaces the shared socket. -/
def Replaces : Request.Pc → Request.Reply → Prop
  | .steering _ _ (.socketWrite _ _), .steering (.socketWrite _ _ _) => True
  | _, _ => False

theorem Replaces.exists (h : Replaces pc reply) : ∃ flight result stats newSocket epoch localAddr
    ready, pc = .steering flight result (.socketWrite stats newSocket) ∧
      reply = .steering (.socketWrite epoch localAddr ready) := by
  unfold Replaces at h
  split at h
  · exact ⟨_, _, _, _, _, _, _, rfl, rfl⟩
  · exact h.elim

theorem Replaces.rebinding (h : Replaces pc reply) : pc.rebinding = true := by
  obtain ⟨_, _, _, _, _, _, _, rfl, -⟩ := h.exists
  rfl

/-- The shared socket is the same, with its epoch and its readiness. -/
structure SameSocket (s t : State) : Prop where
  socket : t.socket = s.socket
  epoch : t.epoch = s.epoch
  generation : t.generation = s.generation

theorem sameSocket_steer {pc : Steering.Pc} {reply : Steering.Reply}
    (h : ∀ stats newSocket epoch localAddr ready, pc = .socketWrite stats newSocket →
      reply ≠ .socketWrite epoch localAddr ready) :
    SameSocket s (s.steer pc reply) ∧
      (s.steer pc reply).epochReady.value = s.epochReady.value := by
  unfold State.steer
  dsimp only
  split
  next => exact ⟨⟨rfl, rfl, rfl⟩, rfl⟩
  next => exact ⟨⟨rfl, rfl, rfl⟩, rfl⟩
  next => exact absurd rfl (h _ _ _ _ _ rfl)
  next => exact ⟨⟨rfl, rfl, rfl⟩, rfl⟩
  next => exact ⟨⟨rfl, rfl, rfl⟩, rfl⟩

theorem sameSocket_move (h : ¬ Replaces pc reply) :
    SameSocket s (s.move client i slot query pc pc' wake reply) ∧
      (s.move client i slot query pc pc' wake reply).epochReady.value = s.epochReady.value := by
  unfold State.move
  dsimp only
  split
  next f r pc reply =>
    obtain ⟨hsame, hvalue⟩ : SameSocket s (s.steer pc reply) ∧ _ := by
      refine sameSocket_steer fun stats newSocket epoch localAddr ready hpc hreply => ?_
      subst hpc hreply
      exact h trivial
    exact ⟨⟨hsame.socket, hsame.epoch, hsame.generation⟩, hvalue⟩
  next => exact ⟨⟨rfl, rfl, rfl⟩, rfl⟩

theorem sameSocket_of_changes (hchanges : Changes client s event t) : SameSocket s t ∨
    ∃ j query pc pc' wake reply slot, event = .wake j wake ∧ s.pcAt j = some pc ∧
      Replaces pc reply ∧ Answers s slot.channel wake reply ∧
      Request.step client query pc reply = some pc' ∧
      (∀ k, t.pcAt k = if k = j then some pc' else s.pcAt k) ∧
      t = s.move client j slot query pc pc' wake reply := by
  cases hchanges with
  | idle hidle => exact .inl ⟨hidle.socket, hidle.epoch, hidle.generation⟩
  | @request j slot query pc pc' wake reply hevent _ _ hpc hanswers hstep hpcs ht =>
    by_cases hreplaces : Replaces pc reply
    · exact .inr ⟨j, query, pc, pc', wake, reply, slot, hevent, hpc, hreplaces, hanswers, hstep, hpcs,
        ht⟩
    · exact .inl (ht ▸ (sameSocket_move hreplaces).1)
  | drop _ _ _ _ ht => exact .inl (ht ▸ ⟨rfl, rfl, rfl⟩)

/-- While a request holds its read guard, no step changes the shared socket or its epoch. -/
theorem sameSocket_of_reader (h : Guarded s) (hstep : step client s event = some t)
    (hi : i ∈ s.guards.readers) : SameSocket s t := by
  rcases sameSocket_of_changes (changes_of_step hstep) with hsame | ⟨j, _, pc, _, _, _, _, _, hpc,
    hreplaces, _⟩
  · exact hsame
  · have hwriter := (h.writer j).mpr (by simpa [hpc] using hreplaces.rebinding)
    rcases h.exclusive with hnil | hnone
    · rw [hnil] at hi
      cases hi
    · rw [hnone] at hwriter
      cases hwriter

/-! ### The datagrams of one request leave through one socket -/

/-- The effects of a request whose sends are all from the socket of this generation. -/
def FromSocket (generation : ℕ) : Rounds.Effect → Prop
  | .attempt _ socket _ => socket = generation
  | _ => True

theorem fromSocket_of_plain (generation : ℕ) (effect : Rounds.Effect)
    (h : Registration.Plain effect) : FromSocket generation effect := by
  cases effect with
  | attempt => exact h.elim
  | _ => trivial

/-- Every call sends from one socket, which is the shared one as long as it holds its guard. -/
def OneSocket (s : State) : Prop := ∀ i pc flight, s.pcAt i = some pc → pc.flight = some flight →
  ∃ generation, Registration.Obeys (FromSocket generation) flight.state ∧
    (pc = .flying flight → generation = s.generation)

theorem oneSocket_step (h : OneSocket s) (hguarded : Guarded s)
    (hstep : step client s event = some t) : OneSocket t := by
  have hother {j : ℕ} {pc : Request.Pc} {flight : Flight} (hpc : s.pcAt j = some pc)
      (hflight : pc.flight = some flight) : ∃ generation,
        Registration.Obeys (FromSocket generation) flight.state ∧
          (pc = .flying flight → generation = t.generation) := by
    obtain ⟨generation, hobeys, hgeneration⟩ := h j pc flight hpc hflight
    refine ⟨generation, hobeys, fun hflying => ?_⟩
    have hreader := (hguarded.readers j).mpr (by simp [hpc, hflying, Request.Pc.active])
    rw [hgeneration hflying, (sameSocket_of_reader hguarded hstep hreader).generation]
  intro j pc flight hpc hflight
  cases changes_of_step hstep with
  | idle hidle =>
    rcases hidle.pcAt j with heq | ⟨-, hbegin⟩
    · exact hother (heq ▸ hpc) hflight
    · obtain ⟨query, rfl⟩ := hbegin pc hpc
      rw [Request.flight_begin] at hflight
      cases hflight
  | drop _ _ _ hpcs =>
    rw [hpcs] at hpc
    split at hpc
    · cases hpc
    · exact hother hpc hflight
  | @request i slot query old new wake reply _ _ _ hold hanswers hrequest hpcs ht =>
    rw [hpcs] at hpc
    split at hpc
    next heq =>
      cases hpc
      have hsteps := Request.steps_of_step hrequest
      rcases Request.flight_of_steps hsteps hflight with hflight' | ⟨state, now, r, rfl, rfl, hr⟩ |
        ⟨dedupTtlMs, resolved, seed, now, packet, rfl, rfl, -, -, hstart⟩
      · obtain ⟨generation, hobeys, hgeneration⟩ := hother hold hflight'
        refine ⟨generation, hobeys, fun hflying => ?_⟩
        subst hflying
        rcases Request.active_of_steps hsteps rfl with hactive | ⟨seed, now, rfl⟩
        · cases old with
          | flying old =>
            cases hflight'
            exact hgeneration rfl
          | _ => cases hactive
        · rw [Request.flight_of_activity hrequest] at hflight'
          cases hflight'
      · obtain ⟨generation, hobeys, hgeneration⟩ := h _ _ _ hold rfl
        have hreader := (hguarded.readers i).mpr (by simp [hold, Request.Pc.active])
        refine ⟨generation, ?_, fun _ => ?_⟩
        · refine Registration.obeys_step (fromSocket_of_plain generation) hobeys hr ?_
            fun _ _ _ _ => trivial
          rintro handle rfl d target
          exact hanswers.trans (hgeneration rfl).symm
        · rw [hgeneration rfl, (sameSocket_of_reader hguarded hstep hreader).generation]
      · refine ⟨t.generation, ?_, fun _ => rfl⟩
        rw [hstart]
        exact Registration.obeys_start (fromSocket_of_plain _)
    next => exact hother hpc hflight

theorem oneSocket_reachable (h : (lts client).Reachable s) : OneSocket s := by
  refine h.invariant ?_ ?_
  · rintro s ⟨bindUdp, now, hnew⟩ i pc flight hpc
    obtain ⟨socket, -, -, -, rfl⟩ := new_eq_ok_iff.mp hnew
    simp [start, State.pcAt] at hpc
  · intro s event t hreachable hs hstep
    exact oneSocket_step hs (guarded_reachable hreachable) hstep

/-! ### The router follows the socket -/

/-- No steering call is dropped while it waits for the router, and the socket that a rebind has
installed has an address. -/
def Undisturbed (s : State) : Event → Prop
  | .drop i => ∀ pc, s.pcAt i = some pc → ∀ stats epoch port,
      pc.steeringPc ≠ some (.epochChanged stats epoch port)
  | .wake _ (.socketWrite localAddr) => ∃ actual, localAddr = .ok actual
  | _ => True

/-- The socket the router has read or listens on, beside the last one it has acknowledged. -/
def RouterFollows (s : State) : RouterPc → Prop
  | .reading => True
  | .acking generation epoch => epoch = UInt64.ofNat generation ∧ s.acked ≤ generation ∧
      generation ≤ s.generation
  | .receiving generation | .delivering generation _ _ => generation = s.acked

/-- Call `i` waits for the router's answer to the current epoch. -/
def Awaits (s : State) (i : ℕ) : Prop :=
  ∃ pc stats port, s.pcAt i = some pc ∧ pc.steeringPc = some (.epochChanged stats s.epoch port)

/-- The router has acknowledged the current socket, or it is one behind and a call waits for it. -/
structure Followed (s : State) : Prop where
  epoch : s.epoch = UInt64.ofNat s.generation
  ready : s.epochReady.value = UInt64.ofNat s.acked
  router : RouterFollows s s.router
  current : s.acked = s.generation ∨ s.generation = s.acked + 1 ∧ ∃ i, Awaits s i

theorem Awaits.writer (hguarded : Guarded s) (h : Awaits s i) : s.guards.writer = some i := by
  obtain ⟨pc, stats, port, hpc, hsteering⟩ := h
  rw [hguarded.writer, hpc]
  simp [Request.Pc.rebinding, hsteering, Steering.Pc.rebinding]

theorem Followed.acked_le (h : Followed s) : s.acked ≤ s.generation := by
  rcases h.current with heq | ⟨heq, -⟩ <;> omega

theorem Followed.acked_of_writer_none (h : Followed s) (hguarded : Guarded s)
    (hwriter : s.guards.writer = none) : s.acked = s.generation := by
  rcases h.current with heq | ⟨-, i, hawaits⟩
  · exact heq
  · rw [hawaits.writer hguarded] at hwriter
    cases hwriter

theorem add_one_ne (epoch : UInt64) : epoch ≠ epoch + 1 := by
  simp

/-- Steps that leave the socket and its acknowledgement as they are, and every waiting call where it
is. -/
theorem Followed.keep (h : Followed s) (hsame : SameSocket s t)
    (hready : t.epochReady.value = s.epochReady.value) (hacked : t.acked = s.acked)
    (hrouter : RouterFollows s t.router)
    (hawaits : s.generation = s.acked + 1 → ∀ i, Awaits s i → Awaits t i) : Followed t := by
  refine ⟨?_, ?_, ?_, ?_⟩
  · rw [hsame.epoch, hsame.generation, h.epoch]
  · rw [hready, hacked, h.ready]
  · cases hpc : t.router with
    | reading => trivial
    | acking | receiving | delivering =>
      simpa [RouterFollows, hpc, hsame.generation, hacked] using hrouter
  · rw [hsame.generation, hacked]
    rcases h.current with heq | ⟨heq, i, hi⟩
    · exact .inl heq
    · exact .inr ⟨heq, i, hawaits heq i hi⟩

theorem Idle.awaits (h : Idle client s t) (hi : Awaits s i) : Awaits t i := by
  obtain ⟨pc, stats, port, hpc, hsteering⟩ := hi
  refine ⟨pc, stats, port, ?_, by rw [h.epoch, hsteering]⟩
  rcases h.pcAt i with heq | ⟨hnone, -⟩
  · rw [heq, hpc]
  · rw [hpc] at hnone
    cases hnone

/-- A rebind that has installed its socket waits, as the router is still at the old one. -/
theorem followed_replaced (h : Followed s) (hguarded : Guarded s) (hreplaces : Replaces pc reply)
    (hpc : s.pcAt i = some pc) (hanswers : Answers s slot.channel wake reply)
    (hundisturbed : Undisturbed s (.wake i wake))
    (hstep : Request.step client query pc reply = some pc')
    (hpcs : ∀ k, t.pcAt k = if k = i then some pc' else s.pcAt k)
    (ht : t = s.move client i slot query pc pc' wake reply) : Followed t := by
  have hacked : s.acked = s.generation := by
    rcases h.current with heq | ⟨-, j, hawaits⟩
    · exact heq
    · have hi := (hguarded.writer i).mpr (by simpa [hpc] using hreplaces.rebinding)
      obtain rfl := Option.some.inj (hi.symm.trans (hawaits.writer hguarded))
      obtain ⟨pc₀, stats, port, hpc', hsteering⟩ := hawaits
      obtain ⟨_, _, _, _, _, _, _, rfl, -⟩ := hreplaces.exists
      rw [hpc] at hpc'
      cases hpc'
      cases hsteering
  obtain ⟨f, r, stats, newSocket, epoch, localAddr, ready, rfl, rfl⟩ := hreplaces.exists
  obtain ⟨rfl, rfl, rfl⟩ := hanswers
  obtain ⟨actual, rfl⟩ := hundisturbed
  have hvalue : s.epochReady.value = s.epoch := by rw [h.ready, h.epoch, hacked]
  have hawait : Steering.awaitEpoch stats (s.epoch + 1) actual.port s.epochReady.value =
      .epochChanged stats (s.epoch + 1) actual.port := by
    rw [Steering.awaitEpoch, hvalue, if_pos (add_one_ne _)]
  obtain rfl : pc' = .steering f r (.epochChanged stats (s.epoch + 1) actual.port) := by
    simpa [Request.step, Steering.step, hawait, Request.steer, eq_comm] using hstep
  have hepoch : t.epoch = s.epoch + 1 := by rw [ht]; rfl
  have hgeneration : t.generation = s.generation + 1 := by rw [ht]; rfl
  have hacked' : t.acked = s.acked := by rw [ht]; rfl
  have hrouter : t.router = s.router := by rw [ht]; rfl
  refine ⟨?_, ?_, ?_, .inr ⟨by omega, i, ?_⟩⟩
  · rw [hepoch, hgeneration, h.epoch]
    simp
  · rw [hacked', ← h.ready, ht]
    rfl
  · have hfollows := h.router
    rw [hrouter]
    cases hs : s.router with
    | reading => trivial
    | acking generation epoch =>
      rw [hs] at hfollows
      exact ⟨hfollows.1, by rw [hacked']; exact hfollows.2.1, by rw [hgeneration]; exact hfollows.2.2.trans (Nat.le_succ _)⟩
    | receiving | delivering =>
      rw [hs] at hfollows
      exact hfollows.trans hacked'.symm
  · exact ⟨_, stats, actual.port, (hpcs i).trans (if_pos rfl), by rw [hepoch]; rfl⟩

theorem followed_request (h : Followed s) (hreplaces : ¬ Replaces pc reply)
    (hpc : s.pcAt i = some pc) (hanswers : Answers s slot.channel wake reply)
    (hstep : Request.step client query pc reply = some pc')
    (hpcs : ∀ k, t.pcAt k = if k = i then some pc' else s.pcAt k)
    (ht : t = s.move client i slot query pc pc' wake reply) : Followed t := by
  obtain ⟨hsame, hready⟩ : SameSocket s t ∧ t.epochReady.value = s.epochReady.value := by
    rw [ht]
    exact sameSocket_move hreplaces
  have hacked : t.acked = s.acked := ht ▸ acked_move
  have hrouter : t.router = s.router := ht ▸ router_move
  refine h.keep hsame hready hacked (hrouter ▸ h.router) ?_
  rintro hbehind j ⟨pc₀, stats, port, hpc₀, hsteering⟩
  by_cases hj : j = i
  · subst hj
    rw [hpc] at hpc₀
    cases hpc₀
    -- the answer is still the old epoch, so the call goes on waiting
    have hvalue : s.epochReady.value ≠ s.epoch := by
      rw [h.ready, h.epoch, hbehind]
      simp
    cases pc with
    | steering f r steeringPc =>
      obtain rfl := Option.some.inj hsteering
      cases reply with
      | steering steeringReply =>
        cases steeringReply with
        | epochChanged ready =>
          obtain ⟨rfl, -⟩ := hanswers
          obtain rfl : pc' = .steering f r (.epochChanged stats s.epoch port) := by
            simpa [Request.step, Steering.step, Steering.awaitEpoch, hvalue, Request.steer,
              eq_comm] using hstep
          exact ⟨_, stats, port, (hpcs j).trans (if_pos rfl), by rw [hsame.epoch]; rfl⟩
        | _ => cases hstep
      | _ => cases hstep
    | _ => cases hsteering
  · refine ⟨pc₀, stats, port, ?_, by rw [hsame.epoch, hsteering]⟩
    rw [hpcs, if_neg hj, hpc₀]

theorem routerFollows_route (h : RouterFollows s s.router) {generation : ℕ}
    (hrouter : s.router = .receiving generation) (packet : ResponsePacket) :
    RouterFollows s (s.route generation packet) := by
  rw [hrouter] at h
  unfold State.route
  split
  · split
    · exact h
    · trivial
  · trivial

theorem followed_step (h : Followed s) (hguarded : Guarded s) (hundisturbed : Undisturbed s event)
    (hstep : step client s event = some t) : Followed t := by
  have hidle {t : State} (hidle : Idle client s t) (hready : t.epochReady.value = s.epochReady.value)
      (hacked : t.acked = s.acked) (hrouter : RouterFollows s t.router) : Followed t :=
    h.keep ⟨hidle.socket, hidle.epoch, hidle.generation⟩ hready hacked hrouter
      fun _ _ hawaits => hidle.awaits hawaits
  have hstill {t : State} (hslots : t.slots = s.slots) (hguards : t.guards = s.guards)
      (hinflight : t.inflight = s.inflight) (hpending : t.steeringPending = s.steeringPending)
      (hsame : SameSocket s t) : Idle client s t :=
    idle_of_slots hslots hguards hinflight hpending hsame.socket hsame.epoch hsame.generation
  cases moves_of_step hstep with
  | tick => exact hidle (hstill rfl rfl rfl rfl ⟨rfl, rfl, rfl⟩) rfl rfl h.router
  | check => exact hidle (idle_check _) rfl rfl h.router
  | report => exact hidle (idle_report _) rfl rfl h.router
  | reporting hslot _ hcall => exact hidle (idle_reporting hslot hcall) rfl rfl h.router
  | routerRead =>
    exact hidle (hstill rfl rfl rfl rfl ⟨rfl, rfl, rfl⟩) rfl rfl ⟨h.epoch, h.acked_le, le_rfl⟩
  | @routerAck generation epoch hrouter =>
    have hfollows := h.router
    rw [hrouter] at hfollows
    obtain ⟨hepoch, hle, hge⟩ := hfollows
    refine ⟨h.epoch, hepoch, rfl, ?_⟩
    rcases h.current with heq | ⟨heq, i, hi⟩
    · exact .inl (le_antisymm hge (heq ▸ hle))
    · rcases hge.lt_or_eq with hlt | heq'
      · exact .inr ⟨show s.generation = generation + 1 by omega, i, hi⟩
      · exact .inl heq'
  | epochChanged | receiveError =>
    exact hidle (hstill rfl rfl rfl rfl ⟨rfl, rfl, rfl⟩) rfl rfl trivial
  | datagram hrouter =>
    exact hidle (hstill rfl rfl rfl rfl ⟨rfl, rfl, rfl⟩) rfl rfl
      (routerFollows_route h.router hrouter _)
  | deliver => exact hidle (idle_deliver _) rfl rfl trivial
  | @request i slot query pc wake reply pc' hslot hdropped hcall hreply hrequest =>
    have hpc := pcAt_of_slot hslot hdropped hcall
    have hanswers := answers_of_requestReply hreply
    by_cases hreplaces : Replaces pc reply
    · exact followed_replaced h hguarded hreplaces hpc hanswers hundisturbed hrequest
        (pcAt_move hslot hdropped) rfl
    · exact followed_request h hreplaces hpc hanswers hrequest
        (pcAt_move hslot hdropped) rfl
  | @drop i slot hslot =>
    refine h.keep ⟨rfl, rfl, rfl⟩ rfl rfl h.router ?_
    rintro - j ⟨pc, stats, port, hpc, hsteering⟩
    refine ⟨pc, stats, port, ?_, hsteering⟩
    rw [pcAt_dropCall hslot, if_neg ?_, hpc]
    rintro rfl
    exact hundisturbed pc hpc _ _ _ hsteering

/-- In a run that nothing disturbs the router follows the shared socket. -/
theorem followed_reachable (h : ((lts client).restrict Undisturbed).Reachable s) : Followed s := by
  refine h.invariant ?_ ?_
  · rintro s ⟨bindUdp, now, hnew⟩
    obtain ⟨socket, -, -, -, rfl⟩ := new_eq_ok_iff.mp hnew
    exact ⟨rfl, rfl, trivial, .inl rfl⟩
  · intro s event t hreachable hs hstep
    exact followed_step hs (guarded_reachable hreachable.of_restrict) hstep.1 hstep.2

/-- A request holds its read guard throughout its round loop and its completion delivery, and as
long as it does, no step replaces the shared socket: all it sends leaves through that one. Unless a
rebind is dropped or fails between the swap and the router's answer, the router then listens on the
socket that the request sends from. -/
theorem socket_fixed_under_request (client : CoreClient) :
    (∀ s event t i, (lts client).Reachable s → step client s event = some t →
      i ∈ s.guards.readers → t.socket = s.socket ∧ t.epoch = s.epoch) ∧
    (∀ s i, (lts client).Reachable s →
      (i ∈ s.guards.readers ↔ ∃ flight, s.pcAt i = some (.flying flight))) ∧
    (∀ s i pc flight, (lts client).Reachable s → s.pcAt i = some pc → pc.flight = some flight →
      ∃ generation, (pc = .flying flight → generation = s.generation) ∧
        ∀ e ∈ flight.state.log, ∀ d socket target, e.effect = .attempt d socket target →
          socket = generation) ∧
    ∀ s i, ((lts client).restrict Undisturbed).Reachable s → i ∈ s.guards.readers →
      s.epochReady.value = s.epoch ∧ s.acked = s.generation ∧
        ∀ generation, s.router = .receiving generation → generation = s.generation := by
  refine ⟨fun s event t i h hstep hi => ?_, fun s i h => ?_, fun s i pc flight h hpc hflight => ?_,
    fun s i h hi => ?_⟩
  · have hsame := sameSocket_of_reader (guarded_reachable h) hstep hi
    exact ⟨hsame.socket, hsame.epoch⟩
  · rw [(guarded_reachable h).readers]
    constructor
    · intro hany
      obtain ⟨pc, hpc, hactive⟩ := (Option.any_eq_true _ _).mp hany
      cases pc with
      | flying flight => exact ⟨flight, hpc⟩
      | _ => cases hactive
    · rintro ⟨flight, hpc⟩
      simp [hpc, Request.Pc.active]
  · obtain ⟨generation, hobeys, hgeneration⟩ := oneSocket_reachable h i pc flight hpc hflight
    refine ⟨generation, hgeneration, fun e he d socket target heff => ?_⟩
    have hfrom := hobeys.log e he
    rwa [heff] at hfrom
  · have hguarded := guarded_reachable h.of_restrict
    have hwriter : s.guards.writer = none := by
      rcases hguarded.exclusive with hnil | hnone
      · rw [hnil] at hi
        cases hi
      · exact hnone
    have hfollowed := followed_reachable h
    have hacked := hfollowed.acked_of_writer_none hguarded hwriter
    refine ⟨by rw [hfollowed.ready, hfollowed.epoch, hacked], hacked, fun generation hrouter => ?_⟩
    have hfollows := hfollowed.router
    rw [hrouter] at hfollows
    exact hfollows.trans hacked

/-- A second request after a rebind that the router has followed. -/
def sampleResumed : List Event :=
  sampleBegin 0 0 ++ sampleSelect 0 0 ++ sampleRebind 0 (fun _ _ => .ok 7) (.ok (sampleAddr 6)) ++
    [.routerRead, .routerAck, .wake 0 .epochChanged] ++ sampleBegin 1 1

theorem undisturbed_sampleResumed : ∀ event ∈ sampleResumed, ∀ s, Undisturbed s event := by
  simp [sampleResumed, sampleBegin, sampleSelect, sampleRebind, Undisturbed]

theorem socket_fixed_under_request_sample : ∃ s,
    ((lts sampleClient).restrict Undisturbed).Reachable s ∧ s.generation = 1 ∧
      1 ∈ s.guards.readers ∧ s.epochReady.value = s.epoch ∧ s.acked = s.generation := by
  obtain ⟨s, hs, htest⟩ := (Option.any_eq_true _ _).mp
    (show (sampleRun sampleResumed).any (fun s => s.generation = 1 ∧ 1 ∈ s.guards.readers) = true
      by decide +kernel)
  obtain ⟨hgeneration, hreader⟩ := of_decide_eq_true htest
  have hreachable : ((lts sampleClient).restrict Undisturbed).Reachable s :=
    (run_restrict_sampleRun undisturbed_sampleResumed hs).reachable (.init init_sampleState)
  obtain ⟨hready, hacked, -⟩ :=
    (socket_fixed_under_request sampleClient).2.2.2 s 1 hreachable hreader
  exact ⟨s, hreachable, hgeneration, hreader, hready, hacked⟩

/-- A request whose rebind fails at the new socket's `local_addr`, and a second one that then sends
from a socket that the router has not acknowledged. Nothing is dropped. -/
def sampleStranded : List Event :=
  sampleBegin 0 0 ++ sampleSelect 0 0 ++
    sampleRebind 0 (fun _ _ => .ok 7) (.error ⟨.other, "getsockname"⟩) ++ sampleBegin 1 1

theorem router_left_behind : ∃ s, sampleRun sampleStranded = some s ∧
    (lts sampleClient).Reachable s ∧ (∀ i, Event.drop i ∉ sampleStranded) ∧
      1 ∈ s.guards.readers ∧ s.epochReady.value ≠ s.epoch := by
  obtain ⟨s, hs, htest⟩ := (Option.any_eq_true _ _).mp
    (show (sampleRun sampleStranded).any (fun s =>
      1 ∈ s.guards.readers ∧ s.epochReady.value ≠ s.epoch) = true by decide +kernel)
  refine ⟨s, hs, reachable_sampleRun hs, fun i => ?_, of_decide_eq_true htest⟩
  simp [sampleStranded, sampleBegin, sampleSelect, sampleRebind]

end Client

end Ratelimitly
