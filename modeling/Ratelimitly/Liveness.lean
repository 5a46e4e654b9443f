import Mathlib.Tactic
import Ratelimitly.Inflight
import Ratelimitly.Termination

/-! No lock, guard or acknowledgement keeps a client's calls from returning. -/
namespace Ratelimitly

open Lib Rounds

/-- The ways into the wait for the router. -/
theorem Steering.eq_epochChanged_of_step {pc : Steering.Pc} {reply : Steering.Reply}
    {stats : SteeringStats} {nextEpoch : UInt64} {actualPort : UInt16}
    (h : step pc reply = some (.epochChanged stats nextEpoch actualPort)) :
    (∃ newSocket epoch localAddr ready, pc = .socketWrite stats newSocket ∧
      reply = .socketWrite epoch localAddr ready ∧ nextEpoch = epoch + 1) ∨
    ∃ ready, ready ≠ nextEpoch ∧ pc = .epochChanged stats nextEpoch actualPort ∧
      reply = .epochChanged (some ready) := by
  have hawait {stats' : SteeringStats} {epoch ready : UInt64} {port : UInt16}
      (h : awaitEpoch stats' epoch port ready = .epochChanged stats nextEpoch actualPort) :
      ready ≠ nextEpoch ∧ stats' = stats ∧ epoch = nextEpoch ∧ port = actualPort := by
    unfold awaitEpoch at h
    split at h
    next hne =>
      cases h
      exact ⟨hne, rfl, rfl, rfl⟩
    next => cases h
  unfold step at h
  split at h
  case h_2 | h_3 => split at h <;> cases h
  case h_5 =>
    split at h
    · cases h
    · split at h <;> cases h
  case h_7 =>
    split at h
    · cases h
    · obtain ⟨-, rfl, rfl, -⟩ := hawait (Option.some.inj h)
      exact .inl ⟨_, _, _, _, rfl, rfl, rfl⟩
  case h_8 =>
    split at h
    · cases h
    · obtain ⟨hne, rfl, rfl, rfl⟩ := hawait (Option.some.inj h)
      exact .inr ⟨_, hne, rfl, rfl⟩
  all_goals cases h

namespace Request

variable {client : CoreClient} {query : Query} {pc pc' : Pc} {reply : Reply}

theorem steeringPc_steer {flight : Flight} {result : RateLimitResult} {pc steering : Steering.Pc}
    (h : (steer flight result pc).steeringPc = some steering) : pc = steering := by
  unfold steer at h
  split at h
  · cases h
  · cases h
  · exact Option.some.inj h

theorem steeringPc_begin : (begin client query).steeringPc = none := by
  unfold begin
  dsimp only
  split
  · rfl
  · rfl
  · split
    · rfl
    · split <;> rfl

/-- A call comes to wait for the router only by a step of `apply_steering_feedback`. -/
theorem steering_of_epochChanged {stats : SteeringStats} {epoch : UInt64} {port : UInt16}
    (h : step client query pc reply = some pc')
    (hpc' : pc'.steeringPc = some (.epochChanged stats epoch port)) :
    ∃ flight result steering reply', pc = .steering flight result steering ∧
      reply = .steering reply' ∧
        Steering.step steering reply' = some (.epochChanged stats epoch port) := by
  cases steps_of_step h with
  | lastRefresh => split at hpc' <;> cases hpc'
  | refreshed | unrefreshed => cases hpc'
  | servers =>
    unfold enter at hpc'
    split at hpc'
    · cases hpc'
    · cases hpc'
    · split at hpc' <;> cases hpc'
  | activity =>
    unfold register at hpc'
    split at hpc' <;> cases hpc'
  | flight =>
    unfold leaveFlight at hpc'
    split at hpc'
    next result _ =>
      have hstart := steeringPc_steer hpc'
      unfold Steering.start at hstart
      split at hstart <;> cases hstart
    · cases hpc'
    · cases hpc'
  | @steering flight result steering reply steering' hstep =>
    obtain rfl := steeringPc_steer hpc'
    exact ⟨flight, result, steering, reply, rfl, rfl, hstep⟩

/-- The round loop of a registered request has not ended, nor has a steering call. -/
def Pc.Running : Pc → Prop
  | .flying flight => (∀ result, flight.state.pc ≠ .settled result) ∧
      ∀ outcome, flight.state.pc ≠ .returned outcome
  | .steering _ _ pc => ∀ result stats, pc ≠ .done result stats
  | _ => True

theorem running_steer (flight : Flight) (result : RateLimitResult) (pc : Steering.Pc) :
    (steer flight result pc).Running := by
  unfold steer
  split
  · trivial
  · trivial
  next hok herror =>
    intro result stats hdone
    cases result with
    | ok => exact hok _ hdone
    | error error => exact herror _ _ hdone

theorem running_leaveFlight (flight : Flight) : (leaveFlight client flight).Running := by
  unfold leaveFlight
  split
  · exact running_steer _ _ _
  · trivial
  next hsettled hreturned => exact ⟨hsettled, hreturned⟩

theorem running_reachable (h : (lts client query).Reachable pc) : pc.Running := by
  refine h.invariant ?_ ?_
  · rintro _ rfl
    unfold begin
    dsimp only
    split
    · trivial
    · trivial
    · split
      · trivial
      · split <;> trivial
  · intro pc reply pc' _ _ hstep
    cases steps_of_step hstep with
    | lastRefresh => split <;> trivial
    | refreshed | unrefreshed => trivial
    | servers =>
      unfold enter
      split
      · trivial
      · trivial
      · split <;> trivial
    | activity =>
      unfold register
      split
      · trivial
      · trivial
      · exact ⟨by simp [Registration.start], by simp [Registration.start]⟩
    | flight => exact running_leaveFlight _
    | steering => exact running_steer _ _ _

end Request

namespace Client

variable {client : CoreClient} {s t : State} {event : Event} {i j : ℕ} {slot : Slot} {query : Query}
  {pc pc' : Request.Pc} {wake : Wake} {reply : Request.Reply} {epoch : UInt64}

/-! ### The router and a call that waits for it -/

/-- What the router goes by was shared once. -/
def RouterBehind (s : State) : RouterPc → Prop
  | .reading => True
  | .acking generation epoch =>
    generation ≤ s.generation ∧ (generation = s.generation → epoch = s.epoch)
  | .receiving generation | .delivering generation _ _ => generation ≤ s.generation

/-- Call `i` waits until the router acknowledges `epoch`. -/
def AwaitsEpoch (s : State) (i : ℕ) (epoch : UInt64) : Prop :=
  ∃ pc stats port, s.pcAt i = some pc ∧ pc.steeringPc = some (.epochChanged stats epoch port)

/-- A call waits for the current epoch, and it has not seen the acknowledgement of a router that
listens on the current socket. -/
structure Handshake (s : State) : Prop where
  router : RouterBehind s s.router
  waiting : ∀ i epoch, AwaitsEpoch s i epoch → epoch = s.epoch ∧
    (s.router = .receiving s.generation → s.epochReady = ⟨epoch, false⟩)

theorem AwaitsEpoch.writer (hguarded : Guarded s) (h : AwaitsEpoch s i epoch) :
    s.guards.writer = some i := by
  obtain ⟨pc, stats, port, hpc, hsteering⟩ := h
  rw [hguarded.writer, hpc]
  simp [Request.Pc.rebinding, hsteering, Steering.Pc.rebinding]

theorem Idle.of_awaitsEpoch (h : Idle client s t) (hi : AwaitsEpoch t i epoch) :
    AwaitsEpoch s i epoch := by
  obtain ⟨pc, stats, port, hpc, hsteering⟩ := hi
  rcases h.pcAt i with heq | ⟨-, hbegin⟩
  · exact ⟨pc, stats, port, heq ▸ hpc, hsteering⟩
  · obtain ⟨query, rfl⟩ := hbegin pc hpc
    rw [Request.steeringPc_begin] at hsteering
    cases hsteering

theorem RouterBehind.of_sameSocket {router : RouterPc} (h : RouterBehind s router)
    (hsame : SameSocket s t) : RouterBehind t router := by
  cases router with
  | reading => trivial
  | acking | receiving | delivering => simpa [RouterBehind, hsame.generation, hsame.epoch] using h

/-- Steps that leave the socket as it is and let no call begin to wait. -/
theorem Handshake.keep (h : Handshake s) (hsame : SameSocket s t)
    (hrouter : RouterBehind s t.router)
    (hwaits : ∀ i epoch, AwaitsEpoch t i epoch → AwaitsEpoch s i epoch)
    (hready : t.router = .receiving s.generation →
      t.epochReady = ⟨s.epoch, false⟩ ∨ s.router = t.router ∧ t.epochReady = s.epochReady) :
    Handshake t := by
  refine ⟨hrouter.of_sameSocket hsame, fun i epoch hi => ?_⟩
  obtain ⟨rfl, hs⟩ := h.waiting i epoch (hwaits i epoch hi)
  rw [hsame.epoch, hsame.generation]
  refine ⟨rfl, fun hreceiving => ?_⟩
  rcases hready hreceiving with hready | ⟨heq, hready⟩
  · exact hready
  · rw [hready, hs (heq.trans hreceiving)]

theorem routerBehind_route (h : RouterBehind s s.router) {generation : ℕ}
    (hrouter : s.router = .receiving generation) (packet : ResponsePacket) :
    RouterBehind s (s.route generation packet) ∧
      s.route generation packet ≠ .receiving s.generation := by
  rw [hrouter] at h
  unfold State.route
  split
  · split
    · exact ⟨h, by simp⟩
    · exact ⟨trivial, by simp⟩
  · exact ⟨trivial, by simp⟩

/-- The router is behind a socket that has just been replaced. -/
theorem handshake_replaced (h : Handshake s) (hguarded : Guarded s) (hreplaces : Replaces pc reply)
    (hpc : s.pcAt i = some pc) (hanswers : Answers s slot.channel wake reply)
    (hstep : Request.step client query pc reply = some pc')
    (hpcs : ∀ k, t.pcAt k = if k = i then some pc' else s.pcAt k)
    (ht : t = s.move client i slot query pc pc' wake reply) : Handshake t := by
  have hwriter := (hguarded.writer i).mpr (by simpa [hpc] using hreplaces.rebinding)
  obtain ⟨f, r, stats, newSocket, epoch, localAddr, ready, rfl, rfl⟩ := hreplaces.exists
  obtain ⟨rfl, -, -⟩ := hanswers
  have hepoch : t.epoch = s.epoch + 1 := by rw [ht]; rfl
  have hgeneration : t.generation = s.generation + 1 := by rw [ht]; rfl
  have hrouter : t.router = s.router := ht ▸ router_move
  have hbehind := h.router
  rw [← hrouter] at hbehind
  refine ⟨?_, fun j epoch' hj => ?_⟩
  · cases hs : t.router with
    | reading => trivial
    | acking generation epoch =>
      rw [hs] at hbehind
      exact ⟨by rw [hgeneration]; exact hbehind.1.trans (Nat.le_succ _),
        fun heq => absurd hbehind.1 (by omega)⟩
    | receiving | delivering =>
      rw [hs] at hbehind
      exact hbehind.trans (by rw [hgeneration]; exact Nat.le_succ _)
  · obtain ⟨pc₀, stats', port, hpc₀, hsteering⟩ := hj
    by_cases hji : j = i
    · subst hji
      rw [hpcs, if_pos rfl, Option.some_inj] at hpc₀
      subst hpc₀
      obtain ⟨_, _, _, _, hpc', hreply', hsteer⟩ := Request.steering_of_epochChanged hstep hsteering
      cases hpc'
      cases hreply'
      rcases Steering.eq_epochChanged_of_step hsteer with
        ⟨_, _, _, _, -, hwrite, rfl⟩ | ⟨_, -, hwait, -⟩
      · cases hwrite
        refine ⟨hepoch.symm, fun hreceiving => ?_⟩
        rw [hreceiving, RouterBehind] at hbehind
        omega
      · cases hwait
    · have hwaits : AwaitsEpoch s j epoch' :=
        ⟨pc₀, stats', port, by rwa [hpcs, if_neg hji] at hpc₀, hsteering⟩
      exact absurd (Option.some.inj ((hwaits.writer hguarded).symm.trans hwriter)) hji

theorem epochReady_move (h : ∀ ready, reply ≠ .steering (.epochChanged ready))
    (hreplaces : ¬ Replaces pc reply) :
    (s.move client i slot query pc pc' wake reply).epochReady = s.epochReady := by
  unfold State.move State.steer
  dsimp only
  split
  · split
    · rfl
    · rfl
    · exact absurd trivial hreplaces
    · exact absurd rfl (h _)
    · rfl
  · rfl

/-- A call goes on waiting only if the acknowledgement it saw was of an older socket. -/
theorem handshake_request (h : Handshake s) (hguarded : Guarded s) (hreplaces : ¬ Replaces pc reply)
    (hpc : s.pcAt i = some pc) (hanswers : Answers s slot.channel wake reply)
    (hstep : Request.step client query pc reply = some pc')
    (hpcs : ∀ k, t.pcAt k = if k = i then some pc' else s.pcAt k)
    (ht : t = s.move client i slot query pc pc' wake reply) : Handshake t := by
  obtain ⟨hsame, -⟩ : SameSocket s t ∧ t.epochReady.value = s.epochReady.value := by
    rw [ht]
    exact sameSocket_move hreplaces
  have hrouter : t.router = s.router := ht ▸ router_move
  have hbehind : RouterBehind s t.router := hrouter ▸ h.router
  have hkept (j : ℕ) (epoch : UInt64) (hj : AwaitsEpoch t j epoch) :
      AwaitsEpoch s j epoch ∧ (j = i → ∃ stats port ready, ready ≠ epoch ∧
        pc.steeringPc = some (.epochChanged stats epoch port) ∧
          reply = .steering (.epochChanged (some ready))) := by
    obtain ⟨pc₀, stats, port, hpc₀, hsteering⟩ := hj
    by_cases hji : j = i
    · subst hji
      rw [hpcs, if_pos rfl, Option.some_inj] at hpc₀
      subst hpc₀
      obtain ⟨f, r, steering, reply', rfl, rfl, hsteer⟩ :=
        Request.steering_of_epochChanged hstep hsteering
      rcases Steering.eq_epochChanged_of_step hsteer with
        ⟨_, _, _, _, rfl, rfl, -⟩ | ⟨ready, hne, rfl, rfl⟩
      · exact absurd trivial hreplaces
      · exact ⟨⟨_, stats, port, hpc, rfl⟩, fun _ => ⟨stats, port, ready, hne, rfl, rfl⟩⟩
    · exact ⟨⟨pc₀, stats, port, by rwa [hpcs, if_neg hji] at hpc₀, hsteering⟩,
        fun heq => absurd heq hji⟩
  by_cases hreply : ∃ ready, reply = .steering (.epochChanged ready)
  · -- the call that looks is the only one that waits
    obtain ⟨ready, rfl⟩ := hreply
    have hlooks : ∃ epoch, AwaitsEpoch s i epoch := by
      cases pc with
      | steering f r steering =>
        cases steering with
        | epochChanged stats epoch port => exact ⟨epoch, _, stats, port, hpc, rfl⟩
        | _ => cases hstep
      | _ => cases hstep
    obtain ⟨_, hlooks⟩ := hlooks
    refine ⟨hbehind.of_sameSocket hsame, fun j epoch hj => ?_⟩
    obtain ⟨hs, hi⟩ := hkept j epoch hj
    obtain ⟨rfl, hready⟩ := h.waiting j epoch hs
    refine ⟨hsame.epoch.symm, fun hreceiving => ?_⟩
    rw [hrouter, hsame.generation] at hreceiving
    obtain ⟨_, _, value, hne, -, heq⟩ :=
      hi (Option.some.inj ((hs.writer hguarded).symm.trans (hlooks.writer hguarded)))
    cases heq
    have hvalue : value = s.epochReady.value := Option.some.inj hanswers.1
    rw [hvalue, hready hreceiving] at hne
    exact absurd rfl hne
  · refine h.keep hsame hbehind (fun j epoch hj => (hkept j epoch hj).1)
      fun _ => .inr ⟨hrouter.symm, ?_⟩
    rw [ht]
    exact epochReady_move (fun ready heq => hreply ⟨ready, heq⟩) hreplaces

theorem handshake_step (h : Handshake s) (hguarded : Guarded s)
    (hstep : step client s event = some t) : Handshake t := by
  have hidle {t : State} (hidle : Idle client s t) (hrouter : RouterBehind s t.router)
      (hready : t.router = .receiving s.generation →
        t.epochReady = ⟨s.epoch, false⟩ ∨ s.router = t.router ∧ t.epochReady = s.epochReady) :
      Handshake t :=
    h.keep ⟨hidle.socket, hidle.epoch, hidle.generation⟩ hrouter
      (fun _ _ hawaits => hidle.of_awaitsEpoch hawaits) hready
  cases moves_of_step hstep with
  | tick =>
    exact hidle (idle_of_slots rfl rfl rfl rfl rfl rfl rfl) h.router
      fun _ => .inr ⟨rfl, rfl⟩
  | check => exact hidle (idle_check _) h.router fun _ => .inr ⟨rfl, rfl⟩
  | report => exact hidle (idle_report _) h.router fun _ => .inr ⟨rfl, rfl⟩
  | reporting hslot _ hcall =>
    exact hidle (idle_reporting hslot hcall) h.router fun _ => .inr ⟨rfl, rfl⟩
  | routerRead =>
    exact hidle (idle_of_slots rfl rfl rfl rfl rfl rfl rfl) ⟨le_rfl, fun _ => rfl⟩ (by simp)
  | @routerAck generation epoch hrouter =>
    have hbehind := h.router
    rw [hrouter] at hbehind
    refine hidle (idle_of_slots rfl rfl rfl rfl rfl rfl rfl) hbehind.1 fun hreceiving => .inl ?_
    cases hreceiving
    rw [hbehind.2 rfl]
  | epochChanged | receiveError =>
    exact hidle (idle_of_slots rfl rfl rfl rfl rfl rfl rfl) trivial (by simp)
  | datagram hrouter =>
    obtain ⟨hbehind, hne⟩ := routerBehind_route h.router hrouter _
    exact hidle (idle_of_slots rfl rfl rfl rfl rfl rfl rfl) hbehind fun heq => absurd heq hne
  | deliver => exact hidle (idle_deliver _) trivial (by simp)
  | @request i slot query pc wake reply pc' hslot hdropped hcall hreply hrequest =>
    have hpc := pcAt_of_slot hslot hdropped hcall
    have hanswers := answers_of_requestReply hreply
    by_cases hreplaces : Replaces pc reply
    · exact handshake_replaced h hguarded hreplaces hpc hanswers hrequest (pcAt_move hslot hdropped)
        rfl
    · exact handshake_request h hguarded hreplaces hpc hanswers hrequest (pcAt_move hslot hdropped)
        rfl
  | @drop i slot hslot =>
    refine h.keep ⟨rfl, rfl, rfl⟩ h.router ?_ fun _ => .inr ⟨rfl, rfl⟩
    rintro j epoch ⟨pc, stats, port, hpc, hsteering⟩
    rw [pcAt_dropCall hslot] at hpc
    split at hpc
    · cases hpc
    · exact ⟨pc, stats, port, hpc, hsteering⟩

theorem handshake_reachable (h : (lts client).Reachable s) : Handshake s := by
  refine h.invariant ?_ ?_
  · rintro s ⟨bindUdp, now, hnew⟩
    obtain ⟨socket, -, -, -, rfl⟩ := new_eq_ok_iff.mp hnew
    refine ⟨trivial, ?_⟩
    rintro i epoch ⟨pc, stats, port, hpc, -⟩
    simp [start, State.pcAt] at hpc
  · intro s event t hreachable hs hstep
    exact handshake_step hs (guarded_reachable hreachable) hstep

/-! ### What a call can do -/

def Call.Returned : Call → Prop
  | .check _ pc => pc.Returned
  | .report _ state => ∃ outcome, state.pc = .returned outcome

/-- Every call that was not dropped has returned. -/
def State.Finished (s : State) : Prop :=
  ∀ (i : ℕ) (slot : Slot), s.slots[i]? = some slot → slot.dropped = false → slot.call.Returned

/-- A call waits for the write guard of `request_activity`. -/
def State.ActivityAwaited (s : State) : Prop :=
  ∃ i flight result, s.pcAt i = some (.steering flight result .activityWrite)

/-- A call waits for the write guard of `socket`. -/
def State.SocketAwaited (s : State) : Prop :=
  ∃ i flight result stats newSocket,
    s.pcAt i = some (.steering flight result (.socketWrite stats newSocket))

/-- A read guard is taken ahead of a call that waits for the write guard. The locks of the source
are fair: they let no reader pass a waiting writer. -/
def State.Passes (s : State) : Event → Prop
  | .wake _ (.activity _) => s.ActivityAwaited
  | .wake _ .socket | .wake _ (.socketRead _ _) | .routerRead => s.SocketAwaited
  | _ => False

/-- The client on its own, with no reader ahead of a writer. -/
def fairLts (client : CoreClient) : Lts State Event :=
  (lts client).restrict fun s event => event.Internal ∧ ¬ s.Passes event

/-- The client can go on by itself, other than by waiting, and with no reader ahead of a writer. -/
def Enabled (client : CoreClient) (s : State) : Prop :=
  ∃ event t, event.Internal ∧ ¬ event.IsTick ∧ ¬ s.Passes event ∧ step client s event = some t

theorem enabled_of_request (wake : Wake) (hslot : s.slots[i]? = some slot)
    (hdropped : slot.dropped = false) (hcall : slot.call = .check query pc)
    (hreply : s.requestReply slot.channel wake = some reply)
    (hpasses : ¬ s.Passes (.wake i wake)) (hstep : (Request.step client query pc reply).isSome) :
    Enabled client s := by
  obtain ⟨pc', hpc'⟩ := Option.isSome_iff_exists.mp hstep
  exact ⟨.wake i wake, _, trivial, id, hpasses,
    by simp [step, hslot, hdropped, hcall, hreply, hpc']; rfl⟩

theorem enabled_of_report {reports : List ServiceLatencyReport} {state : Report.State}
    {reply : Report.Reply} (wake : Wake) (hslot : s.slots[i]? = some slot)
    (hdropped : slot.dropped = false) (hcall : slot.call = .report reports state)
    (hreply : s.reportReply wake = some reply) (hpasses : ¬ s.Passes (.wake i wake))
    (hstep : (Report.step client reports state reply).isSome) : Enabled client s := by
  obtain ⟨state', hstate'⟩ := Option.isSome_iff_exists.mp hstep
  exact ⟨.wake i wake, _, trivial, id, hpasses,
    by simp [step, hslot, hdropped, hcall, hreply, hstate']; rfl⟩

/-- No lookup succeeds. -/
def silentResolver : Resolver := ⟨fun _ => .error "", fun _ => .error ""⟩

def seedOf (id : Bytes 16) : PacketSeed := ⟨id, .ofList 12 [], 0⟩

/-- A call needs nothing that another call may hold. -/
def Call.Unblocked : Call → Prop
  | .check _ (.entering _ _) | .check _ (.steering _ _ _) => False
  | call => ¬ call.Returned

/-- When a call can go on: its clock is not ahead, and its receive loop is over. -/
def Call.dueAt : Call → ℕ
  | .check _ (.flying flight) =>
    match flight.state.pc with
    | .receiving _ deadline => max flight.state.clock deadline
    | _ => flight.state.clock
  | _ => 0

theorem enabled_of_flying {flight : Flight} (hslot : s.slots[i]? = some slot)
    (hdropped : slot.dropped = false) (hcall : slot.call = .check query (.flying flight))
    (hrunning : (Request.Pc.flying flight).Running) (hdue : slot.call.dueAt ≤ s.clock)
    (hsocket : ¬ s.SocketAwaited) : Enabled client s := by
  obtain ⟨hsettled, hreturned⟩ := hrunning
  have hstep (w : Wake) {reply : Rounds.Reply}
      (hreply : s.requestReply slot.channel w = some (.flight s.clock reply))
      (hpasses : ¬ s.Passes (.wake i w))
      (h : (flight.reg.step flight.state s.clock reply).isSome) : Enabled client s :=
    enabled_of_request _ hslot hdropped hcall hreply hpasses (by simpa [Request.step] using h)
  rw [hcall, Call.dueAt] at hdue
  cases hpc : flight.state.pc with
  | sendSocket =>
    rw [hpc] at hdue
    refine hstep .socket rfl hsocket ?_
    simp [Registration.step, Registration.resume, Rounds.State.advance, hpc, hdue]
  | sending =>
    rw [hpc] at hdue
    refine hstep (.sent (.ok 0)) rfl id ?_
    simp [Registration.step, Registration.resume, Rounds.State.advance, hpc, hdue]
  | recordFailures | accepting =>
    rw [hpc] at hdue
    refine hstep .stats rfl id ?_
    simp [Registration.step, Registration.resume, Rounds.State.advance, hpc, hdue]
  | receiving =>
    rw [hpc] at hdue
    obtain ⟨hclock, hdeadline⟩ := max_le_iff.mp hdue
    refine hstep .elapsed rfl id ?_
    simp [Registration.step, Registration.resume, Rounds.State.advance, hpc, hclock, hdeadline]
  | settled result => exact absurd hpc (hsettled result)
  | returned outcome => exact absurd hpc (hreturned outcome)

theorem enabled_of_reporting {reports : List ServiceLatencyReport} {state : Report.State}
    (hslot : s.slots[i]? = some slot) (hdropped : slot.dropped = false)
    (hcall : slot.call = .report reports state) (hunreturned : ¬ slot.call.Returned)
    (hsocket : ¬ s.SocketAwaited) : Enabled client s := by
  rw [hcall] at hunreturned
  have hstep (w : Wake) {reply : Report.Reply} (hreply : s.reportReply w = some reply)
      (hpasses : ¬ s.Passes (.wake i w))
      (h : (Report.step client reports state reply).isSome) : Enabled client s :=
    enabled_of_report _ hslot hdropped hcall hreply hpasses h
  cases hpc : state.pc with
  | refreshCheck =>
    exact hstep (.lastRefresh (seedOf (.ofList 16 []))) rfl id (by simp [Report.step, hpc])
  | refreshing =>
    exact hstep (.refresh silentResolver (seedOf (.ofList 16 []))) rfl id
      (by simp [Report.step, hpc])
  | resolving => exact hstep (.servers silentResolver) rfl id (by simp [Report.step, hpc])
  | sendSocket => exact hstep .socket rfl hsocket (by simp [Report.step, hpc])
  | sending => exact hstep (.sent (.ok 0)) rfl id (by simp [Report.step, hpc])
  | recordFailures => exact hstep .stats rfl id (by simp [Report.step, hpc])
  | returned outcome => exact absurd ⟨outcome, hpc⟩ hunreturned

/-- A call that needs nothing of the others goes on once it is due. -/
theorem enabled_of_unblocked (hslot : s.slots[i]? = some slot) (hdropped : slot.dropped = false)
    (hunblocked : slot.call.Unblocked) (hreachable : slot.call.Reachable client)
    (hdue : slot.call.dueAt ≤ s.clock) (hsocket : ¬ s.SocketAwaited) : Enabled client s := by
  cases hcall : slot.call with
  | report reports state =>
    rw [hcall] at hunblocked
    exact enabled_of_reporting hslot hdropped hcall (hcall ▸ hunblocked) hsocket
  | check query pc =>
    rw [hcall] at hunblocked hreachable
    have hstep (w : Wake) {reply : Request.Reply}
        (hreply : s.requestReply slot.channel w = some reply) (hpasses : ¬ s.Passes (.wake i w))
        (h : (Request.step client query pc reply).isSome) : Enabled client s :=
      enabled_of_request _ hslot hdropped hcall hreply hpasses h
    cases pc with
    | refreshCheck => exact hstep (.lastRefresh (seedOf (.ofList 16 []))) rfl id rfl
    | refreshing => exact hstep (.refresh silentResolver (seedOf (.ofList 16 []))) rfl id rfl
    | resolving => exact hstep (.servers silentResolver) rfl id rfl
    | flying flight =>
      exact enabled_of_flying hslot hdropped hcall (Request.running_reachable hreachable) hdue
        hsocket
    | entering | steering => exact hunblocked.elim
    | returned flight outcome => exact absurd ⟨flight, outcome, rfl⟩ hunblocked

/-- There are 2^128 request ids. -/
theorem exists_fresh (h : s.slots.length < 2 ^ 128) : ∃ id, s.fresh id = true := by
  by_contra hnone
  have hused (id : Bytes 16) : ∃ i : Fin s.slots.length, s.slots[i].requestId = some id := by
    by_contra hunused
    refine hnone ⟨id, List.all_eq_true.mpr fun slot hslot => ?_⟩
    obtain ⟨i, hi, rfl⟩ := List.mem_iff_getElem.mp hslot
    simpa using fun heq => hunused ⟨⟨i, hi⟩, heq⟩
  choose index hindex using hused
  let idOf (k : Fin (2 ^ 128)) : Bytes 16 := ⟨leBytes 16 k, length_leBytes 16 k⟩
  have hinjective : Function.Injective fun k => index (idOf k) := by
    intro k k' heq
    have hid : idOf k = idOf k' := by
      have hk := hindex (idOf k)
      rw [show index (idOf k) = index (idOf k') from heq, hindex] at hk
      exact (Option.some.inj hk).symm
    have hbytes := congrArg (fun id => leNat id.toList) hid
    simp only [idOf] at hbytes
    rw [leNat_leBytes_of_lt k.isLt, leNat_leBytes_of_lt k'.isLt] at hbytes
    exact Fin.ext hbytes
  have hcard := Fintype.card_le_of_injective _ hinjective
  rw [Fintype.card_fin, Fintype.card_fin] at hcard
  omega

/-- The call that rebinds holds the steering lock. -/
theorem Guarded.applying_of_writer (h : Guarded s) (hi : s.guards.writer = some i) :
    s.guards.applying = some i := by
  rw [h.applying]
  obtain ⟨pc, hpc, hrebinding⟩ := (Option.any_eq_true _ _).mp ((h.writer i).mp hi)
  rw [hpc, Option.any_some]
  by_contra happlying
  rw [Bool.not_eq_true] at happlying
  rw [Request.not_rebinding_of_not_applying happlying] at hrebinding
  cases hrebinding

/-- Before the call that waits to replace the socket go those that send; then it goes itself. -/
theorem enabled_of_socketAwaited
    (hdue : ∀ (i : ℕ) (slot : Slot), s.slots[i]? = some slot → slot.call.dueAt ≤ s.clock)
    (hawaited : s.SocketAwaited) : Enabled client s := by
  obtain ⟨i, flight, result, stats, newSocket, hpc⟩ := hawaited
  obtain ⟨slot, query, hslot, hdropped, hcall⟩ := exists_slot_of_pcAt hpc
  by_cases hany : s.slots.any (·.sending) = true
  · obtain ⟨other, hmem, hsends⟩ := List.any_eq_true.mp hany
    obtain ⟨j, hj⟩ := List.mem_iff_getElem?.mp hmem
    rw [Slot.sending, Bool.and_eq_true, Bool.not_eq_true'] at hsends
    obtain ⟨hlive, hsends⟩ := hsends
    have hsent := hdue j other hj
    cases hother : other.call with
    | check query' pc =>
      rw [hother] at hsends hsent
      cases pc with
      | flying flying =>
        cases hsending : flying.state.pc with
        | sending =>
          rw [Call.dueAt, hsending] at hsent
          refine enabled_of_request (.sent (.ok 0)) hj hlive hother rfl id ?_
          simp [Request.step, Registration.step, Registration.resume, Rounds.State.advance,
            hsending, hsent]
        | _ => simp [Request.Pc.sending, hsending] at hsends
      | _ => cases hsends
    | report reports state =>
      rw [hother] at hsends
      cases hsending : state.pc with
      | sending =>
        exact enabled_of_report (.sent (.ok 0)) hj hlive hother rfl id
          (by simp [Report.step, hsending])
      | _ => simp [hsending] at hsends
  · exact enabled_of_request (.socketWrite (.error ⟨.other, ""⟩)) hslot hdropped hcall
      (if_neg hany) id rfl

/-- Of calls that need the others, the holder of the steering lock goes on, or the router for it. -/
theorem enabled_of_applying (h : (lts client).Reachable s) (hreaders : s.guards.readers = [])
    (hsocket : ¬ s.SocketAwaited) (hi : s.guards.applying = some i) : Enabled client s := by
  have hguarded := guarded_reachable h
  obtain ⟨pc, hpc, happlying⟩ := (Option.any_eq_true _ _).mp ((hguarded.applying i).mp hi)
  obtain ⟨slot, query, hslot, hdropped, hcall⟩ := exists_slot_of_pcAt hpc
  have hstep (w : Wake) {reply : Request.Reply}
      (hreply : s.requestReply slot.channel w = some reply) (hpasses : ¬ s.Passes (.wake i w))
      (h : (Request.step client query pc reply).isSome) : Enabled client s :=
    enabled_of_request _ hslot hdropped hcall hreply hpasses h
  cases pc with
  | steering flight result steering =>
    cases steering with
    | storePending | applyLock | done => cases happlying
    | activityWrite =>
      have hwriter : s.guards.writer = none := by
        cases hw : s.guards.writer with
        | none => rfl
        | some w =>
          obtain rfl := Option.some.inj ((hguarded.applying_of_writer hw).symm.trans hi)
          rw [hguarded.writer, hpc] at hw
          cases hw
      exact hstep .activityWrite (if_pos ⟨hreaders, hwriter⟩) id rfl
    | statsLock => exact hstep .steeringStats rfl id rfl
    | socketRead =>
      exact hstep (.socketRead (.error ⟨.other, ""⟩) fun _ _ => .error .timeout) rfl hsocket rfl
    | epochReadyLock => exact hstep .epochReadyLock rfl id rfl
    | socketWrite stats newSocket =>
      exact absurd ⟨i, flight, result, stats, newSocket, hpc⟩ hsocket
    | epochChanged stats epoch port =>
      cases hseen : s.epochReady.seen with
      | false => exact hstep .epochChanged (if_neg (by simp [hseen])) id rfl
      | true =>
        have hwaiting := ((handshake_reachable h).waiting i epoch ⟨_, stats, port, hpc, rfl⟩).2
        cases hrouter : s.router with
        | reading => exact ⟨.routerRead, _, trivial, id, hsocket, by simp [step, hrouter]; rfl⟩
        | acking => exact ⟨.routerAck, _, trivial, id, id, by simp [step, hrouter]; rfl⟩
        | receiving generation =>
          have hne : generation ≠ s.generation := by
            rintro rfl
            rw [hwaiting hrouter] at hseen
            cases hseen
          exact ⟨.epochChanged, _, trivial, id, id, by simp [step, hrouter, hne]; rfl⟩
        | delivering => exact ⟨.deliver, _, trivial, id, id, by simp [step, hrouter]; rfl⟩
  | _ => cases happlying

/-- A call that has not returned can go on, or another or the router can. -/
theorem enabled_of_due (h : (lts client).Reachable s) (hids : s.slots.length < 2 ^ 128)
    (hdue : ∀ (i : ℕ) (slot : Slot), s.slots[i]? = some slot → slot.call.dueAt ≤ s.clock)
    (hunfinished : ¬ s.Finished) : Enabled client s := by
  by_contra hstuck
  have hsocket : ¬ s.SocketAwaited := fun hawaited =>
    hstuck (enabled_of_socketAwaited hdue hawaited)
  -- nothing is left but calls at the guard of the requests or in the steering code
  have hblocked (i : ℕ) (slot : Slot) (hslot : s.slots[i]? = some slot)
      (hdropped : slot.dropped = false) : ¬ slot.call.Unblocked := fun hunblocked =>
    hstuck (enabled_of_unblocked hslot hdropped hunblocked (calls_reachable h i slot hslot)
      (hdue i slot hslot) hsocket)
  have hguarded := guarded_reachable h
  have hreaders : s.guards.readers = [] := by
    refine List.eq_nil_iff_forall_not_mem.mpr fun i hi => ?_
    obtain ⟨pc, hpc, hactive⟩ := (Option.any_eq_true _ _).mp ((hguarded.readers i).mp hi)
    obtain ⟨slot, query, hslot, hdropped, hcall⟩ := exists_slot_of_pcAt hpc
    refine hblocked i slot hslot hdropped ?_
    cases pc with
    | flying flight =>
      rw [hcall]
      rintro ⟨flight, outcome, heq⟩
      cases heq
    | _ => cases hactive
  have happlying : s.guards.applying = none := by
    cases hi : s.guards.applying with
    | none => rfl
    | some i => exact absurd (enabled_of_applying h hreaders hsocket hi) hstuck
  have hwriter : s.guards.writer = none := by
    cases hi : s.guards.writer with
    | none => rfl
    | some i =>
      rw [hguarded.applying_of_writer hi] at happlying
      cases happlying
  refine hunfinished fun i slot hslot hdropped => ?_
  by_contra hunreturned
  have hwaits := hblocked i slot hslot hdropped
  cases hcall : slot.call with
  | report reports state =>
    rw [hcall] at hwaits hunreturned
    exact hwaits hunreturned
  | check query pc =>
    rw [hcall] at hwaits hunreturned
    have hstep (w : Wake) {reply : Request.Reply}
        (hreply : s.requestReply slot.channel w = some reply) (hpasses : ¬ s.Passes (.wake i w))
        (h : (Request.step client query pc reply).isSome) : False :=
      hstuck (enabled_of_request _ hslot hdropped hcall hreply hpasses h)
    cases pc with
    | entering dedupTtlMs resolved =>
      obtain ⟨id, hfresh⟩ := exists_fresh hids
      refine hstep (.activity (seedOf id)) (if_pos ⟨hwriter, hfresh⟩) ?_ rfl
      rintro ⟨j, flight, result, hpc⟩
      have hholds := (hguarded.applying j).mpr (by rw [hpc]; rfl)
      rw [happlying] at hholds
      cases hholds
    | steering flight result steering =>
      cases steering with
      | storePending => exact hstep .storePending rfl id rfl
      | applyLock => exact hstep .applyLock (if_pos happlying) id rfl
      | done result' stats =>
        have hreachable := calls_reachable h i slot hslot
        rw [hcall] at hreachable
        exact Request.running_reachable hreachable result' stats rfl
      | _ =>
        have hholds := (hguarded.applying i).mpr (by rw [pcAt_of_slot hslot hdropped hcall]; rfl)
        rw [happlying] at hholds
        cases hholds
    | _ => exact hwaits hunreturned

/-- By itself the client makes no calls. -/
theorem length_slots_of_internal (h : step client s event = some t) (hinternal : event.Internal) :
    t.slots.length = s.slots.length := by
  cases moves_of_step h with
  | check | report | drop | datagram | receiveError => exact hinternal.elim
  | request => simp [slots_move]
  | reporting => simp
  | deliver =>
    unfold State.deliver
    dsimp only
    split <;> simp
  | _ => rfl

theorem exists_due (slots : List Slot) : ∃ due, ∀ (i : ℕ) (slot : Slot), slots[i]? = some slot →
    slot.call.dueAt ≤ due :=
  ⟨(slots.map fun slot => slot.call.dueAt).sum, fun _ _ hslot =>
    List.single_le_sum (by simp) _ (List.mem_map_of_mem (List.mem_of_getElem? hslot))⟩

/-- Waiting is all that may be missing. -/
theorem enabled_after (h : (lts client).Reachable s) (hids : s.slots.length < 2 ^ 128)
    (hunfinished : ¬ s.Finished) :
    ∃ due, s.clock ≤ due ∧ ∀ now, due ≤ now → Enabled client { s with clock := now } := by
  obtain ⟨due, hdue⟩ := exists_due s.slots
  refine ⟨max s.clock due, le_max_left _ _, fun now hnow => ?_⟩
  have htick : step client s (.tick now) = some { s with clock := now } :=
    if_pos ((le_max_left _ _).trans hnow)
  exact enabled_of_due (h.step htick) hids
    (fun i slot hslot => (hdue i slot hslot).trans ((le_max_right _ _).trans hnow)) hunfinished

/-- From any state that a client can reach, whatever its calls, its router and the environment have
done so far, the client by itself gets all its calls to return, as long as request ids are left: it
is never stuck but for the clock. No reader has to pass a waiting writer for that. -/
theorem calls_return (h : (lts client).Reachable s) (hids : s.slots.length < 2 ^ 128) :
    (¬ s.Finished → ∃ due, ∀ now, due ≤ now → Enabled client { s with clock := now }) ∧
      ∃ t, (fairLts client).Leads s t ∧ t.Finished := by
  constructor
  · intro hunfinished
    obtain ⟨due, -, henabled⟩ := enabled_after h hids hunfinished
    exact ⟨due, henabled⟩
  refine Lts.leads_of_measure (P := fun t => (lts client).Reachable t ∧ t.slots.length < 2 ^ 128)
    wellFounded_lt State.ahead ?_ ⟨h, hids⟩
  rintro s ⟨hreachable, hids⟩ hunfinished
  obtain ⟨due, hle, henabled⟩ := enabled_after hreachable hids hunfinished
  have htick : step client s (.tick due) = some { s with clock := due } := if_pos hle
  obtain ⟨event, t, hinternal, hother, hpasses, hstep⟩ := henabled due le_rfl
  refine ⟨t, ?_, ⟨(hreachable.step htick).step hstep, ?_⟩, ?_⟩
  · have hfirst : (fairLts client).step s (.tick due) _ := ⟨⟨trivial, id⟩, htick⟩
    exact (Lts.Leads.of_step hfirst).trans (Lts.Leads.of_step ⟨⟨hinternal, hpasses⟩, hstep⟩)
  · rw [length_slots_of_internal hstep hinternal]
    exact hids
  · rw [← ahead_of_tick htick trivial]
    exact internal_descends hstep hinternal hother

/-- The first call waits to rebind until the second has done, and the third until it has rebound. -/
def sampleQueue : List Event :=
  sampleBegin 0 0 ++ sampleBegin 1 1 ++ sampleSelect 0 0 ++
    [.wake 0 .storePending, .wake 0 .applyLock, .check sampleQuery,
      .wake 2 (.lastRefresh (sampleSeedOf 2)), .wake 2 (.servers sampleResolver)]

theorem calls_return_sample : ∃ s, (lts sampleClient).Reachable s ∧ s.guards.readers = [1] ∧
    (s.pcAt 0).bind (·.steeringPc) = some .activityWrite ∧
      ∃ t, (fairLts sampleClient).Leads s t ∧ t.Finished := by
  obtain ⟨s, hs, htest⟩ := (Option.any_eq_true _ _).mp
    (show (sampleRun sampleQueue).any (fun s => s.guards.readers = [1] ∧
      (s.pcAt 0).bind (·.steeringPc) = some .activityWrite ∧ s.slots.length < 2 ^ 128) = true
      by decide +kernel)
  obtain ⟨hreaders, hwaits, hids⟩ := of_decide_eq_true htest
  have hreachable := reachable_sampleRun hs
  exact ⟨s, hreachable, hreaders, hwaits, (calls_return hreachable hids).2⟩

/-! ### At rest -/

/-- A call that has returned holds nothing. -/
theorem not_holding_of_returned {p : Request.Pc → Bool} (hfinished : s.Finished)
    (hreturned : ∀ flight outcome, p (.returned flight outcome) = false) (i : ℕ) :
    ¬ (s.pcAt i).any p = true := by
  intro hany
  obtain ⟨pc, hpc, hp⟩ := (Option.any_eq_true _ _).mp hany
  obtain ⟨slot, hslot, hlive⟩ := Option.bind_eq_some_iff.mp hpc
  unfold Slot.live at hlive
  split at hlive
  next query pc' hdropped hcall =>
    cases hlive
    have hcalls := hfinished i slot hslot hdropped
    rw [hcall] at hcalls
    obtain ⟨flight, outcome, rfl⟩ := hcalls
    rw [hreturned] at hp
    cases hp
  next => cases hlive

theorem not_sending_of_returned {slot : Slot} (h : slot.call.Returned) : slot.sending = false := by
  unfold Slot.sending
  cases hcall : slot.call with
  | check query pc =>
    rw [hcall] at h
    obtain ⟨flight, outcome, rfl⟩ := h
    exact Bool.and_false _
  | report reports state =>
    rw [hcall] at h
    obtain ⟨outcome, hpc⟩ := h
    simp [hpc]

/-- Wherever its calls were dropped, a client whose other calls have returned holds nothing for any
of them: no registration, no guard of `request_activity` or `steering_apply_lock`, and no guard of
`socket`, which is held across an await only by a call that sends. -/
theorem nothing_held (h : (lts client).Reachable s) (hfinished : s.Finished) :
    (∀ id, s.inflight id = none) ∧ s.guards = ⟨[], none, none⟩ ∧
      ∀ slot ∈ s.slots, slot.sending = false := by
  have hguarded := guarded_reachable h
  refine ⟨fun id => ?_, ?_, fun slot hmem => ?_⟩
  · by_contra hne
    obtain ⟨i, hi⟩ := Option.ne_none_iff_exists'.mp hne
    obtain ⟨pc, hpc, hid⟩ := Option.bind_eq_some_iff.mp ((keyed_reachable h id i).mp hi)
    refine not_holding_of_returned (p := fun pc => pc.registered.isSome) hfinished
      (fun _ _ => rfl) i ?_
    simp [hpc, hid]
  · have hreaders : s.guards.readers = [] := List.eq_nil_iff_forall_not_mem.mpr fun i hi =>
      not_holding_of_returned hfinished (fun _ _ => rfl) i ((hguarded.readers i).mp hi)
    have hwriter : s.guards.writer = none := Option.eq_none_iff_forall_ne_some.mpr fun i hi =>
      not_holding_of_returned hfinished (fun _ _ => rfl) i ((hguarded.writer i).mp hi)
    have happlying : s.guards.applying = none := Option.eq_none_iff_forall_ne_some.mpr fun i hi =>
      not_holding_of_returned hfinished (fun _ _ => rfl) i ((hguarded.applying i).mp hi)
    cases hguards : s.guards
    simp_all
  · obtain ⟨i, hslot⟩ := List.mem_iff_getElem?.mp hmem
    cases hdropped : slot.dropped with
    | true => simp [Slot.sending, hdropped]
    | false => exact not_sending_of_returned (hfinished i slot hslot hdropped)

/-- A call that is dropped in the middle of its second send. -/
theorem nothing_held_sample : ∃ s, (lts sampleClient).Reachable s ∧ s.slots.length = 1 ∧
    (∀ id, s.inflight id = none) ∧ s.guards = ⟨[], none, none⟩ ∧
      ∀ slot ∈ s.slots, slot.sending = false := by
  obtain ⟨s, hs, htest⟩ := (Option.any_eq_true _ _).mp
    (show (sampleRun ((sampleBegin 0 0).dropLast ++ [.drop 0])).any (fun s =>
      s.slots.length = 1 ∧ s.slots.all (·.dropped)) = true by decide +kernel)
  obtain ⟨hlength, hall⟩ := of_decide_eq_true htest
  have hfinished : s.Finished := by
    intro i slot hslot hdropped
    rw [List.all_eq_true.mp hall slot (List.mem_of_getElem? hslot)] at hdropped
    cases hdropped
  exact ⟨s, reachable_sampleRun hs, hlength, nothing_held (reachable_sampleRun hs) hfinished⟩

end Client

end Ratelimitly
