import Mathlib.Tactic
import Ratelimitly.Lib.Progress
import Ratelimitly.SocketEpochs

/-! A client that hears nothing more runs its calls down: each of its steps uses up work. -/
namespace Ratelimitly

open Lib Rounds

/-! ### The work of a request's rounds -/

namespace Registration

variable (reg : Registration)

/-- More than one delivery and its receive loop need. -/
def span : ℕ := reg.resolved.targets.length + 8

def roundBase (k : ℕ) : ℕ := (reg.lastRound - k + 2) * reg.span

def deliveryBase : Delivery → ℕ
  | .completion _ => 0
  | .round k => reg.roundBase k

def windowBase : Window → ℕ
  | .final => reg.span
  | .round k => reg.roundBase k

/-- A bound on the wake-ups ahead, datagrams apart. -/
def work : Rounds.Pc → ℕ
  | .sendSocket delivery => reg.deliveryBase delivery + reg.resolved.targets.length + 6
  | .sending delivery _ _ rest _ => reg.deliveryBase delivery + rest.length + 5
  | .recordFailures delivery _ _ => reg.deliveryBase delivery + 4
  | .accepting window _ _ => reg.windowBase window + 3
  | .receiving window _ => reg.windowBase window + 2
  | .settled _ | .returned _ => 0

variable {reg} {s t : Rounds.State} {k now : ℕ}

theorem two_span_le_roundBase (k : ℕ) : 2 * reg.span ≤ reg.roundBase k :=
  Nat.mul_le_mul_right _ (Nat.le_add_left _ _)

theorem roundBase_succ (h : k < reg.lastRound) :
    reg.roundBase (k + 1) + reg.span = reg.roundBase k := by
  have hrounds : reg.lastRound - k + 2 = reg.lastRound - (k + 1) + 2 + 1 := by omega
  rw [roundBase, roundBase, hrounds, Nat.add_one_mul (reg.lastRound - (k + 1) + 2)]

theorem work_conclude (outcome : Outcome CoreError (Option RateLimitResult)) (s : Rounds.State) :
    reg.work (reg.conclude outcome s).pc < reg.span := by
  unfold conclude
  dsimp only
  split
  · split <;> simp [work, deliveryBase, span]
  all_goals simp [work, span]

theorem work_receiveFinal (deadline : ℕ) (s : Rounds.State) :
    reg.work (reg.receiveFinal deadline s).pc ≤ reg.span + 2 := by
  unfold receiveFinal
  split
  · exact le_rfl
  · exact (work_conclude _ _).le.trans (Nat.le_add_right _ _)

theorem work_leaveRound (k : ℕ) (s : Rounds.State) :
    reg.work (reg.leaveRound k s).pc < reg.roundBase k := by
  have hbase := @two_span_le_roundBase reg k
  have hspan : 8 ≤ reg.span := Nat.le_add_left _ _
  unfold leaveRound
  split
  · have h := @work_conclude reg (.ok s.best) s
    omega
  · split
    next hk =>
      have hsucc := roundBase_succ hk
      simp only [startRound, work, deliveryBase]
      simp only [span] at hsucc ⊢
      omega
    next =>
      split
      · refine (work_receiveFinal _ _).trans_lt ?_
        omega
      · have h := @work_conclude reg (.ok none) s
        omega

theorem work_receiveRound (k deadline : ℕ) (s : Rounds.State) :
    reg.work (reg.receiveRound k deadline s).pc ≤ reg.roundBase k + 2 := by
  unfold receiveRound
  split
  · exact le_rfl
  · exact (work_leaveRound k s).le.trans (Nat.le_add_right _ _)

theorem work_receive (window : Window) (deadline : ℕ) (s : Rounds.State) :
    reg.work (reg.receive window deadline s).pc ≤ reg.windowBase window + 2 := by
  cases window with
  | round k => exact work_receiveRound k deadline s
  | final => exact work_receiveFinal deadline s

theorem span_le_windowBase (window : Window) : reg.span ≤ reg.windowBase window := by
  cases window with
  | round k =>
    have hbase := @two_span_le_roundBase reg k
    rw [windowBase]
    omega
  | final => exact le_rfl

theorem work_leave (window : Window) (s : Rounds.State) :
    reg.work (reg.leave window s).pc < reg.windowBase window := by
  cases window with
  | round k => exact work_leaveRound k s
  | final => exact work_conclude _ _

theorem work_onPacket (window : Window) (deadline : ℕ) (packet : ResponsePacket)
    (s : Rounds.State) :
    reg.work (reg.onPacket window deadline packet s).pc ≤ reg.windowBase window + 3 := by
  unfold onPacket
  split
  · exact (work_receive window deadline s).trans (Nat.le_succ _)
  · exact le_rfl

theorem work_onAccepted (window : Window) (deadline : ℕ) (result : RateLimitResult)
    (s : Rounds.State) :
    reg.work (reg.onAccepted window deadline result s).pc ≤ reg.windowBase window + 2 := by
  have hspan := @span_le_windowBase reg window
  unfold onAccepted
  split
  · exact ((work_conclude _ _).le.trans hspan).trans (Nat.le_add_right _ _)
  · dsimp only
    split
    · exact ((work_conclude _ _).le.trans hspan).trans (Nat.le_add_right _ _)
    · exact work_receiveRound _ _ _

theorem work_afterDelivery (delivery : Delivery) (result : Except CoreError Unit)
    (s : Rounds.State) :
    reg.work (reg.afterDelivery delivery result s).pc ≤ reg.deliveryBase delivery + 2 := by
  unfold afterDelivery
  split
  · simp [work]
  next k =>
    have hbase := @two_span_le_roundBase reg k
    have hconclude (outcome : Outcome CoreError (Option RateLimitResult)) :
        reg.work (reg.conclude outcome s).pc ≤ reg.deliveryBase (.round k) + 2 := by
      have h := @work_conclude reg outcome s
      rw [deliveryBase]
      omega
    split
    · exact hconclude _
    · split
      · exact work_receiveRound _ _ _
      · exact hconclude _
      · exact hconclude _

theorem work_finishSends (delivery : Delivery) (sends : SendLoop) (s : Rounds.State) :
    reg.work (reg.finishSends delivery sends s).pc ≤ reg.deliveryBase delivery + 4 := by
  unfold finishSends
  split
  · split
    · exact (work_afterDelivery _ _ s).trans (by omega)
    · exact (work_afterDelivery _ _ s).trans (by omega)
  · split
    · exact le_rfl
    · exact (work_afterDelivery _ _ s).trans (by omega)

theorem work_sendNext (delivery : Delivery) (socket : ℕ) (targets : List SocketAddr)
    (sends : SendLoop) (s : Rounds.State) :
    reg.work (reg.sendNext delivery socket targets sends s).pc ≤
      reg.deliveryBase delivery + targets.length + 4 := by
  induction targets with
  | nil => exact work_finishSends delivery sends s
  | cons target rest ih =>
    unfold sendNext
    split
    · rw [List.length_cons]
      omega
    · simp only [work, List.length_cons]
      omega

/-- A datagram may cost one wake-up; every other wake-up uses up work. -/
theorem work_step {reply : Rounds.Reply} (h : reg.step s now reply = some t) :
    reg.work t.pc < reg.work s.pc ∨
      (∃ packet, reply = .received packet) ∧ reg.work t.pc ≤ reg.work s.pc + 1 := by
  obtain ⟨-, hresumes⟩ := resumes_of_step h
  cases hresumes with
  | @socket delivery handle hpc =>
    have hwork := @work_sendNext reg delivery handle reg.resolved.targets ⟨0, 0, none, []⟩
      (s.advance now)
    left
    rw [show s.pc = _ from hpc, work]
    omega
  | @sent delivery socket target rest sends result hpc =>
    have hwork := @work_sendNext reg delivery socket rest
      (reg.recordSend target result sends) (s.advance now)
    left
    rw [show s.pc = _ from hpc, work]
    omega
  | failures hpc =>
    left
    rw [show s.pc = _ from hpc, work]
    exact (work_afterDelivery _ _ _).trans_lt (by omega)
  | @received window deadline packet hpc =>
    right
    rw [show s.pc = _ from hpc, work]
    exact ⟨⟨packet, rfl⟩, work_onPacket window deadline packet (s.advance now)⟩
  | elapsed hpc =>
    left
    rw [show s.pc = _ from hpc, work]
    exact (work_leave _ _).trans (by omega)
  | accepted hpc =>
    left
    rw [show s.pc = _ from hpc, work]
    exact (work_onAccepted _ _ _ _).trans_lt (by omega)

end Registration

/-! ### The work of a call -/

/-- Replacing the socket costs more than the router's next acknowledgement. -/
def Steering.Pc.work : Steering.Pc → ℕ
  | .storePending => 12
  | .applyLock => 11
  | .activityWrite => 10
  | .statsLock => 9
  | .socketRead _ => 8
  | .epochReadyLock _ _ => 7
  | .socketWrite _ _ => 6
  | .epochChanged _ _ _ => 1
  | .done _ _ => 0

/-- What a step of `apply_steering_feedback` must save; looking at the router's answer is free. -/
def Steering.Pc.cost : Steering.Pc → ℕ
  | .socketWrite _ _ => 5
  | .epochChanged _ _ _ => 0
  | _ => 1

theorem Steering.work_awaitEpoch (stats : SteeringStats) (nextEpoch : UInt64) (actualPort : UInt16)
    (ready : UInt64) : (awaitEpoch stats nextEpoch actualPort ready).work ≤ 1 := by
  unfold awaitEpoch
  split
  · exact le_rfl
  · exact Nat.zero_le _

theorem Steering.work_step {pc pc' : Steering.Pc} {reply : Steering.Reply}
    (h : step pc reply = some pc') : pc'.work + pc.cost ≤ pc.work := by
  unfold step at h
  split at h
  case h_2 | h_3 =>
    cases h
    split <;> simp [Pc.work, Pc.cost]
  case h_5 =>
    cases h
    split
    · simp [Pc.work, Pc.cost]
    · split <;> simp [Pc.work, Pc.cost]
  case h_7 =>
    cases h
    split
    · simp [Pc.work, Pc.cost]
    · exact Nat.add_le_add_right (work_awaitEpoch _ _ _ _) 5
  case h_8 =>
    cases h
    split
    · exact Nat.zero_le _
    · exact work_awaitEpoch _ _ _ _
  case h_9 => cases h
  all_goals
    cases h
    simp [Pc.work, Pc.cost]

theorem Steering.reply_of_epochChanged {stats : SteeringStats} {nextEpoch : UInt64}
    {actualPort : UInt16} {pc' : Steering.Pc} {reply : Steering.Reply}
    (h : step (.epochChanged stats nextEpoch actualPort) reply = some pc') :
    ∃ ready, reply = .epochChanged ready := by
  cases reply with
  | epochChanged ready => exact ⟨ready, rfl⟩
  | _ => cases h

namespace Request

/-- The stage of a call; a call never returns to an earlier one. -/
def Pc.phase : Pc → ℕ
  | .refreshCheck _ => 6
  | .refreshing _ => 5
  | .resolving _ => 4
  | .entering _ _ => 3
  | .flying _ => 2
  | .steering _ _ _ => 1
  | .returned _ _ => 0

def Pc.work : Pc → ℕ
  | .flying flight => flight.reg.work flight.state.pc
  | .steering _ _ pc => pc.work
  | _ => 0

variable {client : CoreClient} {query : Query} {pc pc' : Pc} {reply : Reply}

theorem phase_steer_le (flight : Flight) (result : RateLimitResult) (pc : Steering.Pc) :
    (steer flight result pc).phase < 1 ∨ steer flight result pc = .steering flight result pc := by
  unfold steer
  split
  · exact .inl Nat.one_pos
  · exact .inl Nat.one_pos
  · exact .inr rfl

theorem phase_leaveFlight (flight : Flight) : (leaveFlight client flight).phase < 2 ∨
    leaveFlight client flight = .flying flight := by
  unfold leaveFlight
  split
  next result _ =>
    rcases phase_steer_le flight result (Steering.start client.config result) with h | h
    · exact .inl (h.trans (by decide))
    · exact .inl (by simp [h, Pc.phase])
  · exact .inl (by simp [Pc.phase])
  · exact .inr rfl

theorem phase_enter_le (dedupTtlMs : UInt32) (servers : List ServerEndpoint) (resolver : Resolver) :
    (enter client dedupTtlMs servers resolver).phase < 4 := by
  unfold enter
  split
  · simp [Pc.phase]
  · simp [Pc.phase]
  · split <;> simp [Pc.phase]

theorem phase_register_le (dedupTtlMs : UInt32) (resolved : ResolvedTargets) (seed : PacketSeed)
    (now : ℕ) : (register client query dedupTtlMs resolved seed now).phase < 3 := by
  unfold register
  split <;> simp [Pc.phase]

/-- A call reaches a later stage, or it uses up work in its stage. -/
inductive Descends (pc : Pc) (reply : Reply) (pc' : Pc) : Prop
  | later : pc'.phase < pc.phase → Descends pc reply pc'
  | flying {flight now reply'} : pc = .flying flight → reply = .flight now reply' →
      pc'.phase = pc.phase →
      pc'.work < pc.work ∨ (∃ packet, reply' = .received packet) ∧ pc'.work ≤ pc.work + 1 →
      Descends pc reply pc'
  | steering {flight result steering reply'} : pc = .steering flight result steering →
      reply = .steering reply' → pc'.phase = pc.phase → pc'.work + steering.cost ≤ pc.work →
      Descends pc reply pc'

theorem descends (h : step client query pc reply = some pc') : Descends pc reply pc' := by
  cases steps_of_step h with
  | lastRefresh =>
    refine .later ?_
    split <;> simp [Pc.phase]
  | refreshed | unrefreshed => exact .later (by simp [Pc.phase])
  | servers => exact .later (phase_enter_le _ _ _)
  | activity => exact .later (phase_register_le _ _ _ _)
  | @flight flight now reply state hstep =>
    rcases @phase_leaveFlight client ⟨flight.reg, state⟩ with hlt | heq
    · exact .later hlt
    · rw [heq]
      exact .flying rfl rfl rfl (Registration.work_step hstep)
  | @steering flight result pc reply pc' hstep =>
    rcases phase_steer_le flight result pc' with hlt | heq
    · exact .later hlt
    · rw [heq]
      exact .steering rfl rfl rfl (Steering.work_step hstep)

end Request

namespace Report

def Pc.phase : Pc → ℕ
  | .refreshCheck => 6
  | .refreshing => 5
  | .resolving _ => 4
  | .sendSocket _ _ => 3
  | .sending _ _ _ _ _ _ => 2
  | .recordFailures _ => 1
  | .returned _ => 0

def Pc.work : Pc → ℕ
  | .sending _ _ _ _ rest _ => rest.length
  | _ => 0

variable {client : CoreClient} {reports : List ServiceLatencyReport} {s t : State} {reply : Reply}

theorem phase_build (seed : PacketSeed) : (build client reports seed).phase < 5 := by
  unfold build
  split <;> simp [Pc.phase]

theorem phase_finishSends (resolved : ResolvedTargets) (sends : SendLoop) :
    (finishSends resolved sends).phase < 2 := by
  unfold finishSends
  split
  · split <;> simp [Pc.phase]
  · split <;> simp [Pc.phase]

/-- A send goes on to the next target, or the loop is over. -/
theorem phase_sendNext (packet : List UInt8) (resolved : ResolvedTargets) (socket : ℕ)
    (targets : List SocketAddr) (sends : SendLoop) (sent : List Datagram) :
    (sendNext packet resolved socket targets sends sent).pc.phase < 2 ∨
      (sendNext packet resolved socket targets sends sent).pc.phase = 2 ∧
        (sendNext packet resolved socket targets sends sent).pc.work < targets.length := by
  cases targets with
  | nil => exact .inl (phase_finishSends _ _)
  | cons target rest => exact .inr ⟨rfl, by simp [sendNext, Pc.work]⟩

theorem descends (h : step client reports s reply = some t) : t.pc.phase < s.pc.phase ∨
    t.pc.phase = s.pc.phase ∧ t.pc.work < s.pc.work := by
  have hsteps := steps_of_step h
  generalize s.pc = pc at hsteps
  cases hsteps with
  | @lastRefresh _ _ seed =>
    left
    dsimp only
    split
    · decide
    · exact (@phase_build client reports seed).trans (by decide)
  | refreshed => exact .inl (phase_build _)
  | unrefreshed | resolved | unresolved | stats => exact .inl (by simp [Pc.phase])
  | @socket packet resolved handle =>
    rcases phase_sendNext packet resolved handle resolved.targets ⟨0, 0, none, []⟩ s.sent
      with hlt | ⟨heq, -⟩
    · exact .inl (hlt.trans (by simp [Pc.phase]))
    · exact .inl (heq.trans_lt (by simp [Pc.phase]))
  | @sent packet resolved socket target rest sends result =>
    exact phase_sendNext packet resolved socket rest
      (recordSend resolved target result sends) s.sent

end Report

/-! ### The work of a client -/

namespace Client

def Call.phase : Call → ℕ
  | .check _ pc => pc.phase
  | .report _ state => state.pc.phase

def Call.work : Call → ℕ
  | .check _ pc => pc.work
  | .report _ state => state.pc.work

/-- An unread datagram may cost two wake-ups. -/
def Slot.work (slot : Slot) : ℕ := slot.call.work + 2 * slot.channel.length

/-- The router's steps to the acknowledgement of the current socket, and what they bring about. -/
def State.routerWork (s : State) : ℕ :=
  match s.router with
  | .reading => 3
  | .acking generation _ => if generation = s.generation then 2 else 6
  | .receiving generation => if generation = s.generation then 0 else 4
  | .delivering _ _ _ => 6

/-- An acknowledgement that a steering call has yet to look at. -/
def State.readyWork (s : State) : ℕ := if s.epochReady.seen then 0 else 1

/-- The stages that are ahead of the calls, and the work in them. -/
def State.ahead (s : State) : ℕ ×ₗ ℕ :=
  toLex ((s.slots.map fun slot => slot.call.phase).sum,
    (s.slots.map Slot.work).sum + s.routerWork + s.readyWork)

/-- What goes on without the user and without anything more from the socket: neither a datagram nor
an error, as a socket whose receives keep failing sends the router round for ever. -/
def Event.Internal : Event → Prop
  | .check _ | .report _ | .drop _ | .datagram _ | .receiveError => False
  | _ => True

def Event.IsTick : Event → Prop
  | .tick _ => True
  | _ => False

/-- The client on its own. -/
def quietLts (client : CoreClient) : Lts State Event :=
  (lts client).restrict fun _ event => event.Internal

variable {client : CoreClient} {s t : State} {event : Event} {i : ℕ} {slot : Slot} {query : Query}
  {pc pc' : Request.Pc} {wake : Wake} {reply : Request.Reply}

theorem ahead_lt_iff : t.ahead < s.ahead ↔
    (t.slots.map fun slot => slot.call.phase).sum < (s.slots.map fun slot => slot.call.phase).sum ∨
      (t.slots.map fun slot => slot.call.phase).sum =
          (s.slots.map fun slot => slot.call.phase).sum ∧
        (t.slots.map Slot.work).sum + t.routerWork + t.readyWork <
          (s.slots.map Slot.work).sum + s.routerWork + s.readyWork := by
  unfold State.ahead
  exact Prod.Lex.toLex_lt_toLex

/-- A call goes to a later stage. -/
theorem ahead_lt_of_phase {slot' : Slot} (hslot : s.slots[i]? = some slot)
    (hslots : t.slots = s.slots.set i slot') (h : slot'.call.phase < slot.call.phase) :
    t.ahead < s.ahead := by
  have hsum := sum_map_set (fun slot => slot.call.phase) hslot slot'
  rw [ahead_lt_iff, hslots]
  left
  omega

/-- A call uses up more work in its stage than the router has to do for it. -/
theorem ahead_lt_of_work {slot' : Slot} (hslot : s.slots[i]? = some slot)
    (hslots : t.slots = s.slots.set i slot') (hphase : slot'.call.phase = slot.call.phase)
    (h : slot'.work + t.routerWork + t.readyWork < slot.work + s.routerWork + s.readyWork) :
    t.ahead < s.ahead := by
  have hphases := sum_map_set (fun slot => slot.call.phase) hslot slot'
  have hworks := sum_map_set Slot.work hslot slot'
  rw [ahead_lt_iff, hslots]
  right
  constructor <;> omega

/-- A step of the router. -/
theorem ahead_lt_of_router (hslots : t.slots = s.slots)
    (h : t.routerWork + t.readyWork < s.routerWork + s.readyWork) : t.ahead < s.ahead := by
  rw [ahead_lt_iff, hslots]
  right
  exact ⟨rfl, by omega⟩

theorem routerWork_of_eq (hrouter : t.router = s.router)
    (hgeneration : t.generation = s.generation) :
    t.routerWork = s.routerWork := by
  rw [State.routerWork, State.routerWork, hrouter, hgeneration]

theorem readyWork_le (h : s.epochReady.seen = true → t.epochReady.seen = true) :
    t.readyWork ≤ s.readyWork := by
  unfold State.readyWork
  by_cases hs : s.epochReady.seen
  · rw [if_pos hs, if_pos (h hs)]
  · rw [if_neg hs]
    split <;> omega

/-- A new socket sends the router round once more. -/
theorem routerWork_le_of_router (hrouter : t.router = s.router) :
    t.routerWork ≤ s.routerWork + 4 := by
  unfold State.routerWork
  rw [hrouter]
  split
  · omega
  · split <;> split <;> omega
  · split <;> split <;> omega
  · omega

/-- What a call's step means for the router. -/
theorem routerWork_move (h : (∀ flight result stats newSocket, pc ≠ .steering flight result
      (.socketWrite stats newSocket))) :
    (s.move client i slot query pc pc' wake reply).routerWork = s.routerWork := by
  refine routerWork_of_eq router_move ?_
  refine (sameSocket_move fun hreplaces => ?_).1.generation
  obtain ⟨flight, result, stats, newSocket, -, -, -, rfl, -⟩ := hreplaces.exists
  exact h _ _ _ _ rfl

theorem readyWork_move :
    (s.move client i slot query pc pc' wake reply).readyWork ≤ s.readyWork := by
  refine readyWork_le fun hseen => ?_
  unfold State.move State.steer State.replaceSocket
  dsimp only
  split
  · split
    · exact hseen
    · exact hseen
    · simp [hseen]
    · rfl
    · exact hseen
  · exact hseen

/-- A steering call saves what its step may cost the router. -/
theorem routerWork_move_steering {flight : Flight} {result : RateLimitResult}
    {steering : Steering.Pc} (h : steering.cost ≠ 0) :
    (s.move client i slot query (.steering flight result steering) pc' wake reply).routerWork <
      s.routerWork + steering.cost := by
  by_cases hwrite : ∃ stats newSocket, steering = .socketWrite stats newSocket
  · obtain ⟨stats, newSocket, rfl⟩ := hwrite
    exact Nat.lt_succ_of_le (routerWork_le_of_router router_move)
  · rw [routerWork_move]
    · omega
    · intro flight' result' stats newSocket heq
      cases heq
      exact hwrite ⟨stats, newSocket, rfl⟩

theorem ready_move_epochChanged {flight : Flight} {result : RateLimitResult}
    {stats : SteeringStats} {nextEpoch : UInt64} {actualPort : UInt16} {ready : Option UInt64} :
    (s.move client i slot query (.steering flight result (.epochChanged stats nextEpoch actualPort))
      pc' wake (.steering (.epochChanged ready))).readyWork = 0 := rfl

theorem length_tail_add_one {α : Type} {xs : List α} {x : α} (h : xs.head? = some x) :
    xs.tail.length + 1 = xs.length := by
  cases xs with
  | nil => cases h
  | cons y ys => rfl

/-- The part of `ahead` that a call's step in its stage leaves to compare. -/
theorem ahead_lt_move_of_work (hslot : s.slots[i]? = some slot)
    (hcall : slot.call = .check query pc) (hphase : pc'.phase = pc.phase)
    (hwork : pc'.work + (s.move client i slot query pc pc' wake reply).routerWork +
        (s.move client i slot query pc pc' wake reply).readyWork <
      pc.work + s.routerWork + s.readyWork) :
    (s.move client i slot query pc pc' wake reply).ahead < s.ahead := by
  refine ahead_lt_of_work hslot slots_move (by simpa [Call.phase, hcall] using hphase) ?_
  simp only [Slot.work, Call.work, hcall]
  split
  · rw [List.length_tail]
    omega
  · omega

/-- A call's step, whatever the reply, brings the client nearer to rest. -/
theorem ahead_lt_move (hslot : s.slots[i]? = some slot) (hcall : slot.call = .check query pc)
    (hreply : s.requestReply slot.channel wake = some reply)
    (hstep : Request.step client query pc reply = some pc') :
    (s.move client i slot query pc pc' wake reply).ahead < s.ahead := by
  have hanswers := answers_of_requestReply hreply
  have hready := @readyWork_move client s i slot query pc pc' wake reply
  cases Request.descends hstep with
  | later hphase =>
    exact ahead_lt_of_phase hslot slots_move (by simpa [Call.phase, hcall] using hphase)
  | @flying flight now reply' hpc hreply' hphase hwork =>
    have hrouter : (s.move client i slot query pc pc' wake reply).routerWork = s.routerWork :=
      routerWork_move fun _ _ _ _ hsteering => by cases hpc.symm.trans hsteering
    rcases hwork with hlt | ⟨⟨packet, rfl⟩, hle⟩
    · exact ahead_lt_move_of_work hslot hcall hphase (by omega)
    · subst hreply'
      obtain ⟨hhead, rfl⟩ := hanswers
      have hlength := length_tail_add_one hhead
      refine ahead_lt_of_work hslot slots_move (by simpa [Call.phase, hcall] using hphase) ?_
      simp only [Slot.work, Call.work, hcall]
      omega
  | @steering flight result steering reply' hpc hreply' hphase hwork =>
    subst hpc hreply'
    refine ahead_lt_move_of_work hslot hcall hphase ?_
    by_cases hcost : steering.cost = 0
    · cases steering with
      | epochChanged stats nextEpoch actualPort =>
        obtain ⟨ready, rfl⟩ : ∃ ready, reply' = .epochChanged ready := by
          obtain ⟨pc, hpc, -⟩ := Option.map_eq_some_iff.mp hstep
          exact Steering.reply_of_epochChanged hpc
        have hunseen : s.readyWork = 1 := by simp [State.readyWork, hanswers.2]
        rw [routerWork_move (by rintro _ _ _ _ ⟨⟩), ready_move_epochChanged, hunseen]
        simp only [Steering.Pc.cost] at hwork
        omega
      | _ => cases hcost
    · have hrouter := @routerWork_move_steering client s i slot query pc' wake (.steering reply')
        flight result steering hcost
      omega

theorem internal_descends (h : step client s event = some t) (hinternal : event.Internal)
    (htick : ¬ event.IsTick) : t.ahead < s.ahead := by
  cases moves_of_step h with
  | tick => exact absurd trivial htick
  | check | report | drop | datagram | receiveError => exact hinternal.elim
  | request hslot hdropped hcall hreply hstep => exact ahead_lt_move hslot hcall hreply hstep
  | @reporting i slot reports state wake reply state' hslot hdropped hcall hreply hstep =>
    rcases Report.descends hstep with hphase | ⟨hphase, hwork⟩
    · exact ahead_lt_of_phase hslot rfl (by simpa [Call.phase, hcall] using hphase)
    · refine ahead_lt_of_work hslot rfl (by simpa [Call.phase, hcall] using hphase) ?_
      simp only [Slot.work, Call.work, hcall]
      change state'.pc.work + 2 * slot.channel.length + s.routerWork + s.readyWork < _
      omega
  | routerRead hrouter =>
    refine ahead_lt_of_router rfl (Nat.add_lt_add_right ?_ _)
    simp [State.routerWork, hrouter]
  | @routerAck generation epoch hrouter =>
    refine ahead_lt_of_router rfl ?_
    simp only [State.routerWork, State.readyWork, hrouter]
    split <;> simp <;> omega
  | epochChanged hrouter hne =>
    refine ahead_lt_of_router rfl (Nat.add_lt_add_right ?_ _)
    simp [State.routerWork, hrouter, hne]
  | @deliver generation i packet hrouter =>
    cases hslot : s.slots[i]? with
    | none =>
      refine ahead_lt_of_router (by simp [State.deliver, hslot]) (Nat.add_lt_add_right ?_ _)
      simp [State.routerWork, hrouter]
    | some slot =>
      have hslots : s.deliver i packet =
          s.slots.set i { slot with channel := slot.channel ++ [packet] } := by
        simp [State.deliver, hslot]
      refine ahead_lt_of_work hslot hslots rfl ?_
      simp only [Slot.work, State.routerWork, State.readyWork, hrouter, List.length_append,
        List.length_singleton]
      omega

/-- A clock tick changes none of the work. -/
theorem ahead_of_tick (h : step client s event = some t) (htick : event.IsTick) :
    t.ahead = s.ahead := by
  cases event with
  | tick now =>
    cases moves_of_step h
    rfl
  | _ => exact htick.elim

/-- However the calls, the router and the clock take turns: once no datagram and no receive error
arrives and no call is made or dropped, there are finitely many steps before only the clock goes
on. -/
theorem quiet_run_ends (client : CoreClient) (states : ℕ → State) (events : ℕ → Event)
    (h : ∀ n, (quietLts client).step (states n) (events n) (states (n + 1))) :
    ∃ N, ∀ n, N ≤ n → (events n).IsTick :=
  exists_forall_of_wellFounded wellFounded_lt (f := fun n => (states n).ahead)
    (fun n htick => ahead_of_tick (h n).2 htick)
    (fun n htick => internal_descends (h n).2 (h n).1 htick)

/-- A run without the user and the socket, after which the clock stands still. -/
theorem exists_quiet_run {events : List Event} (hinternal : ∀ event ∈ events, event.Internal)
    (hrun : Lts.runSteps (step client) events s = some t) :
    ∃ states : ℕ → State, states 0 = s ∧ ∀ n, (quietLts client).step (states n)
      (events.getD n (.tick t.clock)) (states (n + 1)) := by
  induction events generalizing s with
  | nil =>
    cases hrun
    exact ⟨fun _ => t, rfl, fun n => ⟨trivial, if_pos le_rfl⟩⟩
  | cons event events ih =>
    obtain ⟨u, hu, hrun⟩ := Option.bind_eq_some_iff.mp hrun
    obtain ⟨states, rfl, hstates⟩ :=
      ih (fun other hother => hinternal other (List.mem_cons_of_mem _ hother)) hrun
    refine ⟨fun n => n.casesOn s states, rfl, fun n => ?_⟩
    cases n with
    | zero => exact ⟨hinternal event List.mem_cons_self, hu⟩
    | succ n => exact hstates n

/-- Call 0 is about to rebind, and call 1 is in flight. -/
def sampleBusy : List Event := sampleBegin 0 0 ++ sampleBegin 1 1 ++ sampleSelect 0 0

/-- Call 1 sends its replay and hears nothing; then call 0 rebinds, and the router follows. -/
def sampleQuiet : List Event :=
  [.wake 0 .storePending, .wake 0 .applyLock, .tick 100020000000, .wake 1 .elapsed,
    .wake 1 .socket, .wake 1 (.sent (.ok 100)), .wake 1 (.sent (.ok 100)), .tick 100040000000,
    .wake 1 .elapsed, .tick 100060000000, .wake 1 .elapsed] ++
  (sampleRebind 0 (fun _ _ => .ok 7) (.ok (sampleAddr 6))).drop 2 ++
  [.routerRead, .routerAck, .wake 0 .epochChanged]

theorem quiet_run_ends_sample : ∃ states : ℕ → State, (lts sampleClient).Reachable (states 0) ∧
    (states 0).guards.readers = [1] ∧
    ((states 0).pcAt 0).bind (·.steeringPc) = some .storePending ∧
      ∃ N, ∀ n, N ≤ n → (sampleQuiet.getD n (.tick 100060000000)).IsTick := by
  obtain ⟨s, hs, htest⟩ := (Option.any_eq_true _ _).mp
    (show (sampleRun sampleBusy).any (fun s => s.guards.readers = [1] ∧
      (s.pcAt 0).bind (·.steeringPc) = some .storePending ∧
        (Lts.runSteps (step sampleClient) sampleQuiet s).any (·.clock = 100060000000)) = true
      by decide +kernel)
  obtain ⟨hreaders, hsteering, hquiet⟩ := of_decide_eq_true htest
  obtain ⟨t, ht, hclock⟩ := (Option.any_eq_true _ _).mp hquiet
  obtain ⟨states, rfl, hstates⟩ := exists_quiet_run
    (by simp [sampleQuiet, sampleRebind, Event.Internal]) ht
  rw [of_decide_eq_true hclock] at hstates
  exact ⟨states, reachable_sampleRun hs, hreaders, hsteering,
    quiet_run_ends sampleClient states _ hstates⟩

end Client

end Ratelimitly
