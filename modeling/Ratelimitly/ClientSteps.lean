import Mathlib.Tactic
import Ratelimitly.Client
import Ratelimitly.Flights

/-! The steps of a client, and where they leave its calls. -/
namespace Ratelimitly

open Lib

namespace Client

/-! ### Steps of the client -/

/-- The ways a client can step. -/
inductive Moves (client : CoreClient) (s : State) : Event → State → Prop
  | tick {now} : s.clock ≤ now → Moves client s (.tick now) { s with clock := now }
  | check {query} : Moves client s (.check query)
      { s with slots := s.slots ++ [⟨.check query (Request.begin client query), [], false⟩] }
  | report {reports} : Moves client s (.report reports)
      { s with slots := s.slots ++ [⟨.report reports (Report.begin reports), [], false⟩] }
  | request {i slot query pc wake reply pc'} : s.slots[i]? = some slot → slot.dropped = false →
      slot.call = .check query pc → s.requestReply slot.channel wake = some reply →
      Request.step client query pc reply = some pc' →
      Moves client s (.wake i wake) (s.move client i slot query pc pc' wake reply)
  | reporting {i slot reports state wake reply state'} : s.slots[i]? = some slot →
      slot.dropped = false → slot.call = .report reports state → s.reportReply wake = some reply →
      Report.step client reports state reply = some state' →
      Moves client s (.wake i wake) { s with
        servers := s.refreshed client wake
        slots := s.slots.set i { slot with call := .report reports state' } }
  | drop {i slot} : s.slots[i]? = some slot → slot.suspended = true →
      Moves client s (.drop i) (s.dropCall i slot)
  | routerRead : s.router = .reading →
      Moves client s .routerRead { s with router := .acking s.generation s.epoch }
  | routerAck {generation epoch} : s.router = .acking generation epoch →
      Moves client s .routerAck
        { s with router := .receiving generation, epochReady := ⟨epoch, false⟩, acked := generation }
  | epochChanged {generation} : s.router = .receiving generation → generation ≠ s.generation →
      Moves client s .epochChanged { s with router := .reading }
  | datagram {generation packet} : s.router = .receiving generation →
      Moves client s (.datagram packet)
        { s with router := s.route generation packet, received := packet :: s.received }
  | receiveError {generation} : s.router = .receiving generation →
      Moves client s .receiveError { s with router := .reading }
  | deliver {generation i packet} : s.router = .delivering generation i packet →
      Moves client s .deliver { s with router := .reading, slots := s.deliver i packet }

variable {client : CoreClient} {s t : State} {event : Event} {i j : ℕ} {slot : Slot} {query : Query}
  {pc pc' : Request.Pc} {wake : Wake} {reply : Request.Reply} {channel : List ResponsePacket}

theorem moves_of_step (h : step client s event = some t) : Moves client s event t := by
  cases event with
  | tick now =>
    obtain ⟨hle, h⟩ := Option.ite_none_right_eq_some.mp h
    exact Option.some.inj h ▸ .tick hle
  | check query => exact Option.some.inj h ▸ .check
  | report reports => exact Option.some.inj h ▸ .report
  | wake i wake =>
    obtain ⟨slot, hslot, h⟩ := Option.bind_eq_some_iff.mp h
    split at h
    next => cases h
    next hdropped =>
      rw [Bool.not_eq_true] at hdropped
      split at h
      next query pc hcall =>
        obtain ⟨reply, hreply, h⟩ := Option.bind_eq_some_iff.mp h
        obtain ⟨pc', hstep, h⟩ := Option.bind_eq_some_iff.mp h
        exact Option.some.inj h ▸ .request hslot hdropped hcall hreply hstep
      next reports state hcall =>
        obtain ⟨reply, hreply, h⟩ := Option.bind_eq_some_iff.mp h
        obtain ⟨state', hstep, h⟩ := Option.bind_eq_some_iff.mp h
        exact Option.some.inj h ▸ .reporting hslot hdropped hcall hreply hstep
  | drop i =>
    obtain ⟨slot, hslot, h⟩ := Option.bind_eq_some_iff.mp h
    obtain ⟨hsuspended, h⟩ := Option.ite_none_right_eq_some.mp h
    exact Option.some.inj h ▸ .drop hslot hsuspended
  | routerRead =>
    dsimp only [step] at h
    split at h
    next hrouter => exact Option.some.inj h ▸ .routerRead hrouter
    next => cases h
  | routerAck =>
    dsimp only [step] at h
    split at h
    next hrouter => exact Option.some.inj h ▸ .routerAck hrouter
    next => cases h
  | epochChanged =>
    dsimp only [step] at h
    split at h
    next hrouter =>
      obtain ⟨hne, h⟩ := Option.ite_none_right_eq_some.mp h
      exact Option.some.inj h ▸ .epochChanged hrouter hne
    next => cases h
  | datagram packet =>
    dsimp only [step] at h
    split at h
    next hrouter => exact Option.some.inj h ▸ .datagram hrouter
    next => cases h
  | receiveError =>
    dsimp only [step] at h
    split at h
    next hrouter => exact Option.some.inj h ▸ .receiveError hrouter
    next => cases h
  | deliver =>
    dsimp only [step] at h
    split at h
    next hrouter => exact Option.some.inj h ▸ .deliver hrouter
    next => cases h

/-- What the shared state has to do with an answer. -/
def Answers (s : State) (channel : List ResponsePacket) (wake : Wake) : Request.Reply → Prop
  | .lastRefresh last now => last = s.servers.lastDnsRefresh ∧ now = s.clock ∧
      ∃ seed, wake = .lastRefresh seed
  | .refresh servers resolver now => servers = s.servers ∧ now = s.clock ∧
      ∃ seed, wake = .refresh resolver seed
  | .servers servers resolver => servers = s.servers.servers ∧ wake = .servers resolver
  | .activity seed now => s.guards.writer = none ∧ s.fresh seed.requestId = true ∧
      now = s.clock ∧ wake = .activity seed
  | .flight _ (.socket handle) => handle = s.generation
  | .flight _ (.received packet) => channel.head? = some packet ∧ wake = .received
  | .flight _ _ => wake ≠ .received
  | .steering (.applyLock pending) => s.guards.applying = none ∧ pending = s.steeringPending
  | .steering (.activityWrite pending) => s.guards.readers = [] ∧ s.guards.writer = none ∧
      pending = s.steeringPending ∧ wake = .activityWrite
  | .steering (.stats stats) => stats = s.stats
  | .steering (.socketRead localAddr bindUdp) => wake = .socketRead localAddr bindUdp
  | .steering (.socketWrite epoch localAddr ready) => epoch = s.epoch ∧
      ready = s.epochReady.value ∧ wake = .socketWrite localAddr
  | .steering (.epochChanged ready) => ready = some s.epochReady.value ∧ s.epochReady.seen = false
  | .steering _ => True

theorem answers_of_requestReply (h : s.requestReply channel wake = some reply) :
    Answers s channel wake reply := by
  cases wake with
  | received =>
    obtain ⟨packet, hpacket, rfl⟩ := Option.map_eq_some_iff.mp h
    exact ⟨hpacket, rfl⟩
  | activity seed =>
    obtain ⟨⟨hwriter, hfresh⟩, h⟩ := Option.ite_none_right_eq_some.mp h
    cases h
    exact ⟨hwriter, hfresh, rfl, rfl⟩
  | applyLock =>
    obtain ⟨happlying, h⟩ := Option.ite_none_right_eq_some.mp h
    cases h
    exact ⟨happlying, rfl⟩
  | activityWrite =>
    obtain ⟨⟨hreaders, hwriter⟩, h⟩ := Option.ite_none_right_eq_some.mp h
    cases h
    exact ⟨hreaders, hwriter, rfl, rfl⟩
  | socketWrite localAddr =>
    obtain ⟨-, h⟩ := Option.ite_none_left_eq_some.mp h
    cases h
    exact ⟨rfl, rfl, rfl⟩
  | epochChanged =>
    obtain ⟨hseen, h⟩ := Option.ite_none_left_eq_some.mp h
    cases h
    exact ⟨rfl, by simpa using hseen⟩
  | _ =>
    cases h
    simp [Answers]

/-! ### Where the calls are -/

/-- The point of a call to `check_rate_limit` that has not been dropped. -/
def State.pcAt (s : State) (i : ℕ) : Option Request.Pc := s.slots[i]?.bind (·.live)

theorem pcAt_of_slot (hslot : s.slots[i]? = some slot) (hdropped : slot.dropped = false)
    (hcall : slot.call = .check query pc) : s.pcAt i = some pc := by
  simp [State.pcAt, hslot, Slot.live, hdropped, hcall]

theorem exists_slot_of_pcAt (h : s.pcAt i = some pc) : ∃ slot query, s.slots[i]? = some slot ∧
    slot.dropped = false ∧ slot.call = .check query pc := by
  obtain ⟨slot, hslot, hlive⟩ := Option.bind_eq_some_iff.mp h
  unfold Slot.live at hlive
  split at hlive
  next query _ hdropped hcall =>
    cases hlive
    exact ⟨slot, query, hslot, hdropped, hcall⟩
  next => cases hlive

/-- What a replaced slot does to the points of the calls. -/
theorem pcAt_set (hslot : s.slots[i]? = some slot) {slot' : Slot}
    (h : t.slots = s.slots.set i slot') (j : ℕ) :
    t.pcAt j = if j = i then slot'.live else s.pcAt j := by
  have hlt : i < s.slots.length := by
    by_contra hge
    rw [List.getElem?_eq_none (Nat.le_of_not_lt hge)] at hslot
    cases hslot
  rw [State.pcAt, h, List.getElem?_set]
  split
  next heq =>
    subst heq
    simp
  next hne => rw [if_neg (Ne.symm hne), State.pcAt]

theorem pcAt_append {slot : Slot} (h : t.slots = s.slots ++ [slot]) (j : ℕ) :
    t.pcAt j = s.pcAt j ∨ s.pcAt j = none ∧ t.pcAt j = slot.live := by
  rw [State.pcAt, State.pcAt, h]
  rcases lt_trichotomy j s.slots.length with hlt | rfl | hgt
  · exact .inl (by rw [List.getElem?_append_left hlt])
  · exact .inr (by simp)
  · rw [List.getElem?_eq_none (by simpa using hgt), List.getElem?_eq_none hgt.le]
    exact .inl rfl

theorem pcAt_deliver {packet : ResponsePacket} (h : t.slots = s.deliver i packet) (j : ℕ) :
    t.pcAt j = s.pcAt j := by
  unfold State.deliver at h
  split at h
  next slot hslot =>
    rw [pcAt_set hslot h]
    split
    next heq => simp [State.pcAt, heq, hslot, Slot.live]
    next => rfl
  next => rw [State.pcAt, h, State.pcAt]

/-- No call moves, though one may begin. -/
structure Idle (client : CoreClient) (s t : State) : Prop where
  pcAt : ∀ j, t.pcAt j = s.pcAt j ∨
    s.pcAt j = none ∧ ∀ pc, t.pcAt j = some pc → ∃ query, pc = Request.begin client query
  guards : t.guards = s.guards
  inflight : t.inflight = s.inflight
  steeringPending : t.steeringPending = s.steeringPending
  socket : t.socket = s.socket
  epoch : t.epoch = s.epoch
  generation : t.generation = s.generation

/-- What a step of the client is for the calls of `check_rate_limit`. -/
inductive Changes (client : CoreClient) (s : State) (event : Event) (t : State) : Prop
  | idle : Idle client s t → Changes client s event t
  | request {i : ℕ} {slot : Slot} {query : Query} {pc pc' : Request.Pc} {wake : Wake}
      {reply : Request.Reply} : event = .wake i wake → s.slots[i]? = some slot →
      slot.call = .check query pc → s.pcAt i = some pc → Answers s slot.channel wake reply →
      Request.step client query pc reply = some pc' →
      (∀ j, t.pcAt j = if j = i then some pc' else s.pcAt j) →
      t = s.move client i slot query pc pc' wake reply → Changes client s event t
  | drop {i : ℕ} {slot : Slot} : event = .drop i → s.slots[i]? = some slot → slot.suspended = true →
      (∀ j, t.pcAt j = if j = i then none else s.pcAt j) → t = s.dropCall i slot →
      Changes client s event t

theorem slots_move : (s.move client i slot query pc pc' wake reply).slots =
    s.slots.set i { slot with
      call := .check query pc'
      channel := match wake with | .received => slot.channel.tail | _ => slot.channel } := by
  unfold State.move
  rfl

theorem router_move :
    (s.move client i slot query pc pc' wake reply).router = s.router := by
  unfold State.move State.steer
  dsimp only
  split
  · split <;> rfl
  · rfl

theorem acked_move : (s.move client i slot query pc pc' wake reply).acked = s.acked := by
  unfold State.move State.steer
  dsimp only
  split
  · split <;> rfl
  · rfl

theorem received_move : (s.move client i slot query pc pc' wake reply).received = s.received := by
  unfold State.move State.steer
  dsimp only
  split
  · split <;> rfl
  · rfl

theorem pcAt_move (hslot : s.slots[i]? = some slot) (hdropped : slot.dropped = false) (j : ℕ) :
    (s.move client i slot query pc pc' wake reply).pcAt j =
      if j = i then some pc' else s.pcAt j := by
  rw [pcAt_set hslot slots_move]
  simp [Slot.live, hdropped]

theorem pcAt_dropCall (hslot : s.slots[i]? = some slot) (j : ℕ) :
    (s.dropCall i slot).pcAt j = if j = i then none else s.pcAt j := by
  rw [pcAt_set hslot rfl]
  simp [Slot.live]

theorem idle_of_slots (hslots : t.slots = s.slots) (hguards : t.guards = s.guards)
    (hinflight : t.inflight = s.inflight) (hpending : t.steeringPending = s.steeringPending)
    (hsocket : t.socket = s.socket) (hepoch : t.epoch = s.epoch)
    (hgeneration : t.generation = s.generation) : Idle client s t :=
  ⟨fun j => .inl (by rw [State.pcAt, hslots, State.pcAt]), hguards, hinflight, hpending, hsocket,
    hepoch, hgeneration⟩

theorem idle_check (query : Query) : Idle client s
    { s with slots := s.slots ++ [⟨.check query (Request.begin client query), [], false⟩] } := by
  refine ⟨fun j => ?_, rfl, rfl, rfl, rfl, rfl, rfl⟩
  refine (pcAt_append rfl j).imp_right fun hj => ⟨hj.1, fun pc hpc => ?_⟩
  rw [hj.2] at hpc
  exact ⟨query, (Option.some.inj hpc).symm⟩

theorem idle_report (reports : List ServiceLatencyReport) : Idle client s
    { s with slots := s.slots ++ [⟨.report reports (Report.begin reports), [], false⟩] } := by
  refine ⟨fun j => ?_, rfl, rfl, rfl, rfl, rfl, rfl⟩
  refine (pcAt_append rfl j).imp_right fun hj => ⟨hj.1, fun pc hpc => ?_⟩
  rw [hj.2] at hpc
  cases hpc

theorem idle_reporting {reports : List ServiceLatencyReport} {state state' : Report.State}
    {servers : ServerList} (hslot : s.slots[i]? = some slot) (hcall : slot.call = .report reports state) :
    Idle client s { s with
      servers
      slots := s.slots.set i { slot with call := .report reports state' } } := by
  refine ⟨fun j => .inl ?_, rfl, rfl, rfl, rfl, rfl, rfl⟩
  rw [pcAt_set hslot rfl]
  split
  next heq => simp [State.pcAt, heq, hslot, Slot.live, hcall]
  next => rfl

theorem idle_deliver (packet : ResponsePacket) :
    Idle client s { s with router := .reading, slots := s.deliver i packet } :=
  ⟨fun j => .inl (pcAt_deliver rfl j), rfl, rfl, rfl, rfl, rfl, rfl⟩

theorem changes_of_step (h : step client s event = some t) : Changes client s event t := by
  cases moves_of_step h with
  | tick | routerRead | routerAck | epochChanged | datagram | receiveError =>
    exact .idle (idle_of_slots rfl rfl rfl rfl rfl rfl rfl)
  | check => exact .idle (idle_check _)
  | report => exact .idle (idle_report _)
  | deliver => exact .idle (idle_deliver _)
  | request hslot hdropped hcall hreply hstep =>
    exact .request rfl hslot hcall (pcAt_of_slot hslot hdropped hcall)
      (answers_of_requestReply hreply) hstep (pcAt_move hslot hdropped) rfl
  | reporting hslot hdropped hcall => exact .idle (idle_reporting hslot hcall)
  | drop hslot hsuspended => exact .drop rfl hslot hsuspended (pcAt_dropCall hslot) rfl

/-! ### Calls of the client and calls by themselves -/

/-- Where a slot comes from. -/
inductive Origin (client : CoreClient) (s : State) (event : Event) (i : ℕ) : Slot → Prop
  | kept {slot : Slot} : s.slots[i]? = some slot → Origin client s event i slot
  | check (query : Query) : s.slots[i]? = none →
      Origin client s event i ⟨.check query (Request.begin client query), [], false⟩
  | report (reports : List ServiceLatencyReport) : s.slots[i]? = none →
      Origin client s event i ⟨.report reports (Report.begin reports), [], false⟩
  | request {slot : Slot} {query : Query} {pc pc' : Request.Pc} {wake : Wake}
      {reply : Request.Reply} : s.slots[i]? = some slot → slot.dropped = false →
      slot.call = .check query pc → event = .wake i wake →
      s.requestReply slot.channel wake = some reply →
      Request.step client query pc reply = some pc' → Origin client s event i { slot with
        call := .check query pc'
        channel := match wake with | .received => slot.channel.tail | _ => slot.channel }
  | reporting {slot : Slot} {reports : List ServiceLatencyReport} {state state' : Report.State}
      {wake : Wake} {reply : Report.Reply} : s.slots[i]? = some slot →
      slot.call = .report reports state → event = .wake i wake → s.reportReply wake = some reply →
      Report.step client reports state reply = some state' →
      Origin client s event i { slot with call := .report reports state' }
  | drop {slot : Slot} : s.slots[i]? = some slot → event = .drop i →
      Origin client s event i { slot with dropped := true }
  | deliver {slot : Slot} {generation : ℕ} {packet : ResponsePacket} : s.slots[i]? = some slot →
      s.router = .delivering generation i packet →
      Origin client s event i { slot with channel := slot.channel ++ [packet] }

theorem slots_set_of_getElem? {slots : List Slot} {slot' new : Slot}
    (h : (slots.set i new)[j]? = some slot') :
    j = i ∧ slot' = new ∨ j ≠ i ∧ slots[j]? = some slot' := by
  rw [List.getElem?_set] at h
  split at h
  next heq =>
    split at h
    next => exact .inl ⟨heq.symm, (Option.some.inj h).symm⟩
    next => cases h
  next hne => exact .inr ⟨Ne.symm hne, h⟩

theorem origin_of_step (hstep : step client s event = some t) (h : t.slots[j]? = some slot) :
    Origin client s event j slot := by
  have happend {slot' : Slot} (h : (s.slots ++ [slot'])[j]? = some slot)
      (hnew : s.slots[j]? = none → Origin client s event j slot') : Origin client s event j slot := by
    rcases lt_trichotomy j s.slots.length with hlt | rfl | hgt
    · rw [List.getElem?_append_left hlt] at h
      exact .kept h
    · rw [List.getElem?_concat_length] at h
      exact Option.some.inj h ▸ hnew (List.getElem?_eq_none le_rfl)
    · rw [List.getElem?_eq_none (by simpa using hgt)] at h
      cases h
  cases moves_of_step hstep with
  | tick | routerRead | routerAck | epochChanged | datagram | receiveError => exact .kept h
  | check => exact happend h (.check _)
  | report => exact happend h (.report _)
  | request hslot hdropped hcall hreply hrequest =>
    rw [slots_move] at h
    rcases slots_set_of_getElem? h with ⟨rfl, rfl⟩ | ⟨-, h⟩
    · exact .request hslot hdropped hcall rfl hreply hrequest
    · exact .kept h
  | reporting hslot _ hcall hreply hreport =>
    rcases slots_set_of_getElem? h with ⟨rfl, rfl⟩ | ⟨-, h⟩
    · exact .reporting hslot hcall rfl hreply hreport
    · exact .kept h
  | drop hslot =>
    rcases slots_set_of_getElem? h with ⟨rfl, rfl⟩ | ⟨-, h⟩
    · exact .drop hslot rfl
    · exact .kept h
  | @deliver generation i packet hrouter =>
    replace h : (s.deliver i packet)[j]? = some slot := h
    unfold State.deliver at h
    split at h
    next hslot =>
      rcases slots_set_of_getElem? h with ⟨rfl, rfl⟩ | ⟨-, h⟩
      · exact .deliver hslot hrouter
      · exact .kept h
    next => exact .kept h

/-- A call that was started stays in the list. -/
theorem length_slots_of_step (hstep : step client s event = some t) :
    s.slots.length ≤ t.slots.length := by
  cases moves_of_step hstep with
  | check | report => simp
  | request => simp [slots_move]
  | reporting => simp
  | drop => simp [State.dropCall]
  | deliver =>
    unfold State.deliver
    dsimp only
    split <;> simp
  | _ => exact le_rfl

/-- The call is where it can be by itself. -/
def Call.Reachable (client : CoreClient) : Call → Prop
  | .check query pc => (Request.lts client query).Reachable pc
  | .report reports state => (Report.lts client reports).Reachable state

theorem calls_reachable (h : (lts client).Reachable s) :
    ∀ (i : ℕ) (slot : Slot), s.slots[i]? = some slot → slot.call.Reachable client := by
  refine h.invariant (P := fun s => ∀ (i : ℕ) (slot : Slot), s.slots[i]? = some slot →
    slot.call.Reachable client) ?_ ?_
  · rintro s ⟨bindUdp, now, hnew⟩ i slot hslot
    obtain ⟨socket, -, -, -, rfl⟩ := new_eq_ok_iff.mp hnew
    simp [start] at hslot
  · intro s event t _ hs hstep j slot hslot
    cases origin_of_step hstep hslot with
    | kept hold => exact hs _ _ hold
    | @drop old hold =>
      have hcall : old.call.Reachable client := hs j old hold
      exact hcall
    | @deliver old _ _ hold =>
      have hcall : old.call.Reachable client := hs j old hold
      exact hcall
    | check => exact .init rfl
    | report => exact .init rfl
    | request hold _ hcall _ _ hrequest =>
      have hpc := hs _ _ hold
      rw [hcall] at hpc
      exact Lts.Reachable.step hpc hrequest
    | reporting hold hcall _ _ hreport =>
      have hstate := hs _ _ hold
      rw [hcall] at hstate
      exact Lts.Reachable.step hstate hreport

theorem request_reachable (h : (lts client).Reachable s) (hpc : s.pcAt i = some pc) :
    ∃ query, (Request.lts client query).Reachable pc := by
  obtain ⟨slot, hslot, hlive⟩ := Option.bind_eq_some_iff.mp hpc
  have hcall := calls_reachable h i slot hslot
  unfold Slot.live at hlive
  split at hlive
  next query pc' _ heq =>
    cases hlive
    rw [heq] at hcall
    exact ⟨query, hcall⟩
  next => cases hlive

/-! ### Runs of the sample client -/

/-- Two servers at one address. -/
def sampleResolver : Resolver where
  srvLookup _ := .ok [.srv "s-1.example." 1, .srv "s-2.example." 2]
  lookupIp _ := .ok [loopback]

/-- The sample client, built 100 seconds after the earliest instant. -/
def sampleState : State := start sampleClient.config ⟨some 0, some 1⟩ 100000000000

def sampleSeedOf (id : UInt8) : PacketSeed := ⟨.ofList 16 [id], .ofList 12 [], 1000⟩

/-- The older server's grant, which advises a port change. -/
def sampleAnswer (id : UInt8) : ResponsePacket where
  data := [82, 76, 40, 0, 1, 0, 0, 0, 0, 0, 0, 0] ++ id :: List.replicate 27 0 ++ [78, 65, 4, 0] ++
    [82, 82, 12, 0, 0, 0, 0, 0, 0, 0, 0, 0]
  addr := sampleAddr 1

def sampleRun (events : List Event) : Option State :=
  Lts.runSteps (step sampleClient) events sampleState

/-- Call `i` starts and broadcasts; the first one runs discovery. -/
def sampleBegin (i : ℕ) (id : UInt8) : List Event :=
  let seed := sampleSeedOf id
  [.check sampleQuery, .wake i (.lastRefresh seed)] ++
    (if i = 0 then [.wake i (.refresh sampleResolver seed)] else []) ++
    [.wake i (.servers sampleResolver), .wake i (.activity seed), .wake i .socket,
      .wake i (.sent (.ok 100)), .wake i (.sent (.ok 100))]

/-- Call `i` selects the answer that the router delivers, and sends its completion. -/
def sampleSelect (i : ℕ) (id : UInt8) : List Event :=
  [.routerRead, .routerAck, .datagram (sampleAnswer id), .deliver, .wake i .received,
    .wake i .stats, .wake i .socket, .wake i (.sent (.ok 100))]

/-- The rebind of call `i`, up to the replaced socket. -/
def sampleRebind (i : ℕ) (bindUdp : BindUdp) (localAddr : Except IoError SocketAddr) : List Event :=
  [.wake i .storePending, .wake i .applyLock, .wake i .activityWrite, .wake i .steeringStats,
    .wake i (.socketRead (.ok (sampleAddr 5)) bindUdp), .wake i .epochReadyLock,
    .wake i (.socketWrite localAddr)]

theorem init_sampleState : (lts sampleClient).init sampleState :=
  ⟨fun _ ipv6 => .ok (if ipv6 then 1 else 0), 100000000000,
    new_eq_ok_iff.mpr ⟨⟨some 0, some 1⟩, 60, rfl, by decide +kernel, rfl⟩⟩

theorem reachable_sampleRun {events : List Event} (h : sampleRun events = some s) :
    (lts sampleClient).Reachable s :=
  (Lts.Run.of_runSteps (m := lts sampleClient) (fun _ _ _ _ h => h) h).reachable
    (.init init_sampleState)

theorem run_restrict_sampleRun {C : State → Event → Prop} {events : List Event}
    (hC : ∀ event ∈ events, ∀ s, C s event) (h : sampleRun events = some s) :
    ((lts sampleClient).restrict C).Run sampleState events s :=
  .of_runSteps (fun event hevent u _ hstep => ⟨hC event hevent u, hstep⟩) h

end Client

end Ratelimitly
