import Mathlib.Tactic
import Ratelimitly.Authenticity
import Ratelimitly.Request
import Ratelimitly.SendSchedule

/-! What a call has established by the time it is registered, and how it ends. -/
namespace Ratelimitly

open Lib Rounds

namespace Registration

variable {reg : Registration} {s : State} {result selected : RateLimitResult}

/-- An effect that happens once has one entry. -/
theorem Books.eq_of_once (h : reg.Books s) {e e' : Entry} (he : e ∈ s.log) (he' : e' ∈ s.log)
    (honce : e.effect.Once) (honce' : e'.effect.Once)
    (hrank : e.effect.rank reg.lastRound = e'.effect.rank reg.lastRound) : e = e' := by
  obtain ⟨newer, older, hs⟩ := List.append_of_mem he
  rw [hs, List.mem_append, List.mem_cons] at he'
  rcases he' with he' | rfl | he'
  · have hordered := h.ordered
    rw [hs] at hordered
    have hlt := (List.pairwise_append.mp hordered).2.2 e' he' e List.mem_cons_self
    exact absurd (hlt.2 honce') (by omega)
  · rfl
  · exact absurd ((h.rank_le hs he').2 honce) (by omega)

theorem Books.decided_unique (h : reg.Books s)
    {outcome outcome' : Outcome CoreError (Option RateLimitResult)}
    (hd : Logged s.log (.decided outcome)) (hd' : Logged s.log (.decided outcome')) :
    outcome = outcome' := by
  obtain ⟨e, he, heff⟩ := hd
  obtain ⟨e', he', heff'⟩ := hd'
  have heq := h.eq_of_once he he' (by simp [heff, Effect.Once]) (by simp [heff', Effect.Once])
    (by simp [heff, heff', Effect.rank])
  rw [heq, heff'] at heff
  cases heff
  rfl

/-- The round loop has selected this response. -/
def Selected (s : State) (result : RateLimitResult) : Prop :=
  Logged s.log (.decided (.ok (some result)))

/-- A request that has selected a response is settled or at its completion delivery. -/
theorem Booked.settled_or_completing (h : reg.Booked s) (hselected : Selected s result) :
    s.pc = .settled result ∨ Delivering s (.completion result) := by
  have hnone {b : ℕ} (hb : b < 2 * reg.lastRound + 4) (hupto : Upto reg.lastRound b s.log) :
      False := by
    obtain ⟨e, he, heff⟩ := hselected
    have hle := hupto e he
    simp only [heff, Effect.rank] at hle
    omega
  have hdelivering {delivery : Delivery} {rest : List SocketAddr}
      (hd : reg.DeliveryBooks s rest delivery) : delivery = .completion result := by
    cases delivery with
    | round k =>
      have hk := hd.1
      exact (hnone (by omega) hd.2.1).elim
    | completion selected =>
      have heq := h.books.decided_unique hselected hd.2.2.2.1
      cases heq
      rfl
  have hpc := h.pc
  unfold PcBooks at hpc
  unfold Delivering
  cases hs : s.pc with
  | sendSocket delivery =>
    rw [hs] at hpc
    exact .inr (hdelivering hpc.1)
  | sending delivery | recordFailures delivery =>
    rw [hs] at hpc
    exact .inr (hdelivering hpc)
  | receiving window =>
    rw [hs] at hpc
    exact (hnone (by omega) hpc.upto).elim
  | accepting window =>
    rw [hs] at hpc
    exact (hnone (by omega) hpc.1).elim
  | settled selected =>
    rw [hs] at hpc
    have heq := h.books.decided_unique hselected hpc.2.1
    cases heq
    exact .inl rfl
  | returned outcome =>
    rw [hs] at hpc
    obtain ⟨-, -, decided, hdecided, hconcludes⟩ := hpc
    obtain rfl := h.books.decided_unique hselected hdecided
    exact hconcludes.elim

theorem Booked.selected_of_settled (h : reg.Booked s) (hs : s.pc = .settled result) :
    Selected s result := by
  have hpc := h.pc
  rw [PcBooks, hs] at hpc
  exact hpc.2.1

/-- The round loop returns by itself only without a response. -/
theorem Booked.returned_ne_ok (h : reg.Booked s) {outcome : Outcome CoreError RateLimitResult}
    (hs : s.pc = .returned outcome) (result : RateLimitResult) : outcome ≠ .ok result := by
  rintro rfl
  have hpc := h.pc
  rw [PcBooks, hs] at hpc
  obtain ⟨-, -, decided, -, hconcludes⟩ := hpc
  cases decided with
  | ok selected => cases selected <;> cases hconcludes
  | err | panic => cases hconcludes

/-- A selected response was accepted from some datagram. -/
theorem Booked.justified (h : reg.Booked s) (hselected : Selected s result) :
    ∃ packet, Logged s.log (.accepted packet result) ∧
      reg.acceptedResult packet = some result := by
  obtain ⟨e, he, heff⟩ := hselected
  obtain ⟨older, ⟨newer, hs⟩, hp⟩ := h.books.permitted.of_mem he
  rw [Permitted, heff] at hp
  obtain ⟨packet, e', he', heff'⟩ := hp
  have hmem : e' ∈ s.log := by
    rw [hs]
    simp [he']
  obtain ⟨older', -, hp'⟩ := h.books.permitted.of_mem hmem
  rw [Permitted, heff'] at hp'
  exact ⟨packet, ⟨e', hmem, heff'⟩, hp'⟩

end Registration

namespace Request

variable {client : CoreClient} {query : Query} {pc pc' : Pc} {reply : Reply} {flight : Flight}

/-- The policy's horizon, as the call has computed it. -/
def Horizon (client : CoreClient) (dedupTtlMs : UInt32) : Prop :=
  client.config.requestPolicy.horizonMs client.config.apiKey.limits.dedupTtlMsMax = .ok dedupTtlMs

/-- The packet of the call for the given draws. -/
def packetOf (client : CoreClient) (query : Query) (dedupTtlMs : UInt32) (seed : PacketSeed) :
    Outcome CoreError (List UInt8) :=
  buildRateRequestPacket client.crypto client.config.apiKey seed dedupTtlMs query.resources
    query.guards query.metricsLabel

/-- The registration is the one this call makes with its packet. -/
structure Registered (client : CoreClient) (query : Query) (reg : Registration) : Prop where
  horizon : Horizon client reg.dedupTtlMs
  targets : reg.resolved.targets ≠ []
  packet : ∃ seed, packetOf client query reg.dedupTtlMs seed = .ok reg.packet ∧
    reg = registration client reg.dedupTtlMs reg.resolved seed reg.startedAt reg.packet

/-- A flight that this call can have. -/
structure Sound (client : CoreClient) (query : Query) (flight : Flight) : Prop where
  registered : Registered client query flight.reg
  reachable : flight.reg.lts.Reachable flight.state

/-- How a call ends that has left its round loop. -/
inductive Ends (s : State) (outcome : Outcome CoreError RateLimitResult) : Prop
  | unselected : s.pc = .returned outcome → Ends s outcome
  | steered {result} : s.pc = .settled result → outcome = .ok result → Ends s outcome
  | unsteered {result error} : s.pc = .settled result → outcome = .err error → Ends s outcome

def Pc.Sound (client : CoreClient) (query : Query) : Pc → Prop
  | .refreshCheck dedupTtlMs | .refreshing dedupTtlMs | .resolving dedupTtlMs =>
    Horizon client dedupTtlMs
  | .entering dedupTtlMs resolved => Horizon client dedupTtlMs ∧ resolved.targets ≠ []
  | .flying flight => Request.Sound client query flight ∧
      (∀ result, flight.state.pc ≠ .settled result) ∧
      ∀ outcome, flight.state.pc ≠ .returned outcome
  | .steering flight result pc => Request.Sound client query flight ∧
      flight.state.pc = .settled result ∧ ∀ result stats, pc ≠ .done result stats
  | .returned (some flight) outcome => Request.Sound client query flight ∧ Ends flight.state outcome
  | .returned none outcome => ∀ result, outcome = .ok result →
      query.resources = [] ∧ query.guards = [] ∧ result = localGrant

theorem sound_begin : (begin client query).Sound client query := by
  unfold begin
  dsimp only
  split
  · simp [Pc.Sound]
  · simp [Pc.Sound]
  · split
    next hempty =>
      rintro _ ⟨⟩
      exact ⟨hempty.1, hempty.2, rfl⟩
    next =>
      split
      · simp [Pc.Sound]
      · simp [Pc.Sound]
      next hhorizon => exact hhorizon

theorem sound_enter {dedupTtlMs : UInt32} (h : Horizon client dedupTtlMs)
    (servers : List ServerEndpoint) (resolver : Resolver) :
    (enter client dedupTtlMs servers resolver).Sound client query := by
  unfold enter
  split
  · simp [Pc.Sound]
  · simp [Pc.Sound]
  · split
    · simp [Pc.Sound]
    next hne => exact ⟨h, hne⟩

theorem sound_register {dedupTtlMs : UInt32} {resolved : ResolvedTargets}
    (h : Horizon client dedupTtlMs) (hne : resolved.targets ≠ []) (seed : PacketSeed) (now : ℕ) :
    (register client query dedupTtlMs resolved seed now).Sound client query := by
  unfold register
  split
  · simp [Pc.Sound]
  · simp [Pc.Sound]
  next packet hpacket =>
    refine ⟨⟨⟨h, hne, seed, hpacket, rfl⟩, .init rfl⟩, ?_, ?_⟩ <;> simp [Registration.start]

theorem sound_steer {result : RateLimitResult} (h : Sound client query flight)
    (hs : flight.state.pc = .settled result) (pc : Steering.Pc) :
    (steer flight result pc).Sound client query := by
  unfold steer
  split
  · exact ⟨h, .steered hs rfl⟩
  next error _ => exact ⟨h, .unsteered hs rfl⟩
  next hok herror =>
    refine ⟨h, hs, ?_⟩
    rintro (error | ⟨⟨⟩⟩) stats rfl
    · exact herror error stats rfl
    · exact hok stats rfl

theorem sound_leaveFlight (h : Sound client query flight) :
    (leaveFlight client flight).Sound client query := by
  unfold leaveFlight
  split
  next hs => exact sound_steer h hs _
  next hs => exact ⟨h, .unselected hs⟩
  next hsettled hreturned => exact ⟨h, hsettled, hreturned⟩

theorem sound_steps (h : pc.Sound client query) (hstep : Steps client query pc reply pc') :
    pc'.Sound client query := by
  cases hstep with
  | lastRefresh => split <;> exact h
  | refreshed => exact h
  | unrefreshed hne => exact fun result heq => absurd heq (hne result)
  | servers => exact sound_enter h _ _
  | activity => exact sound_register h.1 h.2 _ _
  | flight hflight => exact sound_leaveFlight ⟨h.1.registered, h.1.reachable.step (i := (_, _)) hflight⟩
  | steering => exact sound_steer h.1 h.2.1 _

theorem sound_reachable (h : (lts client query).Reachable pc) : pc.Sound client query := by
  refine h.invariant ?_ ?_
  · rintro _ rfl
    exact sound_begin
  · intro pc reply pc' _ hpc hstep
    exact sound_steps hpc (steps_of_step hstep)

/-- Whatever flight a call has or had is one it can have. -/
theorem sound_flight (h : (lts client query).Reachable pc) (hflight : pc.flight = some flight) :
    Sound client query flight := by
  have hsound := sound_reachable h
  unfold Pc.flight at hflight
  split at hflight
  · cases hflight
    exact hsound.1
  · cases hflight
    exact hsound.1
  · subst hflight
    exact hsound.1
  · cases hflight

def Pc.Returned (pc : Pc) : Prop := ∃ flight outcome, pc = .returned flight outcome

/-! ### Steps of a flight -/

@[simp] theorem flight_steer (flight : Flight) (result : RateLimitResult) (pc : Steering.Pc) :
    (steer flight result pc).flight = some flight := by
  unfold steer
  split <;> rfl

@[simp] theorem flight_leaveFlight (flight : Flight) :
    (leaveFlight client flight).flight = some flight := by
  unfold leaveFlight
  split
  · exact flight_steer _ _ _
  · rfl
  · rfl

@[simp] theorem flight_begin : (begin client query).flight = none := by
  unfold begin
  dsimp only
  split
  · rfl
  · rfl
  · split
    · rfl
    · split <;> rfl

@[simp] theorem flight_enter (dedupTtlMs : UInt32) (servers : List ServerEndpoint)
    (resolver : Resolver) : (enter client dedupTtlMs servers resolver).flight = none := by
  unfold enter
  split
  · rfl
  · rfl
  · split <;> rfl

/-- A request is registered when its packet is built, and not otherwise. -/
theorem flight_register (dedupTtlMs : UInt32) (resolved : ResolvedTargets) (seed : PacketSeed)
    (now : ℕ) : (register client query dedupTtlMs resolved seed now).flight =
      match packetOf client query dedupTtlMs seed with
      | .ok packet =>
        let reg := registration client dedupTtlMs resolved seed now packet
        some ⟨reg, reg.start⟩
      | _ => none := by
  unfold register packetOf
  split <;> simp_all [Pc.flight]

/-- A flight starts when a packet is built, and changes by steps of its round loop only. -/
theorem flight_of_steps (hstep : Steps client query pc reply pc') (hflight : pc'.flight = some flight) :
    pc.flight = some flight ∨
      (∃ state now r, pc = .flying ⟨flight.reg, state⟩ ∧ reply = .flight now r ∧
        flight.reg.step state now r = some flight.state) ∨
      ∃ dedupTtlMs resolved seed now packet, pc = .entering dedupTtlMs resolved ∧
        reply = .activity seed now ∧ packetOf client query dedupTtlMs seed = .ok packet ∧
        flight.reg = registration client dedupTtlMs resolved seed now packet ∧
        flight.state = flight.reg.start := by
  cases hstep with
  | lastRefresh => split at hflight <;> cases hflight
  | refreshed => cases hflight
  | unrefreshed => cases hflight
  | servers =>
    rw [flight_enter] at hflight
    cases hflight
  | @activity dedupTtlMs resolved seed now =>
    rw [flight_register] at hflight
    split at hflight
    next packet hpacket =>
      cases hflight
      exact .inr (.inr ⟨_, _, _, _, packet, rfl, rfl, hpacket, rfl, rfl⟩)
    next => cases hflight
  | flight hstep =>
    rw [flight_leaveFlight] at hflight
    cases hflight
    exact .inr (.inl ⟨_, _, _, rfl, rfl, hstep⟩)
  | steering =>
    rw [flight_steer] at hflight
    exact .inl hflight

end Request

/-! ### A sample client of two servers -/

/-- An address text that is known for one address only. -/
def sampleIpText : IpText where
  toText _ := "127.0.0.1"
  parse text := if text = "127.0.0.1" then some loopback else none

def sampleClient : CoreClient where
  crypto := sampleCrypto
  ipText := sampleIpText
  config := ⟨sampleApiKey, 60, false, .default⟩

def sampleQuery : Query := ⟨[sampleResource], [], none⟩

def sampleServers : List ServerEndpoint :=
  [⟨"127.0.0.1", 1, some 1⟩, ⟨"127.0.0.1", 2, some 2⟩]

/-- The replies up to the registration at time 0, and those of a round-0 broadcast to both servers. -/
def sampleStart : List Request.Reply :=
  [.lastRefresh 0 0, .servers sampleServers ⟨fun _ => .ok [], fun _ => .ok []⟩,
    .activity sampleSeed 0, .flight 0 (.socket 0), .flight 0 (.sent (.ok 100)),
    .flight 0 (.sent (.ok 100))]

/-- The sample call after the given replies. -/
def sampleCall (replies : List Request.Reply) : Option Request.Pc :=
  Lts.runSteps (Request.step sampleClient sampleQuery) replies
    (Request.begin sampleClient sampleQuery)

theorem reachable_sampleCall {replies : List Request.Reply} {pc : Request.Pc}
    (h : sampleCall replies = some pc) :
    (Request.lts sampleClient sampleQuery).Reachable pc :=
  (Lts.Run.of_runSteps (m := Request.lts sampleClient sampleQuery) (fun _ _ _ _ h => h) h).reachable
    (.init rfl)

/-- The call is in its rounds and has the effect in its log. -/
def Request.Pc.flyingLogged (pc : Request.Pc) (effect : Rounds.Effect) : Bool :=
  match pc with
  | .flying flight => flight.state.log.any (·.effect = effect)
  | _ => false

end Ratelimitly
