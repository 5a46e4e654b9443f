import Mathlib.Tactic
import Ratelimitly.Inflight
import Ratelimitly.Response
import Ratelimitly.StoredServers

/-! What a returned response rests on. -/
namespace Ratelimitly

open Lib

/-- A request without resources and guards. -/
def Query.Empty (query : Query) : Prop := query.resources = [] ∧ query.guards = []

namespace Client

variable {client : CoreClient} {s t : State} {event : Event} {i : ℕ} {query : Query}
  {flight : Option Flight} {result : RateLimitResult} {channel : List ResponsePacket} {id : UInt64}

/-- A call has returned this result. -/
def Returns (s : State) (i : ℕ) (query : Query) (flight : Option Flight)
    (result : RateLimitResult) : Prop :=
  ∃ channel, s.slots[i]? = some ⟨.check query (.returned flight (.ok result)), channel, false⟩

/-- The result was accepted from this datagram, which the router has received and which names the
request and a server of its snapshot. -/
structure Justifies (client : CoreClient) (s : State) (flight : Option Flight)
    (result : RateLimitResult) (packet : ResponsePacket) (header : TenantHeader) : Prop where
  received : packet ∈ s.received
  parsed : parseRateResponseWithAuth client.crypto packet.data client.config.apiKey.authMethod
    client.config.apiKey.authMethod.cookieHashCache client.config.apiKey.authMethod.aesKeyCache =
      .ok result
  tenant : ∃ pos, parseTenantHeader packet.data = .ok (header, pos)
  own : ∃ flying, flight = some flying ∧ header.uniqueId = flying.reg.requestId ∧
    header.keyId ∈ flying.reg.resolved.allowedServerIds ∧
    Registration.Logged flying.state.log (.accepted packet result)

theorem Justifies.serverId_eq {packet : ResponsePacket} {header : TenantHeader}
    (h : Justifies client s flight result packet header) : result.serverId = header.keyId := by
  obtain ⟨pos, htenant⟩ := h.tenant
  obtain ⟨header', pos', hheader', hid⟩ := exists_header_of_parse h.parsed
  cases htenant.symm.trans hheader'
  exact hid

/-- A result comes from the local answer to an empty request or from a datagram. -/
theorem justified_of_returns (h : (lts client).Reachable s)
    (hreturns : Returns s i query flight result) :
    (flight = none ∧ query.Empty ∧ result = Request.localGrant) ∨
      ∃ packet header, Justifies client s flight result packet header := by
  obtain ⟨channel, hslot⟩ := hreturns
  have hreachable := calls_reachable h i _ hslot
  have hsound := Request.sound_reachable hreachable
  cases flight with
  | none =>
    obtain ⟨hresources, hguards, rfl⟩ := hsound result rfl
    exact .inl ⟨rfl, ⟨hresources, hguards⟩, rfl⟩
  | some flying =>
    right
    obtain ⟨hflying, hends⟩ := hsound
    have hbooked := Registration.booked_reachable hflying.reachable
    have hselected : Registration.Selected flying.state result := by
      cases hends with
      | unselected hs => exact absurd rfl (hbooked.returned_ne_ok hs result)
      | steered hs heq =>
        cases heq
        exact hbooked.selected_of_settled hs
      | unsteered _ heq => cases heq
    obtain ⟨packet, hlogged, haccepted⟩ := hbooked.justified hselected
    obtain ⟨hparsed, header, pos, htenant, hid, hallowed⟩ := Registration.acceptedResult_spec haccepted
    obtain ⟨seed, -, hreg⟩ := hflying.registered.packet
    obtain ⟨e, he, heff⟩ := hlogged
    have hmeant := ((delivered_reachable h).accepted i _ query _ flying hslot rfl rfl).log e he
    rw [heff] at hmeant
    obtain ⟨hreceived, id, hpeek, hown⟩ := hmeant
    rw [requestIdAt_of_slot hslot] at hown
    cases hown
    have hpc : s.pcAt i = some (.returned (some flying) (.ok result)) :=
      pcAt_of_slot hslot rfl rfl
    obtain ⟨-, -, hne⟩ := closed_snapshot h hpc (Request.snapshot_of_flight rfl)
    refine ⟨packet, header, hreceived, ?_, ⟨pos, htenant⟩, flying, rfl, ?_, hallowed hne, e, he, heff⟩
    · rw [hreg] at hparsed
      exact hparsed
    · exact Outcome.ok.inj ((peekRequestId_of_header htenant).symm.trans hpeek)

/-- Whatever datagrams arrive and however requests start, stop or are dropped: a non-empty request
returns a result only of a datagram that carries its id and the id of a server of its snapshot and is
accepted under the client's credential, and the response is what that datagram says. The ids in
`inflight` are those of the requests that are registered and have not ended. -/
theorem answers_justified (client : CoreClient) :
    (∀ s i query flight result, (lts client).Reachable s → Returns s i query flight result →
      ¬ query.Empty → ∃ packet header, Justifies client s flight result packet header ∧
        ∃ T A P p, packet.data = T ++ A ++ P ∧ IsTenantTlv T ∧
          Authenticated client.crypto T client.config.apiKey.authMethod A P p ∧ IsRateResponse p ∧
          (Response.ofResult result).resourceResults = (resourceBlocks p).map (fun block =>
            ⟨block.bucketId, block.tokensRequested, block.rateLimit⟩) ∧
          (Response.ofResult result).guardResults = (guardBlocks p).map (fun block =>
            ⟨block.latencyTrackerId, block.latencyThreshold, block.currentLatency,
              block.currentLatency < block.latencyThreshold⟩) ∧
          ((Response.ofResult result).decision = .granted ↔
            (∀ block ∈ guardBlocks p, block.currentLatency < block.latencyThreshold) ∧
              ∀ block ∈ resourceBlocks p, block.tokensRequested = 0)) ∧
    ∀ s id, (lts client).Reachable s → (s.inflight id ≠ none ↔ ∃ i pc flight,
      s.pcAt i = some pc ∧ pc.flight = some flight ∧ ¬ pc.Returned ∧ flight.reg.requestId = id) := by
  refine ⟨fun s i query flight result h hreturns hne => ?_, fun s id h => ?_⟩
  · obtain ⟨packet, header, hjustifies⟩ :=
      (justified_of_returns h hreturns).resolve_left fun hlocal => hne hlocal.2.1
    obtain ⟨T, A, P, p, hdata, htenant, hauth, hresponse, rfl⟩ :=
      rateResponse_ok_iff.mp hjustifies.parsed
    refine ⟨packet, header, hjustifies, T, A, P, p, hdata, htenant, hauth, hresponse, ?_, ?_, ?_⟩
    · simp [Response.ofResult, responseOf, ResourceBlock.toResult]
    · simp [Response.ofResult, responseOf, GuardBlock.toResult]
    · rw [Response.granted_iff, success_responseOf]
  · have hkeyed := keyed_reachable h
    rw [Option.ne_none_iff_exists']
    constructor
    · rintro ⟨i, hi⟩
      obtain ⟨pc, hpc, hid⟩ := Option.bind_eq_some_iff.mp ((hkeyed id i).mp hi)
      obtain ⟨flight, hflight, hregistered⟩ :=
        Option.map_eq_some_iff.mp (Request.requestId_of_registered hid)
      refine ⟨i, pc, flight, hpc, hflight, ?_, hregistered⟩
      rintro ⟨_, _, rfl⟩
      cases hid
    · rintro ⟨i, pc, flight, hpc, hflight, hreturned, rfl⟩
      refine ⟨i, (hkeyed _ i).mpr ?_⟩
      rw [State.registered, hpc, Option.bind_some]
      cases pc with
      | flying | steering =>
        cases hflight
        rfl
      | returned flight outcome => exact absurd ⟨flight, outcome, rfl⟩ hreturned
      | _ => cases hflight

/-- A grant by server 1 for the request with this id that advises no port change. -/
def sampleSteadyAnswer (id : UInt8) : ResponsePacket where
  data := [82, 76, 40, 0, 1, 0, 0, 0, 0, 0, 0, 0] ++ id :: List.replicate 23 0 ++ [1, 0, 0, 0] ++
    [78, 65, 4, 0] ++ [82, 82, 12, 0, 0, 0, 0, 0, 0, 0, 0, 0]
  addr := sampleAddr 1

/-- Of two requests in flight the second one is answered, after a datagram for neither. -/
def sampleAnswered : List Event :=
  sampleBegin 0 0 ++ sampleBegin 1 1 ++
    [.routerRead, .routerAck, .datagram (sampleSteadyAnswer 9), .routerRead, .routerAck,
      .datagram (sampleSteadyAnswer 1), .deliver, .wake 1 .received, .wake 1 .stats,
      .wake 1 .socket, .wake 1 (.sent (.ok 100))]

/-- The call with its result, once it has returned one. -/
def State.result? (s : State) (i : ℕ) : Option (Query × Option Flight × RateLimitResult) :=
  match s.slots[i]? with
  | some ⟨.check query (.returned flight (.ok result)), _, false⟩ => some (query, flight, result)
  | _ => none

theorem returns_of_result? (h : s.result? i = some (query, flight, result)) :
    Returns s i query flight result := by
  unfold State.result? at h
  split at h
  next channel hslot =>
    cases h
    exact ⟨channel, hslot⟩
  next => cases h

theorem exists_sampleAnswered : ∃ s flight result, sampleRun sampleAnswered = some s ∧
    Returns s 1 sampleQuery flight result ∧ s.inflight (sampleSeedOf 0).requestId = some 0 := by
  obtain ⟨s, hs, htest⟩ := (Option.any_eq_true _ _).mp
    (show (sampleRun sampleAnswered).any (fun s => (s.result? 1).any (·.1 = sampleQuery) ∧
      s.inflight (sampleSeedOf 0).requestId = some 0) = true by decide +kernel)
  obtain ⟨hreturned, hinflight⟩ := of_decide_eq_true htest
  obtain ⟨⟨query, flight, result⟩, hresult, hquery⟩ := (Option.any_eq_true _ _).mp hreturned
  obtain rfl := of_decide_eq_true hquery
  exact ⟨s, flight, result, hs, returns_of_result? hresult, hinflight⟩

theorem answers_justified_sample : ∃ s flight result, (lts sampleClient).Reachable s ∧
    Returns s 1 sampleQuery flight result ∧
    (∃ packet header, Justifies sampleClient s flight result packet header) ∧
    ∃ i pc flight, s.pcAt i = some pc ∧ pc.flight = some flight ∧ ¬ pc.Returned ∧
      flight.reg.requestId = (sampleSeedOf 0).requestId := by
  obtain ⟨s, flight, result, hs, hreturns, hinflight⟩ := exists_sampleAnswered
  have hreachable := reachable_sampleRun hs
  obtain ⟨hanswers, hkeys⟩ := answers_justified sampleClient
  obtain ⟨packet, header, hjustifies, -⟩ :=
    hanswers s 1 sampleQuery flight result hreachable hreturns nofun
  exact ⟨s, flight, result, hreachable, hreturns, ⟨packet, header, hjustifies⟩,
    (hkeys s _ hreachable).mp (hinflight ▸ Option.some_ne_none 0)⟩

/-! ### The selected server -/

/-- An empty request is answered before the first await. -/
theorem flight_of_empty {pc : Request.Pc} (h : (Request.lts client query).Reachable pc)
    (hempty : query.Empty) : pc.flight = none := by
  have hreturned : ∃ outcome, pc = .returned none outcome := by
    refine h.invariant (P := fun pc => ∃ outcome, pc = .returned none outcome) ?_ ?_
    · rintro pc rfl
      unfold Request.begin
      dsimp only
      split
      · exact ⟨_, rfl⟩
      · exact ⟨_, rfl⟩
      · have hboth : query.resources = [] ∧ query.guards = [] := hempty
        rw [if_pos hboth]
        exact ⟨_, rfl⟩
    · rintro pc reply pc' _ ⟨outcome, rfl⟩ hstep
      cases hstep
  obtain ⟨outcome, rfl⟩ := hreturned
  rfl

/-- The response names no server for an empty request only, and otherwise the server whose datagram
was selected. -/
def NamesServer (client : CoreClient) (s : State) (query : Query) (flight : Option Flight)
    (result : RateLimitResult) : Prop :=
  ((Response.ofResult result).selectedServerId = none ↔ query.Empty) ∧
    (¬ query.Empty → ∃ packet header, Justifies client s flight result packet header ∧
      (Response.ofResult result).selectedServerId = some header.keyId)

/-- Discovery finds no server with id 0. -/
def NoServerZero (_ : State) : Event → Prop
  | .wake _ (.refresh resolver _) => ∀ name answers, resolver.srvLookup name = .ok answers →
      ∀ target port, SrvAnswer.srv target port ∈ answers → parseServerIdFromTarget target ≠ some 0
  | _ => True

theorem serverId_of_refreshServers {ipText : IpText} {resolver : Resolver} {domain : String}
    {now : ℕ} {state : ServerList} {server : ServerEndpoint}
    (h : server ∈ (refreshServers ipText resolver domain now state).2.servers) :
    server ∈ state.servers ∨ ∃ name answers target port, resolver.srvLookup name = .ok answers ∧
      SrvAnswer.srv target port ∈ answers ∧ server.serverId = parseServerIdFromTarget target := by
  unfold refreshServers at h
  split at h
  next answers hanswers =>
    dsimp only at h
    split at h
    next =>
      obtain ⟨answer, hanswer, hserver⟩ := List.mem_flatMap.mp h
      cases answer with
      | other => cases hserver
      | srv target port =>
        refine .inr ⟨_, answers, target, port, hanswers, hanswer, ?_⟩
        rw [endpointsOfAnswer] at hserver
        split at hserver
        · cases hserver
        next hid =>
          split at hserver
          · obtain ⟨ip, -, rfl⟩ := List.mem_map.mp hserver
            exact hid.symm
          · cases hserver
    next => exact .inl h
  next => exact .inl h

theorem not_zero_of_stored (h : ((lts client).restrict NoServerZero).Reachable s) :
    ∀ server ∈ s.servers.servers, server.serverId ≠ some 0 := by
  refine h.invariant (P := fun s => ∀ server ∈ s.servers.servers, server.serverId ≠ some 0) ?_ ?_
  · rintro s ⟨bindUdp, now, hnew⟩ server hserver
    obtain ⟨socket, -, -, -, rfl⟩ := new_eq_ok_iff.mp hnew
    cases hserver
  · rintro s event t - hs ⟨hzero, hstep⟩ server hserver
    rw [servers_of_step hstep] at hserver
    unfold State.stored at hserver
    split at hserver
    next =>
      rcases serverId_of_refreshServers hserver with hold | ⟨name, answers, target, port, hanswers, hmem, hid⟩
      · exact hs server hold
      · rw [hid]
        exact hzero name answers hanswers target port hmem
    next => exact hs server hserver

theorem not_zero_of_allowed (h : ((lts client).restrict NoServerZero).Reachable s)
    {pc : Request.Pc} {resolved : ResolvedTargets} (hpc : s.pcAt i = some pc)
    (hsnapshot : pc.snapshot = some resolved) : 0 ∉ resolved.allowedServerIds := by
  intro hmem
  obtain ⟨s₀, event, s₁, hs₀, htakes, -⟩ :=
    snapshot_reachable (m := (lts client).restrict NoServerZero) (fun _ h => h)
      (fun _ _ _ h => h.2) h hpc hsnapshot
  obtain ⟨resolver, -, hcurrent⟩ := htakes.current
  rcases exists_server_of_allowed hcurrent hmem with hempty | ⟨server, hserver, hid⟩
  · cases hempty
  · exact not_zero_of_stored hs₀ server hserver hid

/-- The response names the selected server rightly exactly when the request is empty or the selected
datagram is not of a server with id 0; so it does in every run in which discovery finds no server
with that id. -/
theorem selected_server_named (client : CoreClient) :
    (∀ s i query flight result, (lts client).Reachable s → Returns s i query flight result →
      (NamesServer client s query flight result ↔ query.Empty ∨
        ∀ packet header, Justifies client s flight result packet header → header.keyId ≠ 0)) ∧
    ∀ s i query flight result, ((lts client).restrict NoServerZero).Reachable s →
      Returns s i query flight result → NamesServer client s query flight result := by
  have hiff : ∀ s i query flight result, (lts client).Reachable s →
      Returns s i query flight result → (NamesServer client s query flight result ↔ query.Empty ∨
        ∀ packet header, Justifies client s flight result packet header → header.keyId ≠ 0) := by
    intro s i query flight result h hreturns
    constructor
    · rintro ⟨hnone, hsome⟩
      by_cases hempty : query.Empty
      · exact .inl hempty
      · refine .inr fun packet header hjustifies hzero => hempty (hnone.mp ?_)
        rw [Response.ofResult, hjustifies.serverId_eq, hzero]
        rfl
    · intro hcondition
      by_cases hempty : query.Empty
      · refine ⟨iff_of_true ?_ hempty, fun hne => absurd hempty hne⟩
        rcases justified_of_returns h hreturns with ⟨-, -, rfl⟩ | ⟨packet, header, hjustifies⟩
        · rfl
        · obtain ⟨channel, hslot⟩ := hreturns
          obtain ⟨flying, rfl, -⟩ := hjustifies.own
          cases flight_of_empty (calls_reachable h i _ hslot) hempty
      · obtain ⟨packet, header, hjustifies⟩ :=
          (justified_of_returns h hreturns).resolve_left fun hlocal => hempty hlocal.2.1
        have hne := hcondition.resolve_left hempty packet header hjustifies
        have hselected : (Response.ofResult result).selectedServerId = some header.keyId := by
          rw [Response.ofResult, hjustifies.serverId_eq]
          exact if_pos hne
        exact ⟨iff_of_false (by rw [hselected]; exact Option.some_ne_none _) hempty,
          fun _ => ⟨packet, header, hjustifies, hselected⟩⟩
  refine ⟨hiff, fun s i query flight result h hreturns => ?_⟩
  refine (hiff s i query flight result h.of_restrict hreturns).mpr (.inr ?_)
  intro packet header hjustifies hzero
  obtain ⟨flying, rfl, -, hallowed, -⟩ := hjustifies.own
  obtain ⟨channel, hslot⟩ := hreturns
  exact not_zero_of_allowed h (pcAt_of_slot hslot rfl rfl) (Request.snapshot_of_flight rfl)
    (hzero ▸ hallowed)

theorem noServerZero_sampleAnswered : ∀ event ∈ sampleAnswered, ∀ s, NoServerZero s event := by
  intro event hevent s
  unfold NoServerZero
  split
  next i resolver seed =>
    obtain ⟨-, rfl, -⟩ : i = 0 ∧ resolver = sampleResolver ∧ seed = sampleSeedOf 0 := by
      simpa [sampleAnswered, sampleBegin] using hevent
    rintro name answers hanswers target port hmem
    cases hanswers
    simp only [List.mem_cons, SrvAnswer.srv.injEq, List.not_mem_nil, or_false] at hmem
    obtain ⟨rfl, -⟩ | ⟨rfl, -⟩ := hmem <;> decide +kernel
  next => trivial

theorem selected_server_named_sample : ∃ s flight result,
    ((lts sampleClient).restrict NoServerZero).Reachable s ∧
      Returns s 1 sampleQuery flight result ∧
        NamesServer sampleClient s sampleQuery flight result := by
  obtain ⟨s, flight, result, hs, hreturns, -⟩ := exists_sampleAnswered
  have hreachable : ((lts sampleClient).restrict NoServerZero).Reachable s :=
    (run_restrict_sampleRun noServerZero_sampleAnswered hs).reachable (.init init_sampleState)
  exact ⟨s, flight, result, hreachable, hreturns,
    (selected_server_named sampleClient).2 s 1 sampleQuery flight result hreachable hreturns⟩

/-- The target `s-0` is a server. -/
def zeroResolver : Resolver where
  srvLookup _ := .ok [.srv "s-0.example." 1]
  lookupIp _ := .ok [loopback]

/-- A grant of server 0 that advises no port change. -/
def zeroAnswer : ResponsePacket where
  data := [82, 76, 40, 0] ++ List.replicate 32 0 ++ [1, 0, 0, 0] ++ [78, 65, 4, 0] ++
    [82, 82, 12, 0, 0, 0, 0, 0, 0, 0, 0, 0]
  addr := sampleAddr 1

/-- A request that selects that grant. -/
def zeroRun : List Event :=
  [.check sampleQuery, .wake 0 (.lastRefresh (sampleSeedOf 0)),
    .wake 0 (.refresh zeroResolver (sampleSeedOf 0)), .wake 0 (.servers zeroResolver),
    .wake 0 (.activity (sampleSeedOf 0)), .wake 0 .socket, .wake 0 (.sent (.ok 100)), .routerRead,
    .routerAck, .datagram zeroAnswer, .deliver, .wake 0 .received, .wake 0 .stats, .wake 0 .socket]

/-- The first call has resources and has returned a response without a server. -/
def State.unnamed (s : State) : Bool :=
  match (s.slots[0]? : Option Slot) with
  | some ⟨.check query (.returned _ (.ok result)), _, false⟩ =>
    query.resources ≠ [] ∧ (Response.ofResult result).selectedServerId = none
  | _ => false

theorem not_selected_server_named : ¬ ∀ s i query flight result, (lts sampleClient).Reachable s →
    Returns s i query flight result → NamesServer sampleClient s query flight result := by
  intro h
  obtain ⟨s, hs, htest⟩ := (Option.any_eq_true _ _).mp
    (show (sampleRun zeroRun).any (·.unnamed) = true by decide +kernel)
  unfold State.unnamed at htest
  split at htest
  next query flight result channel hslot =>
    obtain ⟨hresources, hnone⟩ := of_decide_eq_true htest
    have hnames := h s 0 query flight result (reachable_sampleRun hs) ⟨channel, hslot⟩
    exact hresources (hnames.1.mp hnone).1
  next => cases htest

end Client

end Ratelimitly
