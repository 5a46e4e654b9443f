import Mathlib.Tactic
import Ratelimitly.ClientSteps

/-! The stored servers over a client's life, and the snapshots that its requests take of them. -/
namespace Ratelimitly

open Lib

/-- The text of an address parses back to the address. -/
def IpText.Faithful (ipText : IpText) : Prop := ∀ ip, ipText.parse (ipText.toText ip) = some ip

/-- An endpoint with a server id and an address for its host. -/
structure Discovered (ipText : IpText) (server : ServerEndpoint) : Prop where
  id : ∃ id, server.serverId = some id
  host : ∃ ip, ipText.parse server.host = some ip

variable {ipText : IpText} {resolver : Resolver} {domain : String} {now : ℕ} {state : ServerList}
  {servers : List ServerEndpoint} {resolved : ResolvedTargets} {addr : SocketAddr} {id : UInt64}

theorem discovered_endpointsOfAnswer (htext : ipText.Faithful) (answer : SrvAnswer) :
    ∀ server ∈ endpointsOfAnswer ipText resolver answer, Discovered ipText server := by
  intro server h
  cases answer with
  | other => cases h
  | srv target port =>
    rw [endpointsOfAnswer] at h
    split at h
    · cases h
    next id _ =>
      split at h
      next ips _ =>
        obtain ⟨ip, -, rfl⟩ := List.mem_map.mp h
        exact ⟨⟨id, rfl⟩, ip, htext ip⟩
      next => cases h

/-- A refresh fails and changes nothing, or it stores at least one endpoint and the time. -/
theorem refreshServers_spec (htext : ipText.Faithful) :
    refreshServers ipText resolver domain now state = (.err (.dns "No SRV servers found"), state) ∨
      ∃ stored, refreshServers ipText resolver domain now state = (.ok (), ⟨stored, now⟩) ∧
        stored ≠ [] ∧ ∀ server ∈ stored, Discovered ipText server := by
  unfold refreshServers
  split
  next answers _ =>
    dsimp only
    split
    next hne =>
      refine .inr ⟨_, rfl, hne, fun server hserver => ?_⟩
      obtain ⟨answer, -, hserver⟩ := List.mem_flatMap.mp hserver
      exact discovered_endpointsOfAnswer htext answer server hserver
    next => exact .inl rfl
  next => exact .inl rfl

/-! ### Snapshots -/

/-- A snapshot of these servers. -/
structure ResolvedTargets.Of (servers : List ServerEndpoint) (resolved : ResolvedTargets) : Prop where
  closed : resolved.Closed
  allowed : ∀ id, id ∈ resolved.allowedServerIds ↔ ∃ server ∈ servers, server.serverId = some id

theorem ResolvedTargets.mem_allowed_push {id' : UInt64} :
    id' ∈ (resolved.push addr (some id)).allowedServerIds ↔
      id' = id ∨ id' ∈ resolved.allowedServerIds := by
  simp [ResolvedTargets.push]

/-- With addresses for hosts the snapshot needs no lookup, and it is of all stored endpoints. -/
theorem resolveTargets_of_discovered (hservers : ∀ server ∈ servers, Discovered ipText server)
    {start : ResolvedTargets} {before : List ServerEndpoint} (hstart : start.Of before) :
    ∃ resolved, resolveTargets ipText resolver servers start = .ok resolved ∧
      resolved.Of (before ++ servers) ∧
      resolved.targets.length = start.targets.length + servers.length := by
  induction servers generalizing start before with
  | nil => exact ⟨start, rfl, by simpa using hstart, rfl⟩
  | cons server servers ih =>
    obtain ⟨⟨id, hid⟩, ip, hip⟩ := hservers server List.mem_cons_self
    have hpush : (start.push (SocketAddr.new ip server.port) (some id)).Of (before ++ [server]) := by
      refine ⟨hstart.closed.push _ id, fun id' => ?_⟩
      rw [ResolvedTargets.mem_allowed_push, hstart.allowed]
      simp [hid, or_comm, eq_comm]
    obtain ⟨resolved, hresolved, hof, hlength⟩ :=
      ih (fun s hs => hservers s (List.mem_cons_of_mem _ hs)) hpush
    refine ⟨resolved, ?_, by simpa using hof, ?_⟩
    · rw [resolveTargets, hip]
      dsimp only
      rw [hid]
      exact hresolved
    · rw [hlength]
      simp [ResolvedTargets.push, Nat.add_assoc, Nat.add_comm 1]

theorem currentTargets_of_discovered (resolver : Resolver)
    (hservers : ∀ server ∈ servers, Discovered ipText server) :
    ∃ resolved, currentTargets ipText resolver servers = .ok resolved ∧ resolved.Of servers ∧
      resolved.targets.length = servers.length := by
  have hempty : ResolvedTargets.empty.Of [] :=
    ⟨ResolvedTargets.closed_empty, by simp [ResolvedTargets.empty]⟩
  obtain ⟨resolved, hresolved, hof, hlength⟩ := resolveTargets_of_discovered hservers hempty
  exact ⟨resolved, hresolved, by simpa using hof, by simpa [ResolvedTargets.empty] using hlength⟩

theorem mem_allowed_foldl_push {server : ServerEndpoint} (ips : List IpAddr)
    (h : id ∈ (ips.foldl (fun resolved ip =>
      resolved.push (SocketAddr.new ip server.port) server.serverId) resolved).allowedServerIds) :
    server.serverId = some id ∨ id ∈ resolved.allowedServerIds := by
  induction ips generalizing resolved with
  | nil => exact .inr h
  | cons ip ips ih =>
    rcases ih h with hid | hmem
    · exact .inl hid
    · cases hserver : server.serverId with
      | none =>
        rw [hserver] at hmem
        exact .inr hmem
      | some id' =>
        rw [hserver, ResolvedTargets.mem_allowed_push] at hmem
        exact hmem.imp_left (congrArg some ·.symm)

/-- Whatever hosts look like, only ids of the given servers are allowed. -/
theorem exists_server_of_allowed {start : ResolvedTargets}
    (h : resolveTargets ipText resolver servers start = .ok resolved)
    (hid : id ∈ resolved.allowedServerIds) :
    id ∈ start.allowedServerIds ∨ ∃ server ∈ servers, server.serverId = some id := by
  induction servers generalizing start with
  | nil =>
    cases h
    exact .inl hid
  | cons server servers ih =>
    have hips (ips : List IpAddr) (h : resolveTargets ipText resolver servers
        (ips.foldl (fun resolved ip =>
          resolved.push (SocketAddr.new ip server.port) server.serverId) start) = .ok resolved) :
        id ∈ start.allowedServerIds ∨ ∃ server' ∈ server :: servers, server'.serverId = some id := by
      rcases ih h with hmem | ⟨server', hmem, hserver'⟩
      · rcases mem_allowed_foldl_push ips hmem with hserver | hmem
        · exact .inr ⟨server, List.mem_cons_self, hserver⟩
        · exact .inl hmem
      · exact .inr ⟨server', List.mem_cons_of_mem _ hmem, hserver'⟩
    rw [resolveTargets] at h
    split at h
    next ip _ => exact hips [ip] h
    next =>
      split at h
      next ips _ => exact hips ips h
      next => cases h

/-- The oldest server is an allowed one, and no allowed one is older. -/
theorem ResolvedTargets.exists_oldest (hne : resolved.allowedServerIds ≠ []) :
    ∃ oldest, resolved.oldestServerId = some oldest ∧ oldest ∈ resolved.allowedServerIds ∧
      ∀ id ∈ resolved.allowedServerIds, compareServerAge id oldest ≠ .lt := by
  cases hids : resolved.allowedServerIds with
  | nil => exact absurd hids hne
  | cons id ids =>
    obtain ⟨oldest, hfold, -⟩ := foldl_older_some ids id
    have holdest : resolved.oldestServerId = some oldest := by
      rw [oldestServerId, hids]
      exact hfold
    obtain ⟨hmem, hall⟩ := oldestServerId_eq_some_iff.mp holdest
    rw [hids] at hmem hall
    refine ⟨oldest, holdest, hmem, fun id' hid' hlt => ?_⟩
    exact absurd (compareServerAge_eq_lt_iff.mp hlt) (UInt64.not_lt.mpr (hall id' hid'))

/-! ### The list over a client's life -/

namespace Request

variable {client : CoreClient} {query : Query} {pc pc' : Pc} {reply : Reply}

/-- The snapshot of a call that has passed the check for an empty one. -/
def Pc.snapshot : Pc → Option ResolvedTargets
  | .entering _ resolved => some resolved
  | pc => pc.flight.map (·.reg.resolved)

theorem snapshot_of_flight {flight : Flight} (h : pc.flight = some flight) :
    pc.snapshot = some flight.reg.resolved := by
  cases pc with
  | entering => cases h
  | _ => simp [Pc.snapshot, h]

/-- A call takes its snapshot in one step only. -/
theorem snapshot_of_steps (h : Steps client query pc reply pc') (hpc' : pc'.snapshot = some resolved) :
    pc.snapshot = some resolved ∨ ∃ dedupTtlMs servers resolver, pc = .resolving dedupTtlMs ∧
      reply = .servers servers resolver ∧ pc' = .entering dedupTtlMs resolved ∧
      currentTargets client.ipText resolver servers = .ok resolved ∧ resolved.targets ≠ [] := by
  cases h with
  | lastRefresh => split at hpc' <;> cases hpc'
  | refreshed | unrefreshed => cases hpc'
  | @servers dedupTtlMs servers resolver =>
    right
    unfold enter at hpc' ⊢
    split at hpc'
    · cases hpc'
    · cases hpc'
    next hcurrent =>
      split at hpc'
      · cases hpc'
      next hne =>
        cases hpc'
        exact ⟨dedupTtlMs, servers, resolver, rfl, rfl, by simp [hne], hcurrent, hne⟩
  | activity =>
    left
    unfold register at hpc'
    split at hpc'
    · cases hpc'
    · cases hpc'
    · exact hpc'
  | flight hstep =>
    left
    rw [snapshot_of_flight (flight_leaveFlight _)] at hpc'
    exact hpc'
  | steering =>
    left
    rw [snapshot_of_flight (flight_steer _ _ _)] at hpc'
    exact hpc'

theorem not_snapshot_begin : (begin client query).snapshot = none := by
  unfold begin
  dsimp only
  split
  · rfl
  · rfl
  · split
    · rfl
    · split <;> rfl

end Request

namespace Client

variable {client : CoreClient} {s t : State} {event : Event} {i : ℕ} {slot : Slot} {query : Query}
  {pc pc' : Request.Pc} {wake : Wake} {reply : Request.Reply} {channel : List ResponsePacket}

/-- The stored servers after a refresh in this state. -/
def State.refreshedWith (s : State) (client : CoreClient) (resolver : Resolver) :
    Outcome CoreError Unit × ServerList :=
  refreshServers client.ipText resolver client.config.apiKey.serviceDomain s.clock s.servers

/-- The stored servers after a step: only a refresh changes them. -/
def State.stored (s : State) (client : CoreClient) : Event → ServerList
  | .wake _ (.refresh resolver _) => (s.refreshedWith client resolver).2
  | _ => s.servers

theorem servers_move (hreply : s.requestReply channel wake = some reply) :
    (s.move client i slot query pc pc' wake reply).servers = s.stored client (.wake i wake) := by
  cases wake with
  | refresh =>
    cases hreply
    cases pc <;> rfl
  | _ =>
    unfold State.move State.steer
    dsimp only
    split
    · split <;> rfl
    · rfl

theorem clock_move : (s.move client i slot query pc pc' wake reply).clock = s.clock := by
  unfold State.move State.steer
  dsimp only
  split
  · split <;> rfl
  · rfl

theorem servers_of_step (h : step client s event = some t) : t.servers = s.stored client event := by
  cases moves_of_step h with
  | request _ _ _ hreply => exact servers_move hreply
  | @reporting i slot reports state wake => cases wake <;> rfl
  | _ => rfl

theorem clock_of_step (h : step client s event = some t) :
    t.clock = s.clock ∨ ∃ now, event = .tick now ∧ s.clock ≤ t.clock := by
  cases moves_of_step h with
  | request => exact .inl clock_move
  | tick hle => exact .inr ⟨_, rfl, hle⟩
  | _ => exact .inl rfl

/-- What a refresh leaves. -/
theorem refreshedWith_spec (htext : client.ipText.Faithful) (s : State) (resolver : Resolver) :
    s.refreshedWith client resolver = (.err (.dns "No SRV servers found"), s.servers) ∨
      ∃ stored, s.refreshedWith client resolver = (.ok (), ⟨stored, s.clock⟩) ∧ stored ≠ [] ∧
        ∀ server ∈ stored, Discovered client.ipText server := refreshServers_spec htext

theorem discovered_reachable (htext : client.ipText.Faithful) (h : (lts client).Reachable s) :
    ∀ server ∈ s.servers.servers, Discovered client.ipText server := by
  refine h.invariant (P := fun s => ∀ server ∈ s.servers.servers, Discovered client.ipText server)
    ?_ ?_
  · rintro s ⟨bindUdp, now, hnew⟩ server hserver
    obtain ⟨socket, -, -, -, rfl⟩ := new_eq_ok_iff.mp hnew
    cases hserver
  · intro s event t _ hs hstep
    rw [servers_of_step hstep]
    unfold State.stored
    split
    next resolver _ =>
      rcases refreshedWith_spec htext s resolver with herr | ⟨stored, hok, -, hstored⟩
      · rw [herr]
        exact hs
      · rw [hok]
        exact hstored
    next => exact hs

theorem hasIds_reachable (h : (lts client).Reachable s) : HasIds s.servers.servers := by
  refine h.invariant (P := fun s => HasIds s.servers.servers) ?_ ?_
  · rintro s ⟨bindUdp, now, hnew⟩ server hserver
    obtain ⟨socket, -, -, -, rfl⟩ := new_eq_ok_iff.mp hnew
    cases hserver
  · intro s event t _ hs hstep
    rw [servers_of_step hstep]
    unfold State.stored
    split
    · exact hasIds_refreshServers hs
    · exact hs

/-- The step in which call `i` takes its snapshot, of the servers that are stored then. -/
structure Takes (client : CoreClient) (i : ℕ) (resolved : ResolvedTargets) (s : State)
    (event : Event) (t : State) : Prop where
  step : Client.step client s event = some t
  current : ∃ resolver, event = .wake i (.servers resolver) ∧
    currentTargets client.ipText resolver s.servers.servers = .ok resolved
  pcs : ∃ dedupTtlMs, s.pcAt i = some (.resolving dedupTtlMs) ∧
    t.pcAt i = some (.entering dedupTtlMs resolved)
  targets : resolved.targets ≠ []

variable {resolved : ResolvedTargets}

/-- A call has its snapshot from before, or takes it. -/
theorem snapshot_of_step (hstep : step client s event = some t) (hpc : t.pcAt i = some pc)
    (hsnapshot : pc.snapshot = some resolved) :
    (∃ pc, s.pcAt i = some pc ∧ pc.snapshot = some resolved) ∨
      Takes client i resolved s event t := by
  have hat := hpc
  cases changes_of_step hstep with
  | idle hidle =>
    rcases hidle.pcAt i with heq | ⟨-, hnew⟩
    · exact .inl ⟨pc, heq ▸ hpc, hsnapshot⟩
    · obtain ⟨query, rfl⟩ := hnew pc hpc
      rw [Request.not_snapshot_begin] at hsnapshot
      cases hsnapshot
  | request hevent _ _ hfrom hanswers hrequest hpcs =>
    rw [hpcs] at hpc
    split at hpc
    next heq =>
      subst heq
      cases hpc
      rcases Request.snapshot_of_steps (Request.steps_of_step hrequest) hsnapshot with
        hold | ⟨dedupTtlMs, servers, resolver, rfl, rfl, rfl, hcurrent, hne⟩
      · exact .inl ⟨_, hfrom, hold⟩
      · obtain ⟨rfl, rfl⟩ := hanswers
        exact .inr ⟨hstep, ⟨resolver, hevent, hcurrent⟩, ⟨dedupTtlMs, hfrom, hat⟩, hne⟩
    next => exact .inl ⟨pc, hpc, hsnapshot⟩
  | drop _ _ _ hpcs =>
    rw [hpcs] at hpc
    split at hpc
    · cases hpc
    · exact .inl ⟨pc, hpc, hsnapshot⟩

/-- Along a run a call has its snapshot from before, or one of the steps takes it. -/
theorem snapshot_of_run {m : Lts State Event} {events : List Event}
    (hm : ∀ s event t, m.step s event t → step client s event = some t) (hrun : m.Run s events t)
    (hpc : t.pcAt i = some pc) (hsnapshot : pc.snapshot = some resolved) :
    (∃ pc, s.pcAt i = some pc ∧ pc.snapshot = some resolved) ∨
      ∃ before event after u v, events = before ++ event :: after ∧ m.Run s before u ∧
        m.step u event v ∧ Takes client i resolved u event v ∧ m.Run v after t := by
  induction hrun with
  | refl => exact .inl ⟨pc, hpc, hsnapshot⟩
  | @head s event s' events t hstep hrun ih =>
    rcases ih hpc with ⟨pc', hpc', hsnapshot'⟩ | ⟨before, event', after, u, v, rfl, hbefore, hrest⟩
    · rcases snapshot_of_step (hm _ _ _ hstep) hpc' hsnapshot' with hold | htakes
      · exact .inl hold
      · exact .inr ⟨[], event, events, s, s', rfl, .refl s, hstep, htakes, hrun⟩
    · exact .inr ⟨event :: before, event', after, u, v, rfl, .head hstep hbefore, hrest⟩

/-- The snapshot of a call was taken in some earlier step. -/
theorem snapshot_reachable {m : Lts State Event} (hinit : ∀ s, m.init s → (lts client).init s)
    (hm : ∀ s event t, m.step s event t → step client s event = some t) (h : m.Reachable s)
    (hpc : s.pcAt i = some pc) (hsnapshot : pc.snapshot = some resolved) :
    ∃ u event v, m.Reachable u ∧ Takes client i resolved u event v ∧ m.Leads v s := by
  obtain ⟨s₀, events, hs₀, hrun⟩ := h.exists_run
  rcases snapshot_of_run hm hrun hpc hsnapshot with
    ⟨pc', hpc', -⟩ | ⟨before, event, after, u, v, -, hbefore, -, htakes, hafter⟩
  · obtain ⟨bindUdp, now, hnew⟩ := hinit s₀ hs₀
    obtain ⟨socket, -, -, -, rfl⟩ := new_eq_ok_iff.mp hnew
    cases hpc'
  · exact ⟨u, event, v, hbefore.reachable (.init hs₀), htakes, after, hafter⟩

/-- A call that has passed the check for an empty snapshot knows which servers may answer. -/
theorem closed_snapshot (h : (lts client).Reachable s) (hpc : s.pcAt i = some pc)
    (hsnapshot : pc.snapshot = some resolved) :
    resolved.Closed ∧ resolved.targets ≠ [] ∧ resolved.allowedServerIds ≠ [] := by
  obtain ⟨u, event, v, hu, htakes, -⟩ :=
    snapshot_reachable (fun _ h => h) (fun _ _ _ h => h) h hpc hsnapshot
  obtain ⟨resolver, -, hcurrent⟩ := htakes.current
  have hclosed := closed_currentTargets (hasIds_reachable hu) hcurrent
  exact ⟨hclosed, htakes.targets, hclosed.allowed_ne_nil htakes.targets⟩

/-- The list is empty or all endpoints have an id and an address; a refresh changes nothing or
stores endpoints and the time. So every snapshot with a target allows exactly the ids of the
endpoints that are stored in the state in which the call takes it, and no request accepts a server
that is not among them or asks which addresses have answered. -/
theorem allow_list_closed (client : CoreClient) (htext : client.ipText.Faithful) :
    (∀ s, (lts client).Reachable s →
      ∀ server ∈ s.servers.servers, Discovered client.ipText server) ∧
    (∀ s event t, step client s event = some t → t.servers ≠ s.servers →
      ∃ i resolver seed, event = .wake i (.refresh resolver seed)) ∧
    (∀ s i resolver seed t, step client s (.wake i (.refresh resolver seed)) = some t →
      (∃ error, (s.refreshedWith client resolver).1 = .err error ∧ t.servers = s.servers) ∨
        (s.refreshedWith client resolver).1 = .ok () ∧ t.servers.servers ≠ [] ∧
          t.servers.lastDnsRefresh = t.clock) ∧
    (∀ s i pc resolved, (lts client).Reachable s → s.pcAt i = some pc →
      pc.snapshot = some resolved → ∃ s₀ event s₁, (lts client).Reachable s₀ ∧
        Takes client i resolved s₀ event s₁ ∧ (lts client).Leads s₁ s ∧
        (∀ target ∈ resolved.targets, ∃ id, resolved.targetServerIds target = some id) ∧
        resolved.allowedServerIds ≠ [] ∧
        (∀ id, id ∈ resolved.allowedServerIds ↔
          ∃ server ∈ s₀.servers.servers, server.serverId = some id) ∧
        ∃ oldest, resolved.oldestServerId = some oldest ∧ oldest ∈ resolved.allowedServerIds ∧
          ∀ id ∈ resolved.allowedServerIds, compareServerAge id oldest ≠ .lt) ∧
    ∀ s i pc flight, (lts client).Reachable s → s.pcAt i = some pc → pc.flight = some flight →
      (∀ packet result, flight.reg.acceptedResult packet = some result →
        ∃ id, peekServerId packet.data = .ok id ∧ id ∈ flight.reg.resolved.allowedServerIds) ∧
      ∀ target ∈ flight.reg.resolved.targets, ∀ state seenAddrs,
        flight.reg.responded { state with seenAddrs } target = flight.reg.responded state target := by
  refine ⟨fun s => discovered_reachable htext, fun s event t hstep hne => ?_,
    fun s i resolver seed t hstep => ?_, fun s i pc resolved h hpc hsnapshot => ?_,
    fun s i pc flight h hpc hflight => ?_⟩
  · rw [servers_of_step hstep] at hne
    unfold State.stored at hne
    split at hne
    next => exact ⟨_, _, _, rfl⟩
    next => exact absurd rfl hne
  · have hservers : t.servers = (s.refreshedWith client resolver).2 := servers_of_step hstep
    have hclock : t.clock = s.clock := by
      rcases clock_of_step hstep with heq | ⟨now, hevent, -⟩
      · exact heq
      · cases hevent
    rw [hservers, hclock]
    rcases refreshedWith_spec htext s resolver with herr | ⟨stored, hok, hne, -⟩
    · rw [herr]
      exact .inl ⟨_, rfl, rfl⟩
    · rw [hok]
      exact .inr ⟨rfl, hne, rfl⟩
  · obtain ⟨hclosed, -, hallowed⟩ := closed_snapshot h hpc hsnapshot
    obtain ⟨s₀, event, s₁, hs₀, htakes, hleads⟩ :=
      snapshot_reachable (fun _ h => h) (fun _ _ _ h => h) h hpc hsnapshot
    obtain ⟨resolver, -, hcurrent⟩ := htakes.current
    obtain ⟨resolved', hresolved', hof, -⟩ := currentTargets_of_discovered resolver
      (discovered_reachable htext hs₀)
    obtain rfl := Outcome.ok.inj (hcurrent.symm.trans hresolved')
    exact ⟨s₀, event, s₁, hs₀, htakes, hleads, hclosed.recorded, hallowed, hof.allowed,
      ResolvedTargets.exists_oldest hallowed⟩
  · obtain ⟨hclosed, -, hne⟩ := closed_snapshot h hpc (Request.snapshot_of_flight hflight)
    refine ⟨fun packet result haccepted => ?_, fun target htarget state seenAddrs => ?_⟩
    · obtain ⟨-, header, pos, hheader, -, hallowed⟩ := Registration.acceptedResult_spec haccepted
      exact ⟨header.keyId, peekServerId_of_header hheader, hallowed hne⟩
    · obtain ⟨id, hid⟩ := hclosed.recorded target htarget
      rw [Registration.responded, Registration.responded, hid]

end Client

/-! ### A sample client that tells addresses apart -/

def charsOf (octets : List UInt8) : List Char := octets.map fun octet => Char.ofNat octet.toNat

def octetsOf (chars : List Char) : List UInt8 := chars.map fun char => UInt8.ofNat char.toNat

theorem octetsOf_charsOf (octets : List UInt8) : octetsOf (charsOf octets) = octets := by
  have hoctet (octet : UInt8) : UInt8.ofNat (Char.ofNat octet.toNat).toNat = octet := by
    have hvalid : octet.toNat.isValidChar := .inl (by have := octet.toNat_lt; omega)
    rw [Char.ofNat, dif_pos hvalid]
    exact UInt8.ofNat_toNat
  rw [octetsOf, charsOf, List.map_map]
  exact (List.map_congr_left fun octet _ => hoctet octet).trans (List.map_id _)

/-- The usual text of the loopback address, and one character for each octet of the others. -/
def faithfulIpText : IpText where
  toText ip :=
    if ip = loopback then "127.0.0.1"
    else match ip with
      | .v4 octets => String.ofList ('4' :: charsOf octets.toList)
      | .v6 octets => String.ofList ('6' :: charsOf octets.toList)
  parse text :=
    if text = "127.0.0.1" then some loopback
    else match text.toList with
      | '4' :: chars =>
        if h : (octetsOf chars).length = 4 then some (.v4 ⟨octetsOf chars, h⟩) else none
      | '6' :: chars =>
        if h : (octetsOf chars).length = 16 then some (.v6 ⟨octetsOf chars, h⟩) else none
      | _ => none

theorem faithful_faithfulIpText : faithfulIpText.Faithful := by
  intro ip
  by_cases hip : ip = loopback
  · simp [faithfulIpText, hip]
  · have hne (tag : Char) (htag : tag ≠ '1') (chars : List Char) :
        String.ofList (tag :: chars) ≠ "127.0.0.1" := by
      intro h
      have hlist := congrArg String.toList h
      rw [String.toList_ofList] at hlist
      exact htag (List.head_eq_of_cons_eq (hlist.trans (by rfl : _ = '1' :: "27.0.0.1".toList)))
    simp only [faithfulIpText, if_neg hip]
    cases ip with
    | v4 octets =>
      rw [if_neg (hne '4' (by decide) _), String.toList_ofList]
      simp only [octetsOf_charsOf, octets.length_eq, dite_true]
    | v6 octets =>
      rw [if_neg (hne '6' (by decide) _), String.toList_ofList]
      simp only [octetsOf_charsOf, octets.length_eq, dite_true]

def faithfulClient : CoreClient := { sampleClient with ipText := faithfulIpText }

namespace Client

theorem init_faithfulClient : (lts faithfulClient).init sampleState := init_sampleState

theorem allow_list_closed_sample : ∃ (s : State) (pc : Request.Pc) (resolved : ResolvedTargets),
    (lts faithfulClient).Reachable s ∧ s.pcAt 0 = some pc ∧ pc.snapshot = some resolved ∧
      resolved.allowedServerIds = [2, 1] ∧
      (∃ s₀ event s₁, Takes faithfulClient 0 resolved s₀ event s₁ ∧
        ∃ server ∈ s₀.servers.servers, server.serverId = some 1) := by
  obtain ⟨s, hs, htest⟩ := (Option.any_eq_true _ _).mp
    (show (Lts.runSteps (step faithfulClient) (sampleBegin 0 0) sampleState).any (fun s =>
      ((s.pcAt 0).bind (·.snapshot)).any (·.allowedServerIds = [2, 1])) = true by decide +kernel)
  obtain ⟨resolved, hsnapshot, hallowed⟩ := (Option.any_eq_true _ _).mp htest
  obtain ⟨pc, hpc, hresolved⟩ := Option.bind_eq_some_iff.mp hsnapshot
  have hreachable : (lts faithfulClient).Reachable s :=
    (Lts.Run.of_runSteps (m := lts faithfulClient) (fun _ _ _ _ h => h) hs).reachable
      (.init init_faithfulClient)
  obtain ⟨s₀, event, s₁, -, htakes, -, -, -, hids, -⟩ := (allow_list_closed faithfulClient
    faithful_faithfulIpText).2.2.2.1 s 0 pc resolved hreachable hpc hresolved
  exact ⟨s, pc, resolved, hreachable, hpc, hresolved, of_decide_eq_true hallowed, s₀, event,
    s₁, htakes, (hids 1).mp (by simp [of_decide_eq_true hallowed])⟩

end Client

end Ratelimitly
