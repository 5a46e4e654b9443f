import Mathlib.Tactic
import Ratelimitly.ClientSteps
import Ratelimitly.Datagrams
import Ratelimitly.Invisible

/-! Under AES no nonce protects two different packets of a client. -/
namespace Ratelimitly

open Lib

/-- The nonce of an AES datagram, after the tenant header and the header of the auth TLV. -/
def aesNonce (packet : List UInt8) : List UInt8 := sub packet 44 56

theorem nonce_of_encryptPdu {crypto : Crypto} {nonce nonce' : Bytes 12} {tag : Bytes 16}
    {key : Bytes 32} {pdu aadPrefix encrypted : List UInt8}
    (h : (encryptPdu crypto nonce pdu key aadPrefix : Outcome CoreError _) =
      .ok (encrypted, nonce', tag)) : nonce' = nonce := by
  simp only [encryptPdu, Outcome.bind_eq_ok_iff] at h
  obtain ⟨ciphertext, -, h⟩ := h
  split at h
  · cases h
  · simp only [Outcome.bind_eq_ok_iff, Outcome.pure_eq, Outcome.ok.injEq, Prod.mk.injEq] at h
    obtain ⟨-, -, -, -, -, -, -, rfl, -⟩ := h
    rfl

theorem aesNonce_of_buildPacket {crypto : Crypto} {nonce : Bytes 12} {key : Bytes 32}
    {cookie : Option (Bytes 32)} {header : TenantHeader} {pdu packet : List UInt8}
    (h : buildPacket crypto nonce (.aesGcm key) cookie (some key) header pdu = .ok packet) :
    aesNonce packet = nonce.toList := by
  unfold buildPacket at h
  rw [Outcome.failIf_bind_eq_ok_iff, writeTenantHeader_nil, Outcome.ok_bind] at h
  obtain ⟨-, h⟩ := h
  simp only [appendAuthTlv, Outcome.expect, Outcome.ok_bind, Outcome.bind_eq_ok_iff,
    Prod.exists] at h
  obtain ⟨encrypted, nonce', tag, henc, h⟩ := h
  obtain rfl := nonce_of_encryptPdu henc
  rw [Outcome.pure_eq, Outcome.ok.injEq] at h
  subst h
  have hlen : (header.toBytes ++ leBytes 2 tlvAuthAes.toNat ++ leBytes 2 32).length = 44 := by simp
  rw [aesNonce, sub, List.append_assoc, List.append_assoc, List.drop_left' hlen,
    List.take_left' (by simp)]

namespace Request

variable {client : CoreClient} {query : Query} {pc pc' : Pc} {reply : Reply} {flight : Flight}

/-- A call builds its packet in one step only. -/
theorem packet_of_steps (h : Steps client query pc reply pc') (hflight : pc'.flight = some flight) :
    (∃ flight₀, pc.flight = some flight₀ ∧ flight₀.reg.packet = flight.reg.packet) ∨
      ∃ dedupTtlMs seed now, reply = .activity seed now ∧
        packetOf client query dedupTtlMs seed = .ok flight.reg.packet := by
  cases h with
  | lastRefresh => split at hflight <;> cases hflight
  | refreshed | unrefreshed => cases hflight
  | servers =>
    unfold enter at hflight
    split at hflight
    · cases hflight
    · cases hflight
    · split at hflight <;> cases hflight
  | @activity dedupTtlMs resolved seed now =>
    unfold register at hflight
    split at hflight
    · cases hflight
    · cases hflight
    next packet hpacket =>
      cases hflight
      exact .inr ⟨dedupTtlMs, seed, now, rfl, hpacket⟩
  | flight =>
    rw [flight_leaveFlight] at hflight
    cases hflight
    exact .inl ⟨_, rfl, rfl⟩
  | steering =>
    rw [flight_steer] at hflight
    cases hflight
    exact .inl ⟨_, rfl, rfl⟩

theorem not_flight_begin : (begin client query).flight = none := by
  unfold begin
  dsimp only
  split
  · rfl
  · rfl
  · split
    · rfl
    · split <;> rfl

end Request

namespace Report

variable {client : CoreClient} {reports : List ServiceLatencyReport} {s t : State} {reply : Reply}
  {data : List UInt8}

/-- The packet that is being sent. -/
def Pc.packet : Pc → Option (List UInt8)
  | .resolving packet | .sendSocket packet _ | .sending packet .. => some packet
  | _ => none

/-- The packets that were built or sent. -/
def State.packets (s : State) : List (List UInt8) := s.pc.packet.toList ++ s.sent.map (·.packet)

theorem packets_build {seed : PacketSeed} {sent : List Datagram}
    (h : data ∈ State.packets ⟨build client reports seed, sent⟩) :
    data ∈ sent.map (·.packet) ∨
      buildLatencyReportPacket client.crypto client.config.apiKey seed reports = .ok data := by
  refine (List.mem_append.mp h).symm.imp_right fun h => ?_
  unfold build at h
  split at h
  next packet hpacket =>
    obtain rfl := List.mem_singleton.mp h
    exact hpacket
  · cases h
  · cases h

theorem packets_sendNext {packet : List UInt8} {resolved : ResolvedTargets} {socket : ℕ}
    {targets : List SocketAddr} {sends : SendLoop} {sent : List Datagram}
    (h : data ∈ (sendNext packet resolved socket targets sends sent).packets) :
    data = packet ∨ data ∈ sent.map (·.packet) := by
  cases targets with
  | nil =>
    refine .inr ((List.mem_append.mp h).resolve_left fun h => ?_)
    unfold sendNext finishSends at h
    dsimp only at h
    split at h
    · split at h <;> cases h
    · split at h <;> cases h
  | cons target rest =>
    rcases List.mem_append.mp h with h | h
    · exact .inl (List.mem_singleton.mp h)
    · exact List.mem_cons.mp h

theorem packets_begin : (begin reports).packets = [] := by
  unfold begin State.packets
  split <;> rfl

/-- A report builds its packet in a step in which it has drawn a nonce. -/
theorem packets_of_step (hstep : step client reports s reply = some t) (h : data ∈ t.packets) :
    data ∈ s.packets ∨ ∃ seed, ((∃ last now, reply = .lastRefresh last now seed) ∨
      ∃ servers resolver now, reply = .refresh servers resolver now seed) ∧
        buildLatencyReportPacket client.crypto client.config.apiKey seed reports = .ok data := by
  have hsent (h : data ∈ s.sent.map (·.packet)) : data ∈ s.packets := List.mem_append_right _ h
  obtain ⟨pc, sent⟩ := s
  cases steps_of_step hstep with
  | @lastRefresh last now seed =>
    split at h
    · exact .inl (hsent h)
    · exact (packets_build h).imp hsent fun h => ⟨seed, .inl ⟨last, now, rfl⟩, h⟩
  | @refreshed servers resolver now seed =>
    exact (packets_build h).imp hsent fun h => ⟨seed, .inr ⟨servers, resolver, now, rfl⟩, h⟩
  | unrefreshed => exact .inl (hsent h)
  | resolved => exact .inl h
  | unresolved => exact .inl (hsent h)
  | socket =>
    rcases packets_sendNext h with rfl | h
    · exact .inl (List.mem_append_left _ (List.mem_singleton_self _))
    · exact .inl (hsent h)
  | sent =>
    rcases packets_sendNext h with rfl | h
    · exact .inl (List.mem_append_left _ (List.mem_singleton_self _))
    · exact .inl (hsent h)
  | stats => exact .inl (hsent h)

end Report

namespace Client

variable {client : CoreClient} {s t : State} {event : Event} {events : List Event} {i j : ℕ}
  {slot slot' : Slot} {data data' : List UInt8}

/-- The packets that a call has built; it sends no others. -/
def Call.packets : Call → List (List UInt8)
  | .check _ pc => pc.flight.toList.map (·.reg.packet)
  | .report _ state => state.packets

/-- The packet that a call builds from what it has drawn. -/
def Call.Builds (client : CoreClient) (seed : PacketSeed) (data : List UInt8) : Call → Prop
  | .check query _ => ∃ dedupTtlMs, Request.packetOf client query dedupTtlMs seed = .ok data
  | .report reports _ =>
    buildLatencyReportPacket client.crypto client.config.apiKey seed reports = .ok data

/-- What a call draws in this step. -/
def Event.drawn : Event → Option (ℕ × PacketSeed)
  | .wake i (.lastRefresh seed) | .wake i (.refresh _ seed) | .wake i (.activity seed) =>
      some (i, seed)
  | _ => none

theorem aesNonce_of_builds {key : Bytes 32} {seed : PacketSeed} {call : Call}
    (hauth : client.config.apiKey.authMethod = .aesGcm key) (h : call.Builds client seed data) :
    aesNonce data = seed.nonce.toList := by
  cases call with
  | check query pc =>
    obtain ⟨dedupTtlMs, h⟩ := h
    simp only [Request.packetOf, buildRateRequestPacket, Outcome.bind_eq_ok_iff, hauth] at h
    obtain ⟨_, -, _, -, h⟩ := h
    exact aesNonce_of_buildPacket h
  | report reports state =>
    simp only [Call.Builds, buildLatencyReportPacket, Outcome.bind_eq_ok_iff, hauth] at h
    obtain ⟨_, -, _, -, h⟩ := h
    exact aesNonce_of_buildPacket h

/-- Each packet was there before, or is built from what the call draws in this step. -/
theorem packets_of_step (hstep : step client s event = some t) (hslot : t.slots[i]? = some slot)
    (h : data ∈ slot.call.packets) :
    (∃ old, s.slots[i]? = some old ∧ data ∈ old.call.packets ∧
      ∀ seed, old.call.Builds client seed data → slot.call.Builds client seed data) ∨
    ∃ seed, event.drawn = some (i, seed) ∧ slot.call.Builds client seed data := by
  cases origin_of_step hstep hslot with
  | kept hold => exact .inl ⟨slot, hold, h, fun _ => id⟩
  | @drop old hold => exact .inl ⟨old, hold, h, fun _ => id⟩
  | @deliver old _ _ hold => exact .inl ⟨old, hold, h, fun _ => id⟩
  | check query =>
    rw [Call.packets, Request.not_flight_begin] at h
    cases h
  | report reports =>
    rw [Call.packets, Report.packets_begin] at h
    cases h
  | @request old query pc pc' wake reply hold _ hcall hevent hreply hrequest =>
    obtain ⟨flight, hflight, rfl⟩ := List.mem_map.mp h
    rw [hevent]
    rcases Request.packet_of_steps (Request.steps_of_step hrequest)
      (Option.mem_toList.mp hflight) with
      ⟨flight₀, hflight₀, heq⟩ | ⟨dedupTtlMs, seed, now, rfl, hpacket⟩
    · refine .inl ⟨old, hold, ?_, fun seed hbuilds => ?_⟩
      · rw [hcall]
        exact List.mem_map.mpr ⟨flight₀, Option.mem_toList.mpr hflight₀, heq⟩
      · rw [hcall] at hbuilds
        exact hbuilds
    · obtain ⟨-, -, -, rfl⟩ := answers_of_requestReply hreply
      exact .inr ⟨seed, rfl, dedupTtlMs, hpacket⟩
  | @reporting old reports state state' wake reply hold hcall hevent hreply hreport =>
    rw [hevent]
    rcases Report.packets_of_step hreport h with hstate | ⟨seed, hdrawn, hbuilds⟩
    · refine .inl ⟨old, hold, ?_, fun seed hbuilds => ?_⟩
      · rw [hcall]
        exact hstate
      · rw [hcall] at hbuilds
        exact hbuilds
    · refine .inr ⟨seed, ?_, hbuilds⟩
      rcases hdrawn with ⟨last, now, rfl⟩ | ⟨servers, resolver, now, rfl⟩
      · cases wake <;> cases hreply
        rfl
      · cases wake <;> cases hreply
        rfl

/-- Each packet is built from what its call has drawn along the run. -/
theorem packets_of_run (hrun : (lts client).Run s events t) (hslot : t.slots[i]? = some slot)
    (h : data ∈ slot.call.packets) :
    (∃ old, s.slots[i]? = some old ∧ data ∈ old.call.packets ∧
      ∀ seed, old.call.Builds client seed data → slot.call.Builds client seed data) ∨
    ∃ seed, (i, seed) ∈ events.filterMap Event.drawn ∧ slot.call.Builds client seed data := by
  induction hrun with
  | refl => exact .inl ⟨slot, hslot, h, fun _ => id⟩
  | @head s event t events u hstep _ ih =>
    rcases ih hslot with ⟨old, hold, hdata, hbuilds⟩ | ⟨seed, hdrawn, hbuilds⟩
    · rcases packets_of_step hstep hold hdata with
        ⟨older, holder, hdata, hbuilds'⟩ | ⟨seed, hdrawn, hbuilds'⟩
      · exact .inl ⟨older, holder, hdata, fun seed h => hbuilds seed (hbuilds' seed h)⟩
      · exact .inr ⟨seed, List.mem_filterMap.mpr ⟨event, List.mem_cons_self, hdrawn⟩,
          hbuilds seed hbuilds'⟩
    · obtain ⟨event', hevent', hdrawn⟩ := List.mem_filterMap.mp hdrawn
      exact .inr ⟨seed, List.mem_filterMap.mpr ⟨event', List.mem_cons_of_mem _ hevent', hdrawn⟩,
        hbuilds⟩

/-- A call builds at most one packet from what it draws at one point. -/
theorem eq_of_builds {seed : PacketSeed} (hdata : data ∈ slot.call.packets)
    (hdata' : data' ∈ slot.call.packets) (h : slot.call.Builds client seed data)
    (h' : slot.call.Builds client seed data') : data = data' := by
  cases hcall : slot.call with
  | check query pc =>
    rw [hcall] at hdata hdata'
    obtain ⟨flight, hflight, rfl⟩ := List.mem_map.mp hdata
    obtain ⟨flight', hflight', rfl⟩ := List.mem_map.mp hdata'
    rw [Option.mem_toList] at hflight hflight'
    cases hflight.symm.trans hflight'
    rfl
  | report reports state =>
    rw [hcall] at h h'
    exact Outcome.ok.inj (h.symm.trans h')

/-- If the nonces that a client draws are distinct, two of its packets with one nonce are the same
packet of one call: replays and completions repeat it, and all else is under a nonce of its own. -/
theorem nonce_used_once {key : Bytes 32} (hauth : client.config.apiKey.authMethod = .aesGcm key)
    (hinit : (lts client).init s) (hrun : (lts client).Run s events t)
    (hdistinct : ((events.filterMap Event.drawn).map fun drawn => drawn.2.nonce).Nodup)
    (hslot : t.slots[i]? = some slot) (hslot' : t.slots[j]? = some slot')
    (hdata : data ∈ slot.call.packets) (hdata' : data' ∈ slot'.call.packets)
    (hnonce : aesNonce data = aesNonce data') : i = j ∧ data = data' := by
  have hbuilt {i : ℕ} {slot : Slot} {data : List UInt8} (hslot : t.slots[i]? = some slot)
      (hdata : data ∈ slot.call.packets) :
      ∃ seed, (i, seed) ∈ events.filterMap Event.drawn ∧ slot.call.Builds client seed data := by
    refine (packets_of_run hrun hslot hdata).resolve_left ?_
    rintro ⟨old, hold, -⟩
    obtain ⟨bindUdp, now, hnew⟩ := hinit
    obtain ⟨socket, -, -, -, rfl⟩ := new_eq_ok_iff.mp hnew
    simp [start] at hold
  obtain ⟨seed, hdrawn, hbuilds⟩ := hbuilt hslot hdata
  obtain ⟨seed', hdrawn', hbuilds'⟩ := hbuilt hslot' hdata'
  have hseeds : seed.nonce = seed'.nonce := by
    rw [aesNonce_of_builds hauth hbuilds, aesNonce_of_builds hauth hbuilds'] at hnonce
    exact Bytes.ext hnonce
  cases List.inj_on_of_nodup_map hdistinct hdrawn hdrawn' hseeds
  cases hslot.symm.trans hslot'
  exact ⟨rfl, eq_of_builds hdata hdata' hbuilds hbuilds'⟩

/-! ### Two requests under AES -/

def sampleDraw (id : UInt8) : PacketSeed := ⟨.ofList 16 [id], .ofList 12 [id], 1000⟩

def sampleSealedState : State :=
  start Request.sampleSealedClient.config ⟨some 0, some 1⟩ 100000000000

def sampleDraws : List Event :=
  [.check sampleQuery, .wake 0 (.lastRefresh (sampleDraw 1)),
    .wake 0 (.refresh sampleResolver (sampleDraw 2)),
    .wake 0 (.servers sampleResolver), .wake 0 (.activity (sampleDraw 3)), .check sampleQuery,
    .wake 1 (.lastRefresh (sampleDraw 4)), .wake 1 (.servers sampleResolver),
    .wake 1 (.activity (sampleDraw 5))]

theorem nonce_used_once_sample : ∃ (t : State) (slot slot' : Slot), t.slots[0]? = some slot ∧
    t.slots[1]? = some slot' ∧ ∃ data ∈ slot.call.packets, ∃ data' ∈ slot'.call.packets,
      aesNonce data ≠ aesNonce data' := by
  obtain ⟨t, ht, htest⟩ := (Option.any_eq_true _ _).mp
    (show (Lts.runSteps (step Request.sampleSealedClient) sampleDraws
        sampleSealedState).any (fun t =>
      t.slots[0]?.any (fun slot => slot.call.packets ≠ []) ∧
        t.slots[1]?.any (fun slot => slot.call.packets ≠ [])) = true by decide +kernel)
  obtain ⟨hfirst, hsecond⟩ := of_decide_eq_true htest
  obtain ⟨slot, hslot, hne⟩ := (Option.any_eq_true _ _).mp hfirst
  obtain ⟨slot', hslot', hne'⟩ := (Option.any_eq_true _ _).mp hsecond
  obtain ⟨data, hdata⟩ := List.exists_mem_of_ne_nil _ (of_decide_eq_true hne)
  obtain ⟨data', hdata'⟩ := List.exists_mem_of_ne_nil _ (of_decide_eq_true hne')
  have hinit : (lts Request.sampleSealedClient).init sampleSealedState :=
    ⟨fun _ ipv6 => .ok (if ipv6 then 1 else 0), 100000000000,
      new_eq_ok_iff.mpr ⟨⟨some 0, some 1⟩, 60, rfl, by decide +kernel, rfl⟩⟩
  refine ⟨t, slot, slot', hslot, hslot', data, hdata, data', hdata', fun hnonce => ?_⟩
  have hsame := nonce_used_once rfl hinit
    (.of_runSteps (m := lts Request.sampleSealedClient) (fun _ _ _ _ h => h) ht) (by decide +kernel)
    hslot hslot' hdata hdata' hnonce
  exact absurd hsame.1 Nat.zero_ne_one

end Client

end Ratelimitly
