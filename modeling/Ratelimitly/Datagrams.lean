import Mathlib.Tactic
import Ratelimitly.Flights
import Ratelimitly.Report

/-! What the datagrams of a client decode to. -/
namespace Ratelimitly

open Lib

variable {client : CoreClient} {query : Query} {reports : List ServiceLatencyReport}

/-- The datagram decodes to the query, with the deduplication lifetime `dedupTtlMs`. -/
def Asks (client : CoreClient) (query : Query) (dedupTtlMs : UInt32) (seed : PacketSeed)
    (packet : List UInt8) : Prop :=
  ∃ pdu, Carries client.crypto client.config.apiKey seed pdu packet ∧
    AsksFor client.crypto dedupTtlMs query.resources query.guards query.metricsLabel pdu

/-- The datagram decodes to the reports. -/
def Tells (client : CoreClient) (reports : List ServiceLatencyReport) (seed : PacketSeed)
    (packet : List UInt8) : Prop :=
  ∃ pdu, Carries client.crypto client.config.apiKey seed pdu packet ∧
    Reports client.crypto reports pdu

namespace Request

/-- What `register` leaves: a registration whose packet decodes, or a failed call. -/
theorem register_asks (hcrypto : client.crypto.AeadCorrect) (dedupTtlMs : UInt32)
    (resolved : ResolvedTargets) (seed : PacketSeed) (now : ℕ) :
    (∃ packet, Asks client query dedupTtlMs seed packet ∧
      let reg := registration client dedupTtlMs resolved seed now packet
      register client query dedupTtlMs resolved seed now = .flying ⟨reg, reg.start⟩) ∨
    ∃ outcome, (∀ result, outcome ≠ .ok result) ∧
      register client query dedupTtlMs resolved seed now = .returned none outcome := by
  unfold register
  split
  next error _ => exact .inr ⟨.err error, nofun, rfl⟩
  next => exact .inr ⟨.panic, nofun, rfl⟩
  next packet hpacket => exact .inl ⟨packet, buildRateRequestPacket_spec hcrypto hpacket, rfl⟩

theorem flight_asks (hcrypto : client.crypto.AeadCorrect) {pc : Pc}
    (h : (lts client query).Reachable pc) {flight : Flight} (hflight : pc.flight = some flight) :
    ∃ seed, seed.requestId = flight.reg.requestId ∧
      Asks client query flight.reg.dedupTtlMs seed flight.reg.packet := by
  obtain ⟨seed, hpacket, hreg⟩ := (sound_flight h hflight).registered.packet
  refine ⟨seed, ?_, buildRateRequestPacket_spec hcrypto hpacket⟩
  rw [hreg]
  rfl

end Request

namespace Report

theorem build_tells (hcrypto : client.crypto.AeadCorrect) (seed : PacketSeed) :
    (∃ packet, Tells client reports seed packet ∧ build client reports seed = .resolving packet) ∨
    ∃ outcome, outcome ≠ .ok () ∧ build client reports seed = .returned outcome := by
  unfold build
  split
  next packet hpacket => exact .inl ⟨packet, buildLatencyReportPacket_spec hcrypto hpacket, rfl⟩
  next error _ => exact .inr ⟨.err error, nofun, rfl⟩
  next => exact .inr ⟨.panic, nofun, rfl⟩

theorem sent_tells (hcrypto : client.crypto.AeadCorrect) {s : State}
    (h : (lts client reports).Reachable s) : ∀ datagram ∈ s.sent,
      ∃ seed, Tells client reports seed datagram.packet := by
  intro datagram hd
  obtain ⟨seed, hpacket⟩ := (sound_reachable h).sent datagram hd
  exact ⟨seed, buildLatencyReportPacket_spec hcrypto hpacket⟩

end Report

/-- A packet that cannot be built ends the call before anything is registered or sent. Every packet
that a call sends decodes to exactly what it was asked to send. -/
theorem packets_decode (client : CoreClient) (hcrypto : client.crypto.AeadCorrect) :
    (∀ query dedupTtlMs resolved seed now,
      (∃ packet, Asks client query dedupTtlMs seed packet ∧
        let reg := Request.registration client dedupTtlMs resolved seed now packet
        Request.register client query dedupTtlMs resolved seed now = .flying ⟨reg, reg.start⟩) ∨
      ∃ outcome, (∀ result, outcome ≠ .ok result) ∧
        Request.register client query dedupTtlMs resolved seed now = .returned none outcome) ∧
    (∀ query pc flight, (Request.lts client query).Reachable pc → pc.flight = some flight →
      ∃ seed, seed.requestId = flight.reg.requestId ∧
        Asks client query flight.reg.dedupTtlMs seed flight.reg.packet) ∧
    (∀ reports seed,
      (∃ packet, Tells client reports seed packet ∧
        Report.build client reports seed = .resolving packet) ∨
      ∃ outcome, outcome ≠ .ok () ∧ Report.build client reports seed = .returned outcome) ∧
    ∀ reports s, (Report.lts client reports).Reachable s → ∀ datagram ∈ s.sent,
      ∃ seed, Tells client reports seed datagram.packet :=
  ⟨fun _ dedupTtlMs resolved seed now => Request.register_asks hcrypto dedupTtlMs resolved seed now,
    fun _ _ _ h hflight => Request.flight_asks hcrypto h hflight,
    fun _ seed => Report.build_tells hcrypto seed,
    fun _ _ h => Report.sent_tells hcrypto h⟩

/-- The sample query asks for one resource, and its packet is built. -/
theorem packets_decode_sample : ∃ packet, Asks sampleClient sampleQuery 60 sampleSeed packet := by
  have h := (packets_decode sampleClient sampleCrypto_aeadCorrect).1 sampleQuery 60 sampleTargets
    sampleSeed 0
  rcases h with ⟨packet, hasks, -⟩ | ⟨outcome, -, hfailed⟩
  · exact ⟨packet, hasks⟩
  · obtain ⟨packet, hpacket⟩ : ∃ packet, Request.packetOf sampleClient sampleQuery 60 sampleSeed =
        .ok packet := Outcome.isOk_iff.mp (by decide +kernel)
    rw [Request.register, ← Request.packetOf, hpacket] at hfailed
    cases hfailed

end Ratelimitly
