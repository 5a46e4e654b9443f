import Mathlib.Tactic
import Ratelimitly.RequestFormat

/-! What an accepted AES response proves, and that the client's own datagrams are no responses. -/
namespace Ratelimitly

open Lib

/-- The bytes a sealed message travels as. -/
def Seal.datagram (entry : Seal) : List UInt8 := entry.aad ++ entry.tag.toList ++ entry.ciphertext

theorem exists_seal_of_authenticated {crypto : Crypto} {sealed : Bytes 32 → Seal → Prop}
    (hideal : crypto.OpensOnly sealed) {key : Bytes 32} {T A P p : List UInt8}
    (h : Authenticated crypto T (.aesGcm key) A P p) :
    ∃ entry, sealed key entry ∧ T ++ A ++ P = entry.datagram ∧
      ∃ aadPrefix, entry.aad = aadPrefix ++ entry.nonce.toList := by
  cases h with
  | aesGcm key nonce tag P p hopen =>
    refine ⟨_, hideal _ _ _ _ _ _ hopen, ?_, T ++ (leBytes 2 0x4541 ++ leBytes 2 32), ?_⟩
    · simp [Seal.datagram]
    · simp

/-- A datagram that carries a PDU of another type is no response. -/
theorem not_response_of_carries {crypto : Crypto} {apiKey : ApiKeyConfig} {seed : PacketSeed}
    {pdu packet : List UInt8} (h : Carries crypto apiKey seed pdu packet)
    (htype : le16 (sub pdu 0 2) ≠ pduRateResponse) (result : RateLimitResult) :
    parseRateResponseWithAuth crypto packet apiKey.authMethod apiKey.authMethod.cookieHashCache
      apiKey.authMethod.aesKeyCache ≠ .ok result := by
  intro hok
  simp only [parseRateResponseWithAuth, h.header_eq, Outcome.ok_bind, h.pdu_eq] at hok
  exact htype (parseRateResponsePdu_checked hok).2.1

/-- Under AES an accepted datagram was sealed as a whole, and under any method the client accepts
no request or report of its own. -/
theorem parseRateResponseWithAuth_authentic (crypto : Crypto) (sealed : Bytes 32 → Seal → Prop)
    (hcorrect : crypto.AeadCorrect) (hideal : crypto.OpensOnly sealed) :
    (∀ key data result,
      parseRateResponseWithAuth crypto data (.aesGcm key) none (some key) = .ok result →
        ∃ entry, sealed key entry ∧ data = entry.datagram ∧
          ∃ aadPrefix, entry.aad = aadPrefix ++ entry.nonce.toList) ∧
      (∀ apiKey seed dedupTtlMs resources guards metricsLabel packet,
        buildRateRequestPacket crypto apiKey seed dedupTtlMs resources guards metricsLabel =
            .ok packet →
          ∀ result, parseRateResponseWithAuth crypto packet apiKey.authMethod
            apiKey.authMethod.cookieHashCache apiKey.authMethod.aesKeyCache ≠ .ok result) ∧
      ∀ apiKey seed reports packet,
        buildLatencyReportPacket crypto apiKey seed reports = .ok packet →
          ∀ result, parseRateResponseWithAuth crypto packet apiKey.authMethod
            apiKey.authMethod.cookieHashCache apiKey.authMethod.aesKeyCache ≠ .ok result := by
  refine ⟨?_, ?_, ?_⟩
  · intro key data result h
    simp only [parseRateResponseWithAuth, Outcome.bind_eq_ok_iff, Prod.exists] at h
    obtain ⟨header, pos, hheader, pdu, hpdu, -⟩ := h
    change parseAuthTlv crypto data pos (.aesGcm key) (AuthMethod.aesGcm key).cookieHashCache
      (AuthMethod.aesGcm key).aesKeyCache = .ok pdu at hpdu
    obtain ⟨A, P, hdrop, hauth⟩ := parseAuthTlv_eq_ok_iff.mp hpdu
    obtain ⟨entry, hsealed, hdata, haad⟩ := exists_seal_of_authenticated hideal hauth
    refine ⟨entry, hsealed, ?_, haad⟩
    rw [← hdata, List.append_assoc, ← hdrop, List.take_append_drop]
  · intro apiKey seed dedupTtlMs resources guards metricsLabel packet h result
    obtain ⟨pdu, hcarries, hasks⟩ := buildRateRequestPacket_spec hcorrect h
    exact not_response_of_carries hcarries (by rw [hasks.type_eq]; decide) result
  · intro apiKey seed reports packet h result
    obtain ⟨pdu, hcarries, hreports⟩ := buildLatencyReportPacket_spec hcorrect h
    exact not_response_of_carries hcarries (by rw [hreports.type_eq]; decide) result

/-- A response a server sealed for server id 7: a grant of one resource. -/
def sampleKey : Bytes 32 := ⟨(List.range 32).map UInt8.ofNat, by decide⟩

def sampleSeal : Seal where
  nonce := ⟨(List.range 12).map UInt8.ofNat, by decide⟩
  aad := [82, 76, 40, 0, 7, 0, 0, 0, 0, 0, 0, 0, 0, 1, 2, 3, 4, 5, 6, 7, 8, 9, 10, 11, 12, 13, 14,
    15, 232, 3, 0, 0, 0, 0, 0, 0, 1, 0, 0, 0, 65, 69, 32, 0, 0, 1, 2, 3, 4, 5, 6, 7, 8, 9, 10, 11]
  plaintext := [82, 82, 40, 0, 0, 0, 0, 0, 0, 0, 1, 0, 0, 1, 2, 3, 4, 5, 6, 7, 8, 9, 10, 11, 12,
    13, 14, 15, 232, 3, 0, 0, 3, 0, 0, 0, 0, 0, 0, 0]
  ciphertext := [21, 80, 254, 27, 197, 229, 194, 27, 141, 65, 150, 139, 177, 232, 122, 110, 135,
    211, 129, 51, 248, 114, 85, 119, 52, 106, 235, 138, 245, 106, 0, 178, 2, 16, 174, 252, 175,
    193, 18, 152]
  tag := ⟨[10, 146, 145, 37, 232, 174, 145, 44, 149, 214, 200, 248, 175, 176, 163, 211], by decide⟩

/-- The digest is that of the sample request's resource. -/
def sampleCrypto : Crypto := sampleSeal.crypto sampleKey fun _ =>
  ⟨[125, 88, 166, 63, 65, 149, 112, 131, 54, 227, 63, 98, 223, 230, 139, 7, 1, 33, 210, 97, 134, 94,
    193, 214, 155, 132, 38, 128, 217, 4, 232, 176], by decide⟩

def sampleApiKey : ApiKeyConfig where
  serviceDomain := "c-7.p0.ratelimitly.com"
  keyId := 7
  authMethod := .none
  limits := ⟨1, 1, 1, 1, 2000, 4294967295⟩
  steeringFeedback := true

def sampleSeed : PacketSeed where
  requestId := .ofList 16 []
  nonce := .ofList 12 []
  nowMillis := 1000

def sampleResource : ResourceRequest := ⟨"a", 1000, 5, 1⟩

theorem sampleCrypto_aeadCorrect : sampleCrypto.AeadCorrect :=
  Seal.crypto_aeadCorrect (by decide) (by decide)

theorem parseRateResponseWithAuth_authentic_sample :
    (∃ entry : Seal, sampleCrypto.encrypt sampleKey entry.nonce entry.plaintext entry.aad =
        some (entry.ciphertext ++ entry.tag.toList) ∧
      sampleSeal.datagram = entry.datagram ∧
      ∃ aadPrefix, entry.aad = aadPrefix ++ entry.nonce.toList) ∧
      ∃ packet, buildRateRequestPacket sampleCrypto sampleApiKey sampleSeed 60 [sampleResource] []
          none = .ok packet ∧
        ∀ result, parseRateResponseWithAuth sampleCrypto packet .none none none ≠ .ok result := by
  have h := parseRateResponseWithAuth_authentic sampleCrypto _ sampleCrypto_aeadCorrect
    Seal.crypto_opensOnly
  refine ⟨h.1 sampleKey _ (responseOf (sampleSeal.aad.take 40) sampleSeal.plaintext)
    (by decide +kernel), ?_⟩
  obtain ⟨packet, hpacket⟩ : ∃ packet, buildRateRequestPacket sampleCrypto sampleApiKey sampleSeed
      60 [sampleResource] [] none = .ok packet := Outcome.isOk_iff.mp (by decide +kernel)
  exact ⟨packet, hpacket, h.2.1 sampleApiKey sampleSeed 60 [sampleResource] [] none packet hpacket⟩

end Ratelimitly
