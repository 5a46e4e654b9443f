import Mathlib.Tactic
import Ratelimitly.ApiKeyFormat
import Ratelimitly.Capacity
import Ratelimitly.Client
import Ratelimitly.Response
import Ratelimitly.ServiceDomains

/-! The public API: API keys, the client builder, and what the operations of a client return. -/
namespace Ratelimitly

open Lib

variable {crypto : Crypto}

/-! ### API keys -/

structure ApiKey where
  keyId : UInt64
  authMethod : AuthMethod
  limits : ApiKeyLimits
  deriving DecidableEq, Repr

/-- `ApiKeyError::from_decode_error`. -/
def ApiKeyError.fromDecodeError : DecodeError → ApiKeyError
  | .unsupportedFormatVersion _ => .unsupportedVersion
  | .unsupportedAuthMethod _ | .invalidHrpPrefix => .unsupportedCredential
  | .invalidPackedQuota => .invalidLimits
  | _ => .invalidEncoding

namespace ApiKey

/-- The credential of a decoded key, by the name of its method and the length of its secret. -/
def credential (authMethod : String) (authSecret : List UInt8) : Outcome ApiKeyError AuthMethod :=
  if authMethod = "none" ∧ authSecret = [] then .ok .none
  else if h : authMethod = "cookie" ∧ authSecret.length = 32 then .ok (.cookie ⟨authSecret, h.2⟩)
  else if h : authMethod = "aes" ∧ authSecret.length = 32 then .ok (.aesGcm ⟨authSecret, h.2⟩)
  else .err .unsupportedCredential

/-- `FromStr for ApiKey`. -/
def fromStr (encoded : String) : Outcome ApiKeyError ApiKey := do
  let decoded ← (decodeApiKey encoded).mapErr .fromDecodeError
  let limits ← .okOr .unsupportedCredential decoded.limits
  let authMethod ← credential decoded.authMethod decoded.authSecret
  pure { keyId := decoded.keyId, authMethod, limits }

end ApiKey

/-! ### Clients -/

/-- `Client`; its clones share `inner`. -/
structure PublicClient where
  inner : CoreClient
  serviceDomain : String
  limits : ApiKeyLimits

/-- `ClientBuilder`, without the DNS server that its resolver would use. -/
structure ClientBuilder where
  apiKey : ApiKey
  serviceDomain : String
  requestPolicy : RequestPolicy

namespace ClientBuilder

/-- `Client::builder`. -/
def new (apiKey : ApiKey) : ClientBuilder := ⟨apiKey, defaultDomain apiKey.keyId, .default⟩

/-- `ClientBuilder::service_domain`. -/
def withServiceDomain (builder : ClientBuilder) (domain : String) : Outcome Error ClientBuilder :=
  if ¬ validDnsName domain then .err (.invalidConfiguration .invalidServiceDomain)
  else .ok { builder with serviceDomain := domain }

/-- `ClientBuilder::request_policy`. -/
def withRequestPolicy (builder : ClientBuilder) (policy : RequestPolicy) : ClientBuilder :=
  { builder with requestPolicy := policy }

def config (builder : ClientBuilder) : CoreConfig where
  apiKey := {
    serviceDomain := builder.serviceDomain
    keyId := builder.apiKey.keyId
    authMethod := builder.apiKey.authMethod
    limits := builder.apiKey.limits
    steeringFeedback := true }
  dnsRefreshIntervalS := 60
  ignoreSteeringFeedback := false
  requestPolicy := builder.requestPolicy

/-- `ClientBuilder::build`: the client, and the state it starts in. -/
def build (crypto : Crypto) (ipText : IpText) (builder : ClientBuilder) (bindUdp : BindUdp)
    (now : ℕ) : Outcome Error (PublicClient × Client.State) := do
  let limits := builder.apiKey.limits
  let _ ← (builder.requestPolicy.horizonMs limits.dedupTtlMsMax).mapErr .invalidConfiguration
  let state ← (Client.new builder.config bindUdp now).mapErr .ofCoreError
  pure (⟨⟨crypto, ipText, builder.config⟩, builder.serviceDomain, limits⟩, state)

/-- The builders that a caller can have. -/
inductive Made : ClientBuilder → Prop
  | new (apiKey : ApiKey) : Made (.new apiKey)
  | serviceDomain {builder builder' : ClientBuilder} {domain : String} : Made builder →
      builder.withServiceDomain domain = .ok builder' → Made builder'
  | requestPolicy {builder : ClientBuilder} (policy : RequestPolicy) : Made builder →
      Made (builder.withRequestPolicy policy)

end ClientBuilder

/-! ### Operations -/

/-- What `RequestBuilder::send` passes to `check_rate_limit`. -/
def RequestBuilder.query (builder : RequestBuilder) : Query :=
  ⟨builder.resources, builder.guards, builder.metricsLabel⟩

/-- What `RequestBuilder::send` makes of the outcome. -/
def sendResult (outcome : Outcome CoreError RateLimitResult) : Outcome Error Response := do
  let result ← outcome.mapErr .ofCoreError
  pure (Response.ofResult result)

/-- What `Client::report_latency` makes of the outcome. -/
def reportResult (outcome : Outcome CoreError Unit) : Outcome Error Unit :=
  outcome.mapErr .ofCoreError

/-! ### What parses as a key -/

theorem ApiKey.mem_of_credential {authMethod : String} {authSecret : List UInt8}
    {method : AuthMethod} (h : credential authMethod authSecret = .ok method) :
    authMethod ∈ ["none", "cookie", "aes"] := by
  unfold credential at h
  split_ifs at h with hnone hcookie haes
  · simp [hnone.1]
  · simp [hcookie.1]
  · simp [haes.1]

/-- Text parses as a key if and only if it encodes a credential, in either case. -/
theorem ApiKey.fromStr_eq_ok_iff {encoded : String} {key : ApiKey} :
    fromStr encoded = .ok key ↔ IsAscii encoded ∧ ¬ MixedCase encoded ∧
      ∃ c : Credential, c.encode = .ok (toAsciiLowercase encoded) ∧ c.keyId = key.keyId ∧
        c.limits = key.limits ∧ credential c.authMethod c.authSecret = .ok key.authMethod := by
  simp only [fromStr, Outcome.bind_eq_ok_iff, Outcome.mapErr_eq_ok_iff, Outcome.okOr_eq_ok_iff,
    Outcome.pure_eq, Outcome.ok.injEq]
  constructor
  · rintro ⟨decoded, hdecoded, limits, hlimits, authMethod, hmethod, rfl⟩
    obtain ⟨hascii, hcase, c, henc, rfl⟩ :=
      decodeApiKey_eq_ok_iff_encode.mp ⟨hdecoded, mem_of_credential hmethod⟩
    exact ⟨hascii, hcase, c, henc, rfl, Option.some.inj hlimits, hmethod⟩
  · rintro ⟨hascii, hcase, c, henc, hkeyId, hlimits, hmethod⟩
    obtain ⟨hdecoded, -⟩ := decodeApiKey_eq_ok_iff_encode.mpr ⟨hascii, hcase, c, henc, rfl⟩
    refine ⟨c.decoded, hdecoded, c.limits, rfl, key.authMethod, hmethod, ?_⟩
    cases key
    cases hkeyId
    cases hlimits
    rfl

/-! ### What is built -/

namespace ClientBuilder

variable {ipText : IpText} {builder : ClientBuilder} {bindUdp : BindUdp} {now : ℕ}
  {client : PublicClient} {state : Client.State}

theorem Made.validDnsName (h : builder.Made) : validDnsName builder.serviceDomain = true := by
  induction h with
  | new apiKey => exact validDnsName_defaultDomain apiKey.keyId
  | serviceDomain _ hdomain _ =>
    unfold withServiceDomain at hdomain
    split at hdomain
    · cases hdomain
    next hvalid =>
      cases hdomain
      exact not_not.mp hvalid
  | requestPolicy _ _ ih => exact ih

/-- `service_domain` accepts exactly the host names of at most 253 characters, and whatever a caller
does, the domain of a builder is one. -/
theorem service_domains_valid :
    (∀ (builder : ClientBuilder) domain,
      (∃ builder', builder.withServiceDomain domain = .ok builder') ↔
      ∃ labels, HostName domain.toList labels) ∧
    ∀ builder : ClientBuilder, builder.Made →
      ∃ labels, HostName builder.serviceDomain.toList labels := by
  refine ⟨fun builder domain => ?_, fun builder hmade => validDnsName_iff.mp hmade.validDnsName⟩
  rw [← validDnsName_iff, withServiceDomain]
  cases validDnsName domain with
  | true => exact iff_of_true ⟨_, rfl⟩ rfl
  | false =>
    refine iff_of_false ?_ Bool.false_ne_true
    rintro ⟨builder', h⟩
    cases h

theorem service_domains_valid_sample :
    ∃ labels,
      HostName (new ⟨7, .none, ⟨1, 1, 1, 1, 2000, 4294967295⟩⟩).serviceDomain.toList labels :=
  service_domains_valid.2 _ (.new _)

theorem build_eq_ok (h : builder.build crypto ipText bindUdp now = .ok (client, state)) :
    client = ⟨⟨crypto, ipText, builder.config⟩, builder.serviceDomain, builder.apiKey.limits⟩ ∧
      Client.new builder.config bindUdp now = .ok state := by
  simp only [build, Outcome.bind_eq_ok_iff, Outcome.mapErr_eq_ok_iff, Outcome.pure_eq,
    Outcome.ok.injEq, Prod.mk.injEq] at h
  obtain ⟨-, -, state', hnew, hclient, rfl⟩ := h
  exact ⟨hclient.symm, hnew⟩

end ClientBuilder

namespace RequestBuilder

variable {limits : ApiKeyLimits} {builder builder' : RequestBuilder} {entry : RequestEntry crypto}
  {entries : List (RequestEntry crypto)}

end RequestBuilder

end Ratelimitly
