import Mathlib.Tactic
import Ratelimitly.ResponseParser

/-! Assembly of the datagrams the client sends. -/
namespace Ratelimitly

open Lib

variable {ε : Type}

def maxPacketSize : ℕ := 1200

/-- `size_of::<GuardBlock>()` and `size_of::<ResourceBlock>()`. -/
def guardLen : ℕ := 36
def resourceLen : ℕ := 28

def validateRateWindowsAgainstQuota (resources : List ResourceRequest)
    (rateWindowSizeMsMax : Option UInt32) : Outcome CoreError Unit :=
  match rateWindowSizeMsMax with
  | none => pure ()
  | some limit =>
    match resources.find? fun resource => resource.windowSizeMs > limit with
    | some resource =>
      .err (.protocol ("Resource '" ++ resource.bucketName ++ "' window_size_ms " ++
        decText resource.windowSizeMs.toNat ++ " exceeds rate_window_size_ms_max " ++
        decText limit.toNat))
    | none => pure ()

/-! ### The tenant header -/

def buildTenantHeader (apiKey : ApiKeyConfig) (requestId : Bytes 16) (nowMillis : UInt64) :
    TenantHeader where
  tlvType := tlvTenant
  tlvSize := UInt16.ofNat tenantTlvLen
  keyId := apiKey.keyId
  uniqueId := requestId
  timeStamp := nowMillis
  steeringFeedback := if apiKey.steeringFeedback then 1 else 0
  tenantMgmtFlag := 0
  padding := ⟨[0, 0], rfl⟩

def writeTenantHeader (packet : List UInt8) (header : TenantHeader) : Outcome ε (List UInt8) := do
  let packet := packet ++ List.replicate tenantTlvLen 0
  let head ← header.writeToBuffer (← slice packet 0 tenantTlvLen)
  pure (head ++ packet.drop tenantTlvLen)

/-! ### PDU bodies -/

/-- `body.resize(offset + blockLen, 0)` and a write to `body[offset..]`. -/
def appendBlock (blockLen : ℕ) (writeToBuffer : List UInt8 → Outcome ε (List UInt8))
    (body : List UInt8) : Outcome ε (List UInt8) := do
  let offset := body.length
  let body := body ++ List.replicate blockLen 0
  let block ← writeToBuffer (← slice body offset body.length)
  pure (body.take offset ++ block)

def guardBlockOf (crypto : Crypto) (guard : LatencyGuard) : Outcome ε GuardBlock := do
  let latencyTrackerId ← deriveLatencyTrackerId crypto guard.latencyTrackerName guard.ttlMs
    guard.maxSamples guard.minSampleThreshold
  pure {
    latencyTrackerId
    ttlMs := guard.ttlMs
    maxSamples := guard.maxSamples
    minSampleThreshold := guard.minSampleThreshold
    latencyThreshold := guard.thresholdMs
    currentLatency := 0 }

def resourceBlockOf (crypto : Crypto) (resource : ResourceRequest) : Outcome ε ResourceBlock := do
  let bucketId ← deriveBucketId crypto resource.bucketName resource.windowSizeMs resource.rateLimit
  pure {
    bucketId
    windowSizeMs := resource.windowSizeMs
    rateLimit := resource.rateLimit
    tokensRequested := resource.tokensRequested
    padding := 0 }

def serviceLatencyBlockOf (crypto : Crypto) (report : ServiceLatencyReport) :
    Outcome ε ServiceLatencyBlock := do
  let latencyTrackerId ← deriveLatencyTrackerId crypto report.latencyTrackerName report.ttlMs
    report.maxSamples report.minSampleThreshold
  pure {
    latencyTrackerId
    ttlMs := report.ttlMs
    maxSamples := report.maxSamples
    minSampleThreshold := report.minSampleThreshold
    observedLatency := report.observedLatency }

def appendGuard (crypto : Crypto) (body : List UInt8) (guard : LatencyGuard) :
    Outcome ε (List UInt8) := do
  let guardBlock ← guardBlockOf crypto guard
  appendBlock guardLen guardBlock.writeToBuffer body

def appendResource (crypto : Crypto) (body : List UInt8) (resource : ResourceRequest) :
    Outcome ε (List UInt8) := do
  let resourceBlock ← resourceBlockOf crypto resource
  appendBlock resourceLen resourceBlock.writeToBuffer body

def appendReport (crypto : Crypto) (body : List UInt8) (report : ServiceLatencyReport) :
    Outcome ε (List UInt8) := do
  let block ← serviceLatencyBlockOf crypto report
  appendBlock serviceLatencyBlockWireLen block.writeToBuffer body

def appendMetricsLabelTlv (pduBody : List UInt8) (label : String) :
    Outcome CoreError (List UInt8) := do
  let labelBytes := utf8Bytes label.toList
  .failIf (labelBytes.length > 65535) (.protocol "Metrics label too long")
  let bodyLen := 2 + labelBytes.length
  let padding := (4 - bodyLen % 4) % 4
  let tlvSize := 4 + bodyLen + padding
  .failIf (tlvSize > 65535) (.protocol "Metrics label TLV too large")
  let pduBody := pduBody ++ leBytes 2 tlvMetricsLabel.toNat
  let pduBody := pduBody ++ leBytes 2 (UInt16.ofNat tlvSize).toNat
  let pduBody := pduBody ++ leBytes 2 (UInt16.ofNat labelBytes.length).toNat
  let pduBody := pduBody ++ labelBytes
  if padding > 0 then do
    let pad ← slice [0, 0, 0, 0] 0 padding
    pure (pduBody ++ pad)
  else pure pduBody

def buildRateRequestBody (crypto : Crypto) (resources : List ResourceRequest)
    (guards : List LatencyGuard) (metricsLabel : Option String) :
    Outcome CoreError (List UInt8) := do
  let body := leBytes 2 (UInt16.ofNat guards.length).toNat
  let body := body ++ leBytes 2 (UInt16.ofNat resources.length).toNat
  let body ← guards.foldlM (appendGuard crypto) body
  let body ← resources.foldlM (appendResource crypto) body
  match metricsLabel with
  | some label => appendMetricsLabelTlv body label
  | none => pure body

def buildLatencyReportBody (crypto : Crypto) (reports : List ServiceLatencyReport) :
    Outcome CoreError (List UInt8) := do
  let body := leBytes 2 (UInt16.ofNat reports.length).toNat
  let body := body ++ [0, 0]
  reports.foldlM (appendReport crypto) body

/-! ### PDUs -/

/-- The common shape of the two PDU builders: type, size and a 4-byte field before the body. -/
def framePdu (pduType : UInt16) (field body : List UInt8) : Outcome CoreError (List UInt8) := do
  let pduSize := pduHeaderLen + body.length
  .failIf (pduSize > 65535) (.protocol "PDU too large")
  pure (leBytes 2 pduType.toNat ++ leBytes 2 (UInt16.ofNat pduSize).toNat ++ field ++ body)

def buildPdu (pduType : UInt16) (body : List UInt8) : Outcome CoreError (List UInt8) :=
  framePdu pduType [0, 0, 0, 0] body

def buildRateRequestPdu (dedupTtlMs : UInt32) (body : List UInt8) :
    Outcome CoreError (List UInt8) :=
  framePdu pduRateRequest (leBytes 4 dedupTtlMs.toNat) body

/-! ### Datagrams -/

def authHeaderSize : AuthMethod → ℕ
  | .none => 4
  | .cookie _ => 36
  | .aesGcm _ => 32

def appendAuthTlv (crypto : Crypto) (nonce : Bytes 12) (authMethod : AuthMethod)
    (cookieHashCache aesKeyCache : Option (Bytes 32)) (packet pduData : List UInt8) :
    Outcome CoreError (List UInt8) :=
  match authMethod with
  | .none =>
    pure (packet ++ leBytes 2 tlvAuthNone.toNat ++ leBytes 2 4 ++ pduData)
  | .cookie _ => do
    let packet := packet ++ leBytes 2 tlvAuthCookie.toNat ++ leBytes 2 36
    let cookie ← .okOr (.auth "Missing cookie hash cache") cookieHashCache
    pure (packet ++ cookie.toList ++ pduData)
  | .aesGcm _ => do
    let key ← .expect aesKeyCache
    let packet := packet ++ leBytes 2 tlvAuthAes.toNat ++ leBytes 2 32
    let (encryptedPdu, nonce, authTag) ← encryptPdu crypto nonce pduData key packet
    pure (packet ++ nonce.toList ++ authTag.toList ++ encryptedPdu)

/-- From a PDU to the datagram: the size check, the tenant header and the auth TLV. -/
def buildPacket (crypto : Crypto) (nonce : Bytes 12) (authMethod : AuthMethod)
    (cookieHashCache aesKeyCache : Option (Bytes 32)) (tenantHeader : TenantHeader)
    (pduData : List UInt8) : Outcome CoreError (List UInt8) := do
  let authHeaderSize := authHeaderSize authMethod
  .failIf (tenantTlvLen + authHeaderSize + pduData.length > maxPacketSize)
    (.protocol "Packet too large for MTU target")
  let packet ← writeTenantHeader [] tenantHeader
  appendAuthTlv crypto nonce authMethod cookieHashCache aesKeyCache packet pduData

/-- What one datagram draws from outside: the random request id and nonce, and the wall clock. -/
structure PacketSeed where
  requestId : Bytes 16
  nonce : Bytes 12
  nowMillis : UInt64
  deriving DecidableEq, Repr

/-- The packet of `_check_rate_limit_with_retries`. -/
def buildRateRequestPacket (crypto : Crypto) (apiKey : ApiKeyConfig) (seed : PacketSeed)
    (dedupTtlMs : UInt32) (resources : List ResourceRequest) (guards : List LatencyGuard)
    (metricsLabel : Option String) : Outcome CoreError (List UInt8) := do
  let tenantHeader := buildTenantHeader apiKey seed.requestId seed.nowMillis
  let pduBody ← buildRateRequestBody crypto resources guards metricsLabel
  let pduData ← buildRateRequestPdu dedupTtlMs pduBody
  buildPacket crypto seed.nonce apiKey.authMethod apiKey.authMethod.cookieHashCache
    apiKey.authMethod.aesKeyCache tenantHeader pduData

/-- The packet of `report_latency`. -/
def buildLatencyReportPacket (crypto : Crypto) (apiKey : ApiKeyConfig) (seed : PacketSeed)
    (reports : List ServiceLatencyReport) : Outcome CoreError (List UInt8) := do
  let tenantHeader := buildTenantHeader apiKey seed.requestId seed.nowMillis
  let pduBody ← buildLatencyReportBody crypto reports
  let pduData ← buildPdu pduLatencyReport pduBody
  buildPacket crypto seed.nonce apiKey.authMethod apiKey.authMethod.cookieHashCache
    apiKey.authMethod.aesKeyCache tenantHeader pduData

end Ratelimitly
