import Mathlib.Tactic
import Ratelimitly.Lib.Bytes

/-! Wire structures, content-defined identities and the PDU cipher. -/
namespace Ratelimitly

open Lib

variable {ε : Type}

/-- The functions of the `aes-gcm` and `blake2` crates the client calls. -/
structure Crypto where
  encrypt : Bytes 32 → Bytes 12 → (msg aad : List UInt8) → Option (List UInt8)
  decrypt : Bytes 32 → Bytes 12 → (msg aad : List UInt8) → Option (List UInt8)
  blake2s : List UInt8 → Bytes 32

def tlvTenant : UInt16 := 0x4C52
def tlvAuthNone : UInt16 := 0x414E
def tlvAuthCookie : UInt16 := 0x4143
def tlvAuthAes : UInt16 := 0x4541
def tlvMetricsLabel : UInt16 := 0x4C4D
def pduRateRequest : UInt16 := 0x5452
def pduRateResponse : UInt16 := 0x5252
def pduLatencyReport : UInt16 := 0x524C
def guardBlockWireLen : ℕ := 36
def resourceBlockWireLen : ℕ := 28
def serviceLatencyBlockWireLen : ℕ := 32

/-! ### Content-defined identities -/

def resourceIdDomain : List UInt8 := utf8Bytes "ratelimitly.resource.v1\x00".toList
def latencyTrackerIdDomain : List UInt8 := utf8Bytes "ratelimitly.latency-tracker.v2\x00".toList

/-- The bytes `derive_content_id` feeds to the hash. -/
def contentBytes (domain name : List UInt8) (fields : List UInt32) : List UInt8 :=
  domain ++ leBytes 4 name.length ++ name ++ fields.flatMap fun field => leBytes 4 field.toNat

def deriveContentId (crypto : Crypto) (domain name : List UInt8) (fields : List UInt32) :
    Outcome ε (Bytes 16) :=
  if name.length < UInt32.size then do
    let result := crypto.blake2s (contentBytes domain name fields)
    toArray 16 (← slice result.toList 0 16)
  else .panic

def deriveBucketIdBytes (crypto : Crypto) (bucketName : List UInt8)
    (windowSizeMs rateLimit : UInt32) : Outcome ε (Bytes 16) :=
  deriveContentId crypto resourceIdDomain bucketName [windowSizeMs, rateLimit]

def deriveBucketId (crypto : Crypto) (bucketName : String) (windowSizeMs rateLimit : UInt32) :
    Outcome ε (Bytes 16) :=
  deriveBucketIdBytes crypto (utf8Bytes bucketName.toList) windowSizeMs rateLimit

def deriveLatencyTrackerIdBytes (crypto : Crypto) (latencyTrackerName : List UInt8)
    (ttlMs maxSamples minSampleThreshold : UInt32) : Outcome ε (Bytes 16) :=
  deriveContentId crypto latencyTrackerIdDomain latencyTrackerName
    [ttlMs, maxSamples, minSampleThreshold]

def deriveLatencyTrackerId (crypto : Crypto) (latencyTrackerName : String)
    (ttlMs maxSamples minSampleThreshold : UInt32) : Outcome ε (Bytes 16) :=
  deriveLatencyTrackerIdBytes crypto (utf8Bytes latencyTrackerName.toList) ttlMs maxSamples
    minSampleThreshold

/-! ### The PDU cipher -/

/-- `nonce` stands for the twelve bytes `rand::rng().fill` draws. -/
def encryptPdu (crypto : Crypto) (nonce : Bytes 12) (pdu : List UInt8) (key : Bytes 32)
    (aadPrefix : List UInt8) : Outcome ε (List UInt8 × Bytes 12 × Bytes 16) := do
  let aad := aadPrefix ++ nonce.toList
  let ciphertext ← .expect (crypto.encrypt key nonce pdu aad)
  -- `ciphertext.len() - 16` underflows on a shorter ciphertext.
  if ciphertext.length < 16 then .panic else do
    let tagOffset := ciphertext.length - 16
    let tagSlice ← slice ciphertext tagOffset ciphertext.length
    let encrypted ← slice ciphertext 0 tagOffset
    let authTag ← toArray 16 tagSlice
    pure (encrypted, nonce, authTag)

def decryptPdu (crypto : Crypto) (encryptedPdu : List UInt8) (key : Bytes 32) (nonce : Bytes 12)
    (authTag : Bytes 16) (aad : List UInt8) : Option (List UInt8) :=
  crypto.decrypt key nonce (encryptedPdu ++ authTag.toList) aad

/-! ### Wire structures -/

structure TenantHeader where
  tlvType : UInt16
  tlvSize : UInt16
  keyId : UInt64
  uniqueId : Bytes 16
  timeStamp : UInt64
  steeringFeedback : UInt8
  tenantMgmtFlag : UInt8
  padding : Bytes 2
  deriving DecidableEq, Repr

def TenantHeader.writeToBuffer (header : TenantHeader) (buffer : List UInt8) :
    Outcome ε (List UInt8) := do
  let buffer ← copyFromSlice buffer 0 2 (leBytes 2 header.tlvType.toNat)
  let buffer ← copyFromSlice buffer 2 4 (leBytes 2 header.tlvSize.toNat)
  let buffer ← copyFromSlice buffer 4 12 (leBytes 8 header.keyId.toNat)
  let buffer ← copyFromSlice buffer 12 28 header.uniqueId.toList
  let buffer ← copyFromSlice buffer 28 36 (leBytes 8 header.timeStamp.toNat)
  let buffer ← setIndex buffer 36 header.steeringFeedback
  let buffer ← setIndex buffer 37 header.tenantMgmtFlag
  copyFromSlice buffer 38 40 header.padding.toList

def TenantHeader.readFromBuffer (buffer : List UInt8) : Outcome String TenantHeader := do
  .failIf (buffer.length < 40) "Buffer too small for TenantHeader"
  let uniqueId ← toArray 16 (← slice buffer 12 28)
  let padding ← toArray 2 (← slice buffer 38 40)
  let tlvType ← u16At buffer 0
  let tlvSize ← u16At buffer 2
  let keyId ← u64Slice buffer 4 12
  let timeStamp ← u64Slice buffer 28 36
  let steeringFeedback ← index buffer 36
  let tenantMgmtFlag ← index buffer 37
  pure { tlvType, tlvSize, keyId, uniqueId, timeStamp, steeringFeedback, tenantMgmtFlag, padding }

structure GuardBlock where
  latencyTrackerId : Bytes 16
  ttlMs : UInt32
  maxSamples : UInt32
  minSampleThreshold : UInt32
  latencyThreshold : UInt32
  currentLatency : UInt32
  deriving DecidableEq, Repr

def GuardBlock.writeToBuffer (block : GuardBlock) (buffer : List UInt8) :
    Outcome ε (List UInt8) := do
  let buffer ← copyFromSlice buffer 0 16 block.latencyTrackerId.toList
  let buffer ← copyFromSlice buffer 16 20 (leBytes 4 block.ttlMs.toNat)
  let buffer ← copyFromSlice buffer 20 24 (leBytes 4 block.maxSamples.toNat)
  let buffer ← copyFromSlice buffer 24 28 (leBytes 4 block.minSampleThreshold.toNat)
  let buffer ← copyFromSlice buffer 28 32 (leBytes 4 block.latencyThreshold.toNat)
  copyFromSlice buffer 32 36 (leBytes 4 block.currentLatency.toNat)

def GuardBlock.readFromBuffer (buffer : List UInt8) : Outcome String GuardBlock := do
  .failIf (buffer.length < guardBlockWireLen) "Buffer too small for GuardBlock"
  let latencyTrackerId ← toArray 16 (← slice buffer 0 16)
  let ttlMs ← u32Slice buffer 16 20
  let maxSamples ← u32Slice buffer 20 24
  let minSampleThreshold ← u32Slice buffer 24 28
  let latencyThreshold ← u32Slice buffer 28 32
  let currentLatency ← u32Slice buffer 32 36
  pure { latencyTrackerId, ttlMs, maxSamples, minSampleThreshold, latencyThreshold,
         currentLatency }

structure ResourceBlock where
  bucketId : Bytes 16
  windowSizeMs : UInt32
  rateLimit : UInt32
  tokensRequested : UInt16
  padding : UInt16
  deriving DecidableEq, Repr

def ResourceBlock.writeToBuffer (block : ResourceBlock) (buffer : List UInt8) :
    Outcome ε (List UInt8) := do
  let buffer ← copyFromSlice buffer 0 16 block.bucketId.toList
  let buffer ← copyFromSlice buffer 16 20 (leBytes 4 block.windowSizeMs.toNat)
  let buffer ← copyFromSlice buffer 20 24 (leBytes 4 block.rateLimit.toNat)
  let buffer ← copyFromSlice buffer 24 26 (leBytes 2 block.tokensRequested.toNat)
  copyFromSlice buffer 26 28 (leBytes 2 block.padding.toNat)

def ResourceBlock.readFromBuffer (buffer : List UInt8) : Outcome String ResourceBlock := do
  .failIf (buffer.length < 28) "Buffer too small for ResourceBlock"
  let bucketId ← toArray 16 (← slice buffer 0 16)
  let windowSizeMs ← u32Slice buffer 16 20
  let rateLimit ← u32Slice buffer 20 24
  let tokensRequested ← u16Slice buffer 24 26
  let padding ← u16Slice buffer 26 28
  pure { bucketId, windowSizeMs, rateLimit, tokensRequested, padding }

structure ServiceLatencyBlock where
  latencyTrackerId : Bytes 16
  ttlMs : UInt32
  maxSamples : UInt32
  minSampleThreshold : UInt32
  observedLatency : UInt32
  deriving DecidableEq, Repr

def ServiceLatencyBlock.writeToBuffer (block : ServiceLatencyBlock) (buffer : List UInt8) :
    Outcome ε (List UInt8) := do
  let buffer ← copyFromSlice buffer 0 16 block.latencyTrackerId.toList
  let buffer ← copyFromSlice buffer 16 20 (leBytes 4 block.ttlMs.toNat)
  let buffer ← copyFromSlice buffer 20 24 (leBytes 4 block.maxSamples.toNat)
  let buffer ← copyFromSlice buffer 24 28 (leBytes 4 block.minSampleThreshold.toNat)
  copyFromSlice buffer 28 32 (leBytes 4 block.observedLatency.toNat)

/-! ### Requests and results -/

structure ResourceRequest where
  bucketName : String
  windowSizeMs : UInt32
  rateLimit : UInt32
  tokensRequested : UInt16
  deriving DecidableEq, Repr

structure LatencyGuard where
  latencyTrackerName : String
  thresholdMs : UInt32
  ttlMs : UInt32
  maxSamples : UInt32
  minSampleThreshold : UInt32
  deriving DecidableEq, Repr

structure ServiceLatencyReport where
  latencyTrackerName : String
  observedLatency : UInt32
  ttlMs : UInt32
  maxSamples : UInt32
  minSampleThreshold : UInt32
  deriving DecidableEq, Repr

structure GuardResult where
  latencyTrackerId : Bytes 16
  thresholdMs : UInt32
  currentLatencyMs : UInt32
  passed : Bool
  deriving DecidableEq, Repr

structure ResourceResult where
  bucketId : Bytes 16
  tokensDeficit : UInt16
  actualRate : UInt32
  deriving DecidableEq, Repr

structure RateLimitResult where
  success : Bool
  guardResults : List GuardResult
  resourceResults : List ResourceResult
  serverId : UInt64
  steeringFeedback : Bool
  deriving DecidableEq, Repr

end Ratelimitly
