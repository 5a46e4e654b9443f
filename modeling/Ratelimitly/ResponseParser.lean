import Mathlib.Tactic
import Ratelimitly.Config
import Ratelimitly.Wire

/-! Parsing of received datagrams. -/
namespace Ratelimitly

open Lib

def tenantTlvLen : ℕ := 40
def pduHeaderLen : ℕ := 8

def parseTenantHeader (data : List UInt8) : Outcome CoreError (TenantHeader × ℕ) := do
  let pos := 0
  .failIf (data.length < pos + 4) (.protocol "Buffer too small for Tenant TLV header")
  let tenantTlvType ← u16At data pos
  .failIf (tenantTlvType ≠ tlvTenant)
    (.protocol ("Expected Tenant TLV type " ++ hexText tlvTenant.toNat ++ ", got " ++
      hexText tenantTlvType.toNat))
  let tenantTlvSize := (← u16At data (pos + 2)).toNat
  .failIf (tenantTlvSize < tenantTlvLen) (.protocol "Tenant TLV too small")
  .failIf (data.length < pos + tenantTlvSize) (.protocol "Buffer too small for Tenant TLV body")
  let tenantHeader ←
    (TenantHeader.readFromBuffer (← slice data pos (pos + tenantTlvSize))).mapErr .protocol
  pure (tenantHeader, pos + tenantTlvSize)

def expectedAuthType : AuthMethod → UInt16
  | .none => tlvAuthNone
  | .cookie _ => tlvAuthCookie
  | .aesGcm _ => tlvAuthAes

/-- The `match auth_tlv_type` of `parse_auth_tlv`, for a TLV of `authTlvSize` bytes at `pos`. -/
def parseAuthTlvBody (crypto : Crypto) (data : List UInt8) (pos authTlvSize : ℕ)
    (authTlvType : UInt16) (authMethod : AuthMethod) (cookieHashCache aesKeyCache : Option (Bytes 32)) :
    Outcome CoreError (List UInt8) :=
  let pduStart := pos + authTlvSize
  if authTlvType = tlvAuthNone then do
    .failIf (authTlvSize ≠ 4)
      (.protocol ("Invalid size for AUTH_NONE TLV: " ++ decText authTlvSize))
    slice data pduStart data.length
  else if authTlvType = tlvAuthCookie then do
    .failIf (authTlvSize ≠ 36)
      (.protocol ("Invalid size for AUTH_COOKIE TLV: " ++ decText authTlvSize))
    let authTlvBody ← slice data (pos + 4) (pos + authTlvSize)
    match authMethod with
    | .cookie _ => do
      let expected ← .okOr (.auth "Missing cookie hash cache") cookieHashCache
      .failIf (authTlvBody ≠ expected.toList) (.auth "Cookie auth mismatch")
    | _ => pure ()
    slice data pduStart data.length
  else if authTlvType = tlvAuthAes then do
    .failIf (authTlvSize ≠ 32)
      (.protocol ("Invalid size for AUTH_AES TLV: " ++ decText authTlvSize))
    let authTlvBody ← slice data (pos + 4) (pos + authTlvSize)
    let nonce ← toArray 12 (← slice authTlvBody 0 12)
    let authTag ← toArray 16 (← slice authTlvBody 12 28)
    let key ← .okOr (.auth "Missing AES key cache") aesKeyCache
    let encryptedPdu ← slice data pduStart data.length
    let aad ← slice data 0 (pos + 4 + 12)
    .okOr (.protocol "AES decryption failed") (decryptPdu crypto encryptedPdu key nonce authTag aad)
  else .err (.protocol ("Unknown Auth TLV type: " ++ hexText authTlvType.toNat))

/-- The PDU bytes behind the authentication TLV at `pos`, borrowed or decrypted. -/
def parseAuthTlv (crypto : Crypto) (data : List UInt8) (pos : ℕ) (authMethod : AuthMethod)
    (cookieHashCache aesKeyCache : Option (Bytes 32)) : Outcome CoreError (List UInt8) := do
  .failIf (data.length < pos + 4) (.protocol "Buffer too small for Auth TLV header")
  let authTlvType ← u16At data pos
  let authTlvSize := (← u16At data (pos + 2)).toNat
  .failIf (authTlvSize < 4) (.protocol "Invalid Auth TLV size")
  .failIf (data.length < pos + authTlvSize) (.protocol "Buffer too small for Auth TLV body")
  .failIf (authTlvType ≠ expectedAuthType authMethod)
    (.auth ("Auth type mismatch: expected " ++ hexText (expectedAuthType authMethod).toNat ++
      ", got " ++ hexText authTlvType.toNat))
  .failIf (data.length < pos + authTlvSize) (.protocol "Buffer too small for PDU")
  parseAuthTlvBody crypto data pos authTlvSize authTlvType authMethod cookieHashCache aesKeyCache

/-- The two counted loops of `parse_rate_response_pdu`: `count` blocks from `pos`. -/
def readBlocks {β : Type} (blockLen : ℕ) (tooSmall : String)
    (readFromBuffer : List UInt8 → Outcome String β) (pduBody : List UInt8) :
    ℕ → ℕ → Outcome CoreError (List β × ℕ)
  | 0, pos => pure ([], pos)
  | count + 1, pos => do
    .failIf (pduBody.length < pos + blockLen) (.protocol tooSmall)
    let block ← (readFromBuffer (← slice pduBody pos pduBody.length)).mapErr .protocol
    let (blocks, pos) ←
      readBlocks blockLen tooSmall readFromBuffer pduBody count (pos + blockLen)
    pure (block :: blocks, pos)

def GuardBlock.toResult (block : GuardBlock) : GuardResult where
  latencyTrackerId := block.latencyTrackerId
  thresholdMs := block.latencyThreshold
  currentLatencyMs := block.currentLatency
  passed := block.currentLatency < block.latencyThreshold

def ResourceBlock.toResult (block : ResourceBlock) : ResourceResult where
  bucketId := block.bucketId
  tokensDeficit := block.tokensRequested
  actualRate := block.rateLimit

def parseRateResponsePdu (pduData : List UInt8) (serverId : UInt64) (steeringFeedback : Bool) :
    Outcome CoreError RateLimitResult := do
  .failIf (pduData.length < pduHeaderLen) (.protocol "Buffer too small for PDU header")
  let pduType ← u16At pduData 0
  .failIf (pduType ≠ pduRateResponse) (.protocol ("Unexpected PDU type: " ++ hexText pduType.toNat))
  let pduSize := (← u16At pduData 2).toNat
  .failIf (pduSize < pduHeaderLen) (.protocol "Invalid PDU size")
  .failIf (pduData.length < pduSize) (.protocol "Incomplete PDU data")
  let pduBody ← slice pduData pduHeaderLen pduSize
  .failIf (pduBody.length < 4) (.protocol "Buffer too small for counts")
  let guardCount := (← u16At pduBody 0).toNat
  let resourceCount := (← u16At pduBody 2).toNat
  let (guardBlocks, pos) ← readBlocks guardBlockWireLen "Buffer too small for GuardBlock"
    GuardBlock.readFromBuffer pduBody guardCount 4
  let (resourceBlocks, _) ← readBlocks resourceBlockWireLen "Buffer too small for ResourceBlock"
    ResourceBlock.readFromBuffer pduBody resourceCount pos
  let guardResults := guardBlocks.map GuardBlock.toResult
  let resourceResults := resourceBlocks.map ResourceBlock.toResult
  pure {
    success := guardResults.all (·.passed) && resourceResults.all (·.tokensDeficit == 0)
    guardResults, resourceResults, serverId, steeringFeedback }

def parseRateResponseWithAuth (crypto : Crypto) (data : List UInt8) (authMethod : AuthMethod)
    (cookieHashCache aesKeyCache : Option (Bytes 32)) : Outcome CoreError RateLimitResult := do
  let (tenantHeader, pos) ← parseTenantHeader data
  let serverId := tenantHeader.keyId
  let steeringFeedback := tenantHeader.steeringFeedback ≠ 0
  let pduData ← parseAuthTlv crypto data pos authMethod cookieHashCache aesKeyCache
  parseRateResponsePdu pduData serverId steeringFeedback

/-- `None` is the error `()`. -/
def peekServerId (data : List UInt8) : Outcome Unit UInt64 := do
  .failIf (data.length < 12) ()
  let tlvType ← u16At data 0
  let tlvSize := (← u16At data 2).toNat
  .failIf (tlvType ≠ tlvTenant ∨ tlvSize < 40 ∨ data.length < tlvSize) ()
  u64Slice data 4 12

def peekRequestId (data : List UInt8) : Outcome Unit (Bytes 16) := do
  .failIf (data.length < 28) ()
  let tlvType ← u16At data 0
  let tlvSize := (← u16At data 2).toNat
  .failIf (tlvType ≠ tlvTenant ∨ tlvSize < 40 ∨ data.length < tlvSize) ()
  toArray 16 (← slice data 12 28)

end Ratelimitly
