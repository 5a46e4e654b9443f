import Mathlib.Tactic
import Ratelimitly.Protocol

/-! The response that `RequestBuilder::send` makes of a result. -/
namespace Ratelimitly

open Lib

namespace Response

inductive Decision where
  | granted
  | rejected
  deriving DecidableEq, Repr

structure ResourceResult where
  resourceId : Bytes 16
  tokensDeficit : UInt16
  actualRate : UInt32
  deriving DecidableEq, Repr

structure GuardResult where
  trackerId : Bytes 16
  thresholdMs : UInt32
  currentLatencyMs : UInt32
  passed : Bool
  deriving DecidableEq, Repr

end Response

structure Response where
  decision : Response.Decision
  resourceResults : List Response.ResourceResult
  guardResults : List Response.GuardResult
  selectedServerId : Option UInt64
  deriving DecidableEq, Repr

/-- The value of `send` for what `check_rate_limit` returned. -/
def Response.ofResult (result : RateLimitResult) : Response where
  decision := if result.success then .granted else .rejected
  resourceResults := result.resourceResults.map fun item =>
    ⟨item.bucketId, item.tokensDeficit, item.actualRate⟩
  guardResults := result.guardResults.map fun item =>
    ⟨item.latencyTrackerId, item.thresholdMs, item.currentLatencyMs, item.passed⟩
  selectedServerId := if result.serverId ≠ 0 then some result.serverId else none

theorem Response.granted_iff {result : RateLimitResult} :
    (ofResult result).decision = .granted ↔ result.success = true := by
  cases h : result.success <;> simp [ofResult, h]

end Ratelimitly
