import Mathlib.Tactic
import Ratelimitly.Lib.Bytes
import Ratelimitly.RequestPolicy

/-! Client configuration: the credential, its limits and the request policy. -/
namespace Ratelimitly

open Lib

inductive AuthMethod where
  | none
  | cookie (secret : Bytes 32)
  | aesGcm (secret : Bytes 32)
  deriving DecidableEq, Repr

/-- `cookie_hash_cache`, as `CoreClient::new` fills it. -/
def AuthMethod.cookieHashCache : AuthMethod → Option (Bytes 32)
  | .cookie secret => some secret
  | _ => .none

/-- `aes_key_cache`, as `CoreClient::new` fills it. -/
def AuthMethod.aesKeyCache : AuthMethod → Option (Bytes 32)
  | .aesGcm secret => some secret
  | _ => .none

structure ApiKeyLimits where
  rateBucketsMax : UInt32
  latencyServicesMax : UInt32
  metricsLabelsMax : UInt32
  latencyBufferSizeMax : UInt32
  dedupTtlMsMax : UInt32
  rateWindowSizeMsMax : UInt32
  deriving DecidableEq, Repr

structure ApiKeyConfig where
  serviceDomain : String
  keyId : UInt64
  authMethod : AuthMethod
  limits : ApiKeyLimits
  steeringFeedback : Bool
  deriving DecidableEq, Repr

structure CoreConfig where
  apiKey : ApiKeyConfig
  dnsRefreshIntervalS : UInt64
  ignoreSteeringFeedback : Bool
  requestPolicy : RequestPolicy
  deriving DecidableEq, Repr

end Ratelimitly
