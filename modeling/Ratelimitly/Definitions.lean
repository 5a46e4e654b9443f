import Mathlib.Tactic
import Ratelimitly.Config
import Ratelimitly.Protocol

/-! Resources, latency trackers and the requests that a caller builds from them. -/
namespace Ratelimitly

open Lib

variable {crypto : Crypto}

/-- `std::time::Duration`. -/
@[ext] structure Duration where
  secs : UInt64
  nanos : UInt32
  nanos_lt : nanos.toNat < 1000000000
  deriving DecidableEq, Repr

namespace Duration

def asMillis (duration : Duration) : ℕ :=
  duration.secs.toNat * 1000 + duration.nanos.toNat / 1000000

def isZero (duration : Duration) : Prop := duration.secs = 0 ∧ duration.nanos = 0

instance (duration : Duration) : Decidable duration.isZero := inferInstanceAs (Decidable (_ ∧ _))

theorem nanos_fromMillis (millis : ℕ) :
    (UInt32.ofNat (millis % 1000 * 1000000)).toNat = millis % 1000 * 1000000 :=
  UInt32.toNat_ofNat_of_lt' (by simp only [UInt32.size]; omega)

def fromMillis (millis : UInt64) : Duration where
  secs := .ofNat (millis.toNat / 1000)
  nanos := .ofNat (millis.toNat % 1000 * 1000000)
  nanos_lt := by
    rw [nanos_fromMillis]
    omega

end Duration

def durationToU32Ms (duration : Duration) (field : String) : Outcome Error UInt32 :=
  let millis := duration.asMillis
  if duration.isZero ∨ duration.nanos.toNat % 1000000 ≠ 0 ∨ millis > 4294967295 then
    .err (.invalidConfiguration (.invalidDuration field))
  else .ok (.ofNat millis)

/-- `name.is_empty() || name.len() > u32::MAX as usize`. -/
def invalidName (name : String) : Prop :=
  (utf8Bytes name.toList).length = 0 ∨ (utf8Bytes name.toList).length > 4294967295

instance (name : String) : Decidable (invalidName name) := inferInstanceAs (Decidable (_ ∨ _))

/-! ### Resources -/

/-- The fields are private, so a resource has the id that `new` derived. -/
structure Resource (crypto : Crypto) where
  name : String
  windowMs : UInt32
  rateLimit : UInt32
  id : Bytes 16
  id_eq : deriveBucketId crypto name windowMs rateLimit = (.ok id : Outcome Error _)

namespace Resource

def new (crypto : Crypto) (name : String) (window : Duration) (rateLimit : UInt32) :
    Outcome Error (Resource crypto) := do
  .failIf (invalidName name) (.invalidConfiguration (.invalidName "resource"))
  let windowMs ← durationToU32Ms window "resource window"
  let ⟨id, id_eq⟩ ← (deriveBucketId crypto name windowMs rateLimit).attach
  pure { name, windowMs, rateLimit, id, id_eq }

def window (resource : Resource crypto) : Duration := .fromMillis resource.windowMs.toUInt64

end Resource

/-! ### Latency trackers -/

structure LatencyTracker (crypto : Crypto) where
  name : String
  sampleTtlMs : UInt32
  maxSamples : UInt32
  minSamples : UInt32
  id : Bytes 16
  id_eq : deriveLatencyTrackerId crypto name sampleTtlMs maxSamples minSamples =
    (.ok id : Outcome Error _)

def LatencyTracker.sampleTtl (tracker : LatencyTracker crypto) : Duration :=
  .fromMillis tracker.sampleTtlMs.toUInt64

/-- A tracker that is being built; the setters set one field. -/
structure LatencyTrackerBuilder where
  name : String
  sampleTtl : Option Duration
  maxSamples : Option UInt32
  minSamples : Option UInt32

def LatencyTracker.builder (name : String) : LatencyTrackerBuilder := ⟨name, none, none, none⟩

def LatencyTrackerBuilder.build (crypto : Crypto) (builder : LatencyTrackerBuilder) :
    Outcome Error (LatencyTracker crypto) := do
  .failIf (invalidName builder.name) (.invalidConfiguration (.invalidName "latency tracker"))
  let sampleTtl ← .okOr (.invalidConfiguration (.missingTrackerField "sample lifetime"))
    builder.sampleTtl
  let sampleTtlMs ← durationToU32Ms sampleTtl "sample lifetime"
  let maxSamples ← .okOr (.invalidConfiguration (.missingTrackerField "maximum samples"))
    builder.maxSamples
  let minSamples ← .okOr (.invalidConfiguration (.missingTrackerField "minimum samples"))
    builder.minSamples
  .failIf (maxSamples = 0) (.invalidConfiguration (.invalidTrackerValue "maximum samples"))
  .failIf (minSamples = 0) (.invalidConfiguration (.invalidTrackerValue "minimum samples"))
  let ⟨id, id_eq⟩ ← (deriveLatencyTrackerId crypto builder.name sampleTtlMs maxSamples
    minSamples).attach
  pure { name := builder.name, sampleTtlMs, maxSamples, minSamples, id, id_eq }

/-! ### Requests and reports -/

def maxMetricsLabelLen : ℕ := 65526

/-- A request that is being built; the client's limits are an argument of its methods. -/
structure RequestBuilder where
  resources : List ResourceRequest
  guards : List LatencyGuard
  metricsLabel : Option String

namespace RequestBuilder

/-- `Client::request`. -/
def empty : RequestBuilder := ⟨[], [], none⟩

/-- `RequestBuilder::metrics_label`. -/
def label (builder : RequestBuilder) (label : String) : Outcome Error RequestBuilder :=
  if (utf8Bytes label.toList).length > maxMetricsLabelLen then
    .err (.invalidConfiguration .invalidMetricsLabel)
  else .ok { builder with metricsLabel := if label ≠ "" then some label else none }

def consume (limits : ApiKeyLimits) (builder : RequestBuilder) (resource : Resource crypto)
    (tokens : UInt32) : Outcome Error RequestBuilder := do
  let tokensRequested ← .okOr (.invalidConfiguration .invalidTokenQuantity)
    (if 0 < tokens ∧ tokens ≤ 65535 then some tokens.toUInt16 else none)
  .failIf (resource.windowMs > limits.rateWindowSizeMsMax)
    (.invalidConfiguration .resourceWindowExceedsApiKey)
  .failIf (builder.resources.length = 65535)
    (.invalidConfiguration (.tooManyRequestEntries "resources"))
  pure { builder with
    resources := builder.resources ++
      [⟨resource.name, resource.windowMs, resource.rateLimit, tokensRequested⟩] }

def guard (builder : RequestBuilder) (tracker : LatencyTracker crypto) (threshold : Duration) :
    Outcome Error RequestBuilder := do
  .failIf (builder.guards.length = 65535)
    (.invalidConfiguration (.tooManyRequestEntries "guards"))
  let thresholdMs ← durationToU32Ms threshold "latency threshold"
  pure { builder with
    guards := builder.guards ++ [⟨tracker.name, thresholdMs, tracker.sampleTtlMs,
      tracker.maxSamples, tracker.minSamples⟩] }

end RequestBuilder

/-- A call of a method of a request builder. -/
inductive RequestEntry (crypto : Crypto) where
  | label (label : String)
  | consume (resource : Resource crypto) (tokens : UInt32)
  | guard (tracker : LatencyTracker crypto) (threshold : Duration)

namespace RequestBuilder

def add (limits : ApiKeyLimits) (builder : RequestBuilder) :
    RequestEntry crypto → Outcome Error RequestBuilder
  | .label label => builder.label label
  | .consume resource tokens => builder.consume limits resource tokens
  | .guard tracker threshold => builder.guard tracker threshold

/-- The request that a chain of calls builds. -/
def addAll (limits : ApiKeyLimits) (entries : List (RequestEntry crypto)) :
    Outcome Error RequestBuilder := entries.foldlM (add limits) empty

end RequestBuilder

/-- The report that `Client::report_latency` makes. -/
def latencyReport (tracker : LatencyTracker crypto) (observed : Duration) :
    Outcome Error ServiceLatencyReport := do
  let observedLatency ← durationToU32Ms observed "observed latency"
  pure ⟨tracker.name, observedLatency, tracker.sampleTtlMs, tracker.maxSamples,
    tracker.minSamples⟩

end Ratelimitly
