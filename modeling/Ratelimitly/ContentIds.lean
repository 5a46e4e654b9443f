import Mathlib.Tactic
import Ratelimitly.Definitions
import Ratelimitly.RequestFormat

/-! Content-defined identities: what is hashed, and what the datagrams carry. -/
namespace Ratelimitly

open Lib

variable {ε : Type} {crypto : Crypto}

/-! ### The hashed bytes -/

/-- A definition of a rate counter or of a latency tracker. -/
inductive Definition where
  | resource (name : List UInt8) (windowMs rateLimit : UInt32)
  | tracker (name : List UInt8) (ttlMs maxSamples minSampleThreshold : UInt32)
  deriving DecidableEq, Repr

namespace Definition

def name : Definition → List UInt8
  | resource name _ _ => name
  | tracker name _ _ _ => name

def domain : Definition → List UInt8
  | resource _ _ _ => resourceIdDomain
  | tracker _ _ _ _ => latencyTrackerIdDomain

def fields : Definition → List UInt32
  | resource _ windowMs rateLimit => [windowMs, rateLimit]
  | tracker _ ttlMs maxSamples minSampleThreshold => [ttlMs, maxSamples, minSampleThreshold]

/-- The bytes that are fed to the hash. -/
def bytes (d : Definition) : List UInt8 := contentBytes d.domain d.name d.fields

/-- The name length fits its four bytes. -/
def Fits (d : Definition) : Prop := d.name.length ≤ 4294967295

/-- The derived id. -/
def id (crypto : Crypto) : Definition → Outcome ε (Bytes 16)
  | resource name windowMs rateLimit => deriveBucketIdBytes crypto name windowMs rateLimit
  | tracker name ttlMs maxSamples minSampleThreshold =>
    deriveLatencyTrackerIdBytes crypto name ttlMs maxSamples minSampleThreshold

end Definition

theorem flatMap_leBytes_injective :
    Function.Injective fun fields : List UInt32 => fields.flatMap fun field => leBytes 4 field.toNat :=
  flatMap_injective (w := 4) (by decide) (fun _ => length_leBytes 4 _) fun field field' h => by
    rw [← le32_leBytes field, h, le32_leBytes]

/-- Under one domain the bytes determine the name and the fields. -/
theorem contentBytes_inj {domain name name' : List UInt8} {fields fields' : List UInt32}
    (hname : name.length ≤ 4294967295) (hname' : name'.length ≤ 4294967295) :
    contentBytes domain name fields = contentBytes domain name' fields' ↔
      name = name' ∧ fields = fields' := by
  constructor
  · intro h
    simp only [contentBytes, List.append_assoc] at h
    have htail := List.append_cancel_left h
    obtain ⟨hlen, hrest⟩ := List.append_inj htail (by simp)
    have hlength : name.length = name'.length := by
      rw [← leNat_leBytes_of_lt (w := 4) (n := name.length) (by omega), hlen,
        leNat_leBytes_of_lt (by omega)]
    obtain ⟨hname, hfields⟩ := List.append_inj hrest hlength
    exact ⟨hname, flatMap_leBytes_injective hfields⟩
  · rintro ⟨rfl, rfl⟩
    rfl

theorem take_contentBytes {domain name : List UInt8} {fields : List UInt32}
    (h : 13 ≤ domain.length) : (contentBytes domain name fields).take 13 = domain.take 13 := by
  rw [contentBytes, List.append_assoc, List.append_assoc, List.take_append_of_le_length h]

theorem domains_ne : resourceIdDomain.take 13 ≠ latencyTrackerIdDomain.take 13 := by decide +kernel

theorem length_domains : 13 ≤ resourceIdDomain.length ∧ 13 ≤ latencyTrackerIdDomain.length := by
  decide +kernel

/-- No resource and no tracker are hashed from the same bytes. -/
theorem contentBytes_ne {name name' : List UInt8} {fields fields' : List UInt32} :
    contentBytes resourceIdDomain name fields ≠ contentBytes latencyTrackerIdDomain name' fields' := by
  intro h
  have htake := congrArg (List.take 13) h
  rw [take_contentBytes length_domains.1, take_contentBytes length_domains.2] at htake
  exact domains_ne htake

theorem Definition.bytes_inj {d d' : Definition} (h : d.Fits) (h' : d'.Fits) :
    d.bytes = d'.bytes ↔ d = d' := by
  refine ⟨fun heq => ?_, fun heq => heq ▸ rfl⟩
  cases d with
  | resource name windowMs rateLimit =>
    cases d' with
    | resource name' windowMs' rateLimit' =>
      obtain ⟨rfl, hfields⟩ := (contentBytes_inj h h').mp heq
      cases hfields
      rfl
    | tracker => exact absurd heq contentBytes_ne
  | tracker name ttlMs maxSamples minSampleThreshold =>
    cases d' with
    | resource => exact absurd heq.symm contentBytes_ne
    | tracker name' ttlMs' maxSamples' minSampleThreshold' =>
      obtain ⟨rfl, hfields⟩ := (contentBytes_inj h h').mp heq
      cases hfields
      rfl

/-! ### The ids -/

/-- The first sixteen bytes of the hash. -/
def truncatedHash (crypto : Crypto) (bytes : List UInt8) : Bytes 16 :=
  .ofList 16 (sub (crypto.blake2s bytes).toList 0 16)

theorem deriveContentId_eq_ok_iff {domain name : List UInt8} {fields : List UInt32} {id : Bytes 16} :
    (deriveContentId crypto domain name fields : Outcome ε _) = .ok id ↔
      name.length ≤ 4294967295 ∧ id = truncatedHash crypto (contentBytes domain name fields) := by
  unfold deriveContentId
  dsimp only
  split
  next hlt =>
    rw [slice_of_le (by omega) (by simp), Outcome.ok_bind, toArray_sub rfl (by simp),
      Outcome.ok.injEq]
    exact ⟨fun h => ⟨Nat.le_of_lt_succ hlt, h.symm⟩, fun h => h.2.symm⟩
  next hge =>
    refine ⟨nofun, fun h => ?_⟩
    exact absurd (Nat.lt_succ_of_le h.1) hge

theorem Definition.id_of_fits {d : Definition} (h : d.Fits) :
    (d.id crypto : Outcome ε _) = .ok (truncatedHash crypto d.bytes) := by
  cases d <;> exact deriveContentId_eq_ok_iff.mpr ⟨h, rfl⟩

/-- Where the truncated hash does not collide, equal ids are ids of one definition. -/
theorem Definition.id_inj {S : Set Definition} (hfits : ∀ d ∈ S, d.Fits)
    (hinj : Set.InjOn (truncatedHash crypto) (bytes '' S)) {d d' : Definition} (hd : d ∈ S)
    (hd' : d' ∈ S) : (d.id crypto : Outcome ε _) = d'.id crypto ↔ d = d' := by
  rw [id_of_fits (hfits d hd), id_of_fits (hfits d' hd'), Outcome.ok.injEq,
    hinj.eq_iff ⟨d, hd, rfl⟩ ⟨d', hd', rfl⟩, bytes_inj (hfits d hd) (hfits d' hd')]

/-! ### Durations -/

theorem Duration.asMillis_fromMillis (millis : UInt64) : (fromMillis millis).asMillis = millis.toNat := by
  have hlt := millis.toNat_lt
  rw [asMillis, fromMillis, nanos_fromMillis,
    UInt64.toNat_ofNat_of_lt' (by simp only [UInt64.size]; omega)]
  omega

theorem Duration.fromMillis_asMillis {duration : Duration} {millis : UInt64}
    (hwhole : duration.nanos.toNat % 1000000 = 0) (h : duration.asMillis = millis.toNat) :
    fromMillis millis = duration := by
  have hlt := duration.nanos_lt
  have hsecs := duration.secs.toNat_lt
  rw [asMillis] at h
  rw [fromMillis, Duration.ext_iff, ← UInt64.toNat_inj, ← UInt32.toNat_inj, nanos_fromMillis,
    UInt64.toNat_ofNat_of_lt' (by simp only [UInt64.size]; omega)]
  omega

/-- The duration that was accepted is that many milliseconds. -/
theorem durationToU32Ms_eq_ok_iff {duration : Duration} {field : String} {ms : UInt32} :
    durationToU32Ms duration field = .ok ms ↔ ms ≠ 0 ∧ Duration.fromMillis ms.toUInt64 = duration := by
  have hlt := ms.toNat_lt
  unfold durationToU32Ms
  dsimp only
  constructor
  · intro h
    split at h
    · cases h
    next hvalid =>
      obtain ⟨hzero, hwhole, hle⟩ : ¬ duration.isZero ∧ duration.nanos.toNat % 1000000 = 0 ∧
          duration.asMillis ≤ 4294967295 := by
        simpa only [not_or, not_not, gt_iff_lt, not_lt, ne_eq] using hvalid
      cases h
      have hms : (UInt32.ofNat duration.asMillis).toNat = duration.asMillis :=
        UInt32.toNat_ofNat_of_lt' (Nat.lt_succ_of_le hle)
      refine ⟨fun heq => hzero ?_, Duration.fromMillis_asMillis hwhole (by simp [hms])⟩
      rw [heq] at hms
      have hnone : duration.asMillis = 0 := hms.symm
      rw [Duration.asMillis] at hnone
      exact ⟨UInt64.toNat_inj.mp (by simp; omega), UInt32.toNat_inj.mp (by simp; omega)⟩
  · rintro ⟨hne, rfl⟩
    have hms : (Duration.fromMillis ms.toUInt64).asMillis = ms.toNat := by
      rw [Duration.asMillis_fromMillis, UInt32.toNat_toUInt64]
    rw [hms, if_neg, UInt32.ofNat_toNat]
    rintro (hzero | hwhole | hle)
    · have hnone : (Duration.fromMillis ms.toUInt64).asMillis = 0 := by
        rw [Duration.asMillis, hzero.1, hzero.2]
        rfl
      exact hne (UInt32.toNat_inj.mp (hms.symm.trans hnone))
    · refine hwhole ?_
      rw [Duration.fromMillis, Duration.nanos_fromMillis]
      omega
    · omega

/-! ### What the constructors accept -/

def Resource.definition (resource : Resource crypto) : Definition :=
  .resource (utf8Bytes resource.name.toList) resource.windowMs resource.rateLimit

def LatencyTracker.definition (tracker : LatencyTracker crypto) : Definition :=
  .tracker (utf8Bytes tracker.name.toList) tracker.sampleTtlMs tracker.maxSamples tracker.minSamples

/-- The error type does not matter for an id. -/
theorem Resource.derives (resource : Resource crypto) :
    (deriveBucketId crypto resource.name resource.windowMs resource.rateLimit : Outcome ε _) =
      .ok resource.id :=
  deriveContentId_eq_ok_iff.mpr (deriveContentId_eq_ok_iff.mp resource.id_eq)

theorem LatencyTracker.derives (tracker : LatencyTracker crypto) :
    (deriveLatencyTrackerId crypto tracker.name tracker.sampleTtlMs tracker.maxSamples
      tracker.minSamples : Outcome ε _) = .ok tracker.id :=
  deriveContentId_eq_ok_iff.mpr (deriveContentId_eq_ok_iff.mp tracker.id_eq)

theorem Resource.new_eq_ok {name : String} {window : Duration} {rateLimit : UInt32}
    {resource : Resource crypto} (h : new crypto name window rateLimit = .ok resource) :
    resource.name = name ∧ resource.window = window ∧ resource.rateLimit = rateLimit := by
  unfold new at h
  rw [Outcome.failIf_bind_eq_ok_iff] at h
  obtain ⟨windowMs, hwindow, h⟩ := Outcome.bind_eq_ok_iff.mp h.2
  obtain ⟨⟨id, id_eq⟩, -, h⟩ := Outcome.bind_eq_ok_iff.mp h
  cases h
  exact ⟨rfl, (durationToU32Ms_eq_ok_iff.mp hwindow).2, rfl⟩

theorem LatencyTrackerBuilder.build_eq_ok {builder : LatencyTrackerBuilder}
    {tracker : LatencyTracker crypto} (h : builder.build crypto = .ok tracker) :
    tracker.name = builder.name ∧ builder.sampleTtl = some tracker.sampleTtl ∧
      builder.maxSamples = some tracker.maxSamples ∧
        builder.minSamples = some tracker.minSamples := by
  unfold build at h
  simp only [Outcome.bind_eq_ok_iff, Outcome.okOr_eq_ok_iff] at h
  obtain ⟨-, -, sampleTtl, hsample, sampleTtlMs, hms, maxSamples, hmax, minSamples, hmin, -, -, -, -,
    ⟨id, id_eq⟩, -, h⟩ := h
  cases h
  refine ⟨rfl, ?_, hmax, hmin⟩
  rw [hsample, LatencyTracker.sampleTtl, (durationToU32Ms_eq_ok_iff.mp hms).2]

/-! ### What is on the wire -/

/-- The block addresses the tracker and carries exactly its settings and the threshold. -/
structure GuardBlock.Encodes (tracker : LatencyTracker crypto) (threshold : Duration)
    (block : GuardBlock) : Prop where
  id_eq : block.latencyTrackerId = tracker.id
  sampleTtl_eq : .fromMillis block.ttlMs.toUInt64 = tracker.sampleTtl
  maxSamples_eq : block.maxSamples = tracker.maxSamples
  minSamples_eq : block.minSampleThreshold = tracker.minSamples
  threshold_eq : .fromMillis block.latencyThreshold.toUInt64 = threshold
  currentLatency_eq : block.currentLatency = 0

structure ResourceBlock.Encodes (resource : Resource crypto) (tokens : UInt32)
    (block : ResourceBlock) : Prop where
  id_eq : block.bucketId = resource.id
  window_eq : .fromMillis block.windowSizeMs.toUInt64 = resource.window
  rateLimit_eq : block.rateLimit = resource.rateLimit
  tokens_eq : block.tokensRequested.toNat = tokens.toNat
  padding_eq : block.padding = 0

structure ServiceLatencyBlock.Encodes (tracker : LatencyTracker crypto) (observed : Duration)
    (block : ServiceLatencyBlock) : Prop where
  id_eq : block.latencyTrackerId = tracker.id
  sampleTtl_eq : .fromMillis block.ttlMs.toUInt64 = tracker.sampleTtl
  maxSamples_eq : block.maxSamples = tracker.maxSamples
  minSamples_eq : block.minSampleThreshold = tracker.minSamples
  observed_eq : .fromMillis block.observedLatency.toUInt64 = observed

namespace RequestEntry

/-- The consumptions of a chain of calls, in order. -/
def consumed : RequestEntry crypto → Option (Resource crypto × UInt32)
  | .consume resource tokens => some (resource, tokens)
  | _ => none

/-- The guards of a chain of calls, in order. -/
def guarded : RequestEntry crypto → Option (LatencyTracker crypto × Duration)
  | .guard tracker threshold => some (tracker, threshold)
  | _ => none

end RequestEntry

/-- A builder holds what it was given. -/
structure RequestBuilder.Holds (entries : List (RequestEntry crypto)) (builder : RequestBuilder) :
    Prop where
  resources : List.Forall₂ (fun consumed request => ∃ tokens : UInt16,
    tokens.toNat = consumed.2.toNat ∧ request = ResourceRequest.mk consumed.1.name
      consumed.1.windowMs consumed.1.rateLimit tokens)
    (entries.filterMap RequestEntry.consumed) builder.resources
  guards : List.Forall₂ (fun guarded guard => ∃ thresholdMs : UInt32,
    Duration.fromMillis thresholdMs.toUInt64 = guarded.2 ∧ guard = LatencyGuard.mk guarded.1.name
      thresholdMs guarded.1.sampleTtlMs guarded.1.maxSamples guarded.1.minSamples)
    (entries.filterMap RequestEntry.guarded) builder.guards
  resources_le : builder.resources.length ≤ 65535
  guards_le : builder.guards.length ≤ 65535
  label_le : ∀ label, builder.metricsLabel = some label → (utf8Bytes label.toList).length ≤ 65526

namespace RequestBuilder

variable {limits : ApiKeyLimits} {entries earlier : List (RequestEntry crypto)}
  {entry : RequestEntry crypto}
  {builder builder' : RequestBuilder}

theorem filterMap_concat_none {α β : Type} {f : α → Option β} {as : List α} {a : α}
    (h : f a = none) : (as ++ [a]).filterMap f = as.filterMap f := by
  rw [List.filterMap_append, List.filterMap_cons_none h, List.filterMap_nil, List.append_nil]

theorem holds_empty : (empty).Holds ([] : List (RequestEntry crypto)) :=
  ⟨.nil, .nil, Nat.zero_le _, Nat.zero_le _, nofun⟩

theorem holds_add (h : builder.Holds entries) (hadd : builder.add limits entry = .ok builder') :
    builder'.Holds (entries ++ [entry]) := by
  cases entry with
  | label label =>
    unfold add RequestBuilder.label at hadd
    dsimp only at hadd
    split at hadd
    · cases hadd
    next hle =>
      cases hadd
      refine ⟨?_, ?_, h.resources_le, h.guards_le, fun text htext => ?_⟩
      · rw [filterMap_concat_none rfl]
        exact h.resources
      · rw [filterMap_concat_none rfl]
        exact h.guards
      · obtain ⟨-, htext⟩ := Option.ite_none_right_eq_some.mp htext
        cases htext
        exact Nat.le_of_not_lt hle
  | consume resource tokens =>
    unfold add consume at hadd
    simp only [Outcome.bind_eq_ok_iff, Outcome.okOr_eq_ok_iff, Outcome.failIf_eq_ok_iff] at hadd
    obtain ⟨tokensRequested, htokens, -, -, -, hcount, hadd⟩ := hadd
    obtain ⟨⟨-, hle⟩, htokens⟩ := Option.ite_none_right_eq_some.mp htokens
    cases htokens
    cases hadd
    have hlength := h.resources_le
    refine ⟨?_, ?_, by simp; omega, h.guards_le, h.label_le⟩
    · rw [List.filterMap_append]
      refine List.rel_append h.resources (.cons ⟨_, ?_, rfl⟩ .nil)
      have hlt : tokens.toNat ≤ 65535 := UInt32.le_iff_toNat_le.mp hle
      rw [UInt32.toNat_toUInt16]
      exact Nat.mod_eq_of_lt (Nat.lt_succ_of_le hlt)
    · rw [filterMap_concat_none rfl]
      exact h.guards
  | guard tracker threshold =>
    unfold add RequestBuilder.guard at hadd
    simp only [Outcome.bind_eq_ok_iff, Outcome.failIf_eq_ok_iff] at hadd
    obtain ⟨-, hcount, thresholdMs, hms, hadd⟩ := hadd
    cases hadd
    have hlength := h.guards_le
    refine ⟨?_, ?_, h.resources_le, by simp; omega, h.label_le⟩
    · rw [filterMap_concat_none rfl]
      exact h.resources
    · rw [List.filterMap_append]
      exact List.rel_append h.guards (.cons ⟨_, (durationToU32Ms_eq_ok_iff.mp hms).2, rfl⟩ .nil)

theorem holds_foldlM (h : builder.Holds earlier)
    (hadd : entries.foldlM (add limits) builder = .ok builder') :
    builder'.Holds (earlier ++ entries) := by
  induction entries generalizing builder earlier with
  | nil =>
    cases hadd
    simpa using h
  | cons entry entries ih =>
    rw [List.foldlM_cons] at hadd
    obtain ⟨next, hnext, hrest⟩ := Outcome.bind_eq_ok_iff.mp hadd
    simpa using ih (holds_add h hnext) hrest

/-- The body of a request carries what the builder was given. -/
theorem Holds.encodes (h : builder.Holds entries) : ∃ guardBlocks resourceBlocks,
    buildRateRequestBody crypto builder.resources builder.guards builder.metricsLabel =
      .ok (leBytes 2 builder.guards.length ++ leBytes 2 builder.resources.length ++
        guardBlocks.flatMap GuardBlock.toBytes ++ resourceBlocks.flatMap ResourceBlock.toBytes ++
        metricsLabelBytes builder.metricsLabel) ∧
    List.Forall₂ (fun guarded block => GuardBlock.Encodes guarded.1 guarded.2 block)
      (entries.filterMap RequestEntry.guarded) guardBlocks ∧
    List.Forall₂ (fun consumed block => ResourceBlock.Encodes consumed.1 consumed.2 block)
      (entries.filterMap RequestEntry.consumed) resourceBlocks := by
  obtain ⟨guardBlocks, hguards, hencoded⟩ :=
    Outcome.exists_forall₂ (f := guardBlockOf (ε := CoreError) crypto) h.guards
      (Q := fun guarded block => GuardBlock.Encodes guarded.1 guarded.2 block) (by
        rintro ⟨tracker, threshold⟩ guard ⟨thresholdMs, hms, rfl⟩
        refine ⟨_, by rw [guardBlockOf, tracker.derives]; rfl, rfl, rfl, rfl, rfl, hms, rfl⟩)
  obtain ⟨resourceBlocks, hresources, hencoded'⟩ :=
    Outcome.exists_forall₂ (f := resourceBlockOf (ε := CoreError) crypto) h.resources
      (Q := fun consumed block => ResourceBlock.Encodes consumed.1 consumed.2 block) (by
        rintro ⟨resource, tokens⟩ request ⟨tokensRequested, htokens, rfl⟩
        refine ⟨_, by rw [resourceBlockOf, resource.derives]; rfl, rfl, rfl, rfl, htokens, rfl⟩)
  refine ⟨guardBlocks, resourceBlocks, ?_, hencoded, hencoded'⟩
  have hguards_le := h.guards_le
  have hresources_le := h.resources_le
  unfold buildRateRequestBody
  dsimp only
  rw [UInt16.toNat_ofNat_of_lt' (by simp only [UInt16.size]; omega),
    UInt16.toNat_ofNat_of_lt' (by simp only [UInt16.size]; omega),
    (foldlM_append_eq_ok_iff (appendGuard_eq crypto)).mpr ⟨guardBlocks, hguards, rfl⟩,
    Outcome.ok_bind,
    (foldlM_append_eq_ok_iff (appendResource_eq crypto)).mpr ⟨resourceBlocks, hresources, rfl⟩,
    Outcome.ok_bind]
  cases hlabel : builder.metricsLabel with
  | none => simp [metricsLabelBytes]
  | some label => exact appendMetricsLabelTlv_eq_ok_iff.mpr ⟨h.label_le label hlabel, rfl⟩

end RequestBuilder

/-- The body of a report carries what was observed. -/
theorem latencyReport_encodes {tracker : LatencyTracker crypto} {observed : Duration}
    {report : ServiceLatencyReport} (h : latencyReport tracker observed = .ok report) :
    ∃ block, buildLatencyReportBody crypto [report] =
      .ok (leBytes 2 1 ++ [0, 0] ++ ServiceLatencyBlock.toBytes block) ∧
        block.Encodes tracker observed := by
  obtain ⟨observedLatency, hms, h⟩ := Outcome.bind_eq_ok_iff.mp h
  cases h
  refine ⟨⟨tracker.id, tracker.sampleTtlMs, tracker.maxSamples, tracker.minSamples,
    observedLatency⟩, ?_, rfl, rfl, rfl, rfl, (durationToU32Ms_eq_ok_iff.mp hms).2⟩
  have hblock : (serviceLatencyBlockOf crypto ⟨tracker.name, observedLatency, tracker.sampleTtlMs,
      tracker.maxSamples, tracker.minSamples⟩ : Outcome CoreError _) = .ok ⟨tracker.id,
        tracker.sampleTtlMs, tracker.maxSamples, tracker.minSamples, observedLatency⟩ := by
    rw [serviceLatencyBlockOf, tracker.derives]
    rfl
  refine (foldlM_append_eq_ok_iff (appendReport_eq crypto)).mpr ⟨[_], .cons hblock .nil, ?_⟩
  simp

/-- Definitions are hashed injectively, so that ids are equal exactly for equal definitions where the
truncated hash does not collide; and every datagram addresses a resource or tracker by its own id,
with the caller's durations and numbers. -/
theorem identities_agree (crypto : Crypto) :
    (∀ d d' : Definition, d.Fits → d'.Fits → (d.bytes = d'.bytes ↔ d = d')) ∧
    (∀ S : Set Definition, (∀ d ∈ S, d.Fits) →
      Set.InjOn (truncatedHash crypto) (Definition.bytes '' S) → ∀ d ∈ S, ∀ d' ∈ S,
        ((d.id crypto : Outcome CoreError _) = d'.id crypto ↔ d = d')) ∧
    (∀ name window rateLimit resource, Resource.new crypto name window rateLimit = .ok resource →
      resource.name = name ∧ resource.window = window ∧ resource.rateLimit = rateLimit ∧
        (resource.definition.id crypto : Outcome CoreError _) = .ok resource.id) ∧
    (∀ (builder : LatencyTrackerBuilder) tracker, builder.build crypto = .ok tracker →
      tracker.name = builder.name ∧ builder.sampleTtl = some tracker.sampleTtl ∧
        builder.maxSamples = some tracker.maxSamples ∧ builder.minSamples = some tracker.minSamples ∧
          (tracker.definition.id crypto : Outcome CoreError _) = .ok tracker.id) ∧
    (∀ limits (entries : List (RequestEntry crypto)) builder,
      RequestBuilder.addAll limits entries = .ok builder → ∃ guardBlocks resourceBlocks,
        buildRateRequestBody crypto builder.resources builder.guards builder.metricsLabel =
          .ok (leBytes 2 builder.guards.length ++ leBytes 2 builder.resources.length ++
            guardBlocks.flatMap GuardBlock.toBytes ++
            resourceBlocks.flatMap ResourceBlock.toBytes ++
            metricsLabelBytes builder.metricsLabel) ∧
        List.Forall₂ (fun guarded block => GuardBlock.Encodes guarded.1 guarded.2 block)
          (entries.filterMap RequestEntry.guarded) guardBlocks ∧
        List.Forall₂ (fun consumed block => ResourceBlock.Encodes consumed.1 consumed.2 block)
          (entries.filterMap RequestEntry.consumed) resourceBlocks) ∧
    ∀ (tracker : LatencyTracker crypto) observed report,
      latencyReport tracker observed = .ok report → ∃ block,
        buildLatencyReportBody crypto [report] =
          .ok (leBytes 2 1 ++ [0, 0] ++ ServiceLatencyBlock.toBytes block) ∧
            block.Encodes tracker observed := by
  refine ⟨fun d d' h h' => Definition.bytes_inj h h', ?_, ?_, ?_, ?_, ?_⟩
  · intro S hfits hinj d hd d' hd'
    exact Definition.id_inj hfits hinj hd hd'
  · intro name window rateLimit resource h
    obtain ⟨hname, hwindow, hlimit⟩ := Resource.new_eq_ok h
    exact ⟨hname, hwindow, hlimit, resource.derives⟩
  · intro builder tracker h
    obtain ⟨hname, httl, hmax, hmin⟩ := LatencyTrackerBuilder.build_eq_ok h
    exact ⟨hname, httl, hmax, hmin, tracker.derives⟩
  · intro limits entries builder h
    exact (RequestBuilder.holds_foldlM RequestBuilder.holds_empty h).encodes
  · intro tracker observed report h
    exact latencyReport_encodes h

end Ratelimitly
