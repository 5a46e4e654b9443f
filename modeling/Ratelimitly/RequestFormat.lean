import Mathlib.Tactic
import Ratelimitly.Aead
import Ratelimitly.RequestBuilder
import Ratelimitly.ResponseFormat

/-! The format of the client's datagrams, and that they read back as what was asked. -/
namespace Ratelimitly

open Lib

variable {ε : Type}

/-! ### Blocks -/

structure GuardBlock.Matches (crypto : Crypto) (guard : LatencyGuard) (block : GuardBlock) :
    Prop where
  id_eq : (deriveLatencyTrackerId crypto guard.latencyTrackerName guard.ttlMs guard.maxSamples
    guard.minSampleThreshold : Outcome CoreError _) = .ok block.latencyTrackerId
  ttlMs_eq : block.ttlMs = guard.ttlMs
  maxSamples_eq : block.maxSamples = guard.maxSamples
  minSampleThreshold_eq : block.minSampleThreshold = guard.minSampleThreshold
  latencyThreshold_eq : block.latencyThreshold = guard.thresholdMs
  currentLatency_eq : block.currentLatency = 0

structure ResourceBlock.Matches (crypto : Crypto) (resource : ResourceRequest)
    (block : ResourceBlock) : Prop where
  id_eq : (deriveBucketId crypto resource.bucketName resource.windowSizeMs resource.rateLimit :
    Outcome CoreError _) = .ok block.bucketId
  windowSizeMs_eq : block.windowSizeMs = resource.windowSizeMs
  rateLimit_eq : block.rateLimit = resource.rateLimit
  tokensRequested_eq : block.tokensRequested = resource.tokensRequested
  padding_eq : block.padding = 0

structure ServiceLatencyBlock.Matches (crypto : Crypto) (report : ServiceLatencyReport)
    (block : ServiceLatencyBlock) : Prop where
  id_eq : (deriveLatencyTrackerId crypto report.latencyTrackerName report.ttlMs report.maxSamples
    report.minSampleThreshold : Outcome CoreError _) = .ok block.latencyTrackerId
  ttlMs_eq : block.ttlMs = report.ttlMs
  maxSamples_eq : block.maxSamples = report.maxSamples
  minSampleThreshold_eq : block.minSampleThreshold = report.minSampleThreshold
  observedLatency_eq : block.observedLatency = report.observedLatency

theorem guardBlockOf_matches {crypto : Crypto} {guard : LatencyGuard} {block : GuardBlock}
    (h : guardBlockOf crypto guard = (.ok block : Outcome CoreError _)) :
    block.Matches crypto guard := by
  simp only [guardBlockOf, Outcome.bind_eq_ok_iff, Outcome.pure_eq, Outcome.ok.injEq] at h
  obtain ⟨id, hid, rfl⟩ := h
  exact ⟨hid, rfl, rfl, rfl, rfl, rfl⟩

theorem resourceBlockOf_matches {crypto : Crypto} {resource : ResourceRequest}
    {block : ResourceBlock} (h : resourceBlockOf crypto resource = (.ok block : Outcome CoreError _)) :
    block.Matches crypto resource := by
  simp only [resourceBlockOf, Outcome.bind_eq_ok_iff, Outcome.pure_eq, Outcome.ok.injEq] at h
  obtain ⟨id, hid, rfl⟩ := h
  exact ⟨hid, rfl, rfl, rfl, rfl⟩

theorem serviceLatencyBlockOf_matches {crypto : Crypto} {report : ServiceLatencyReport}
    {block : ServiceLatencyBlock}
    (h : serviceLatencyBlockOf crypto report = (.ok block : Outcome CoreError _)) :
    block.Matches crypto report := by
  simp only [serviceLatencyBlockOf, Outcome.bind_eq_ok_iff, Outcome.pure_eq,
    Outcome.ok.injEq] at h
  obtain ⟨id, hid, rfl⟩ := h
  exact ⟨hid, rfl, rfl, rfl, rfl⟩

/-- The layout of a service latency block; the crate has no reader for it. -/
def ServiceLatencyBlock.ofBytes (buffer : List UInt8) : ServiceLatencyBlock where
  latencyTrackerId := .ofList 16 (sub buffer 0 16)
  ttlMs := le32 (sub buffer 16 20)
  maxSamples := le32 (sub buffer 20 24)
  minSampleThreshold := le32 (sub buffer 24 28)
  observedLatency := le32 (sub buffer 28 32)

theorem ServiceLatencyBlock.ofBytes_toBytes_append (block : ServiceLatencyBlock)
    (rest : List UInt8) : ofBytes (block.toBytes ++ rest) = block := by
  simp [ofBytes, toBytes, sub_append_right, sub_append_left, sub_full]

theorem appendBlock_of_write {blockLen : ℕ} {write : List UInt8 → Outcome ε (List UInt8)}
    {body bytes : List UInt8} (h : write (List.replicate blockLen 0) = .ok bytes) :
    appendBlock blockLen write body = .ok (body ++ bytes) := by
  unfold appendBlock
  dsimp only
  rw [slice_of_le (by simp) le_rfl, sub_length, List.drop_left, Outcome.ok_bind, h]
  simp

section Fold

variable {α β : Type} {blockOf : α → Outcome ε β} {toBytes : β → List UInt8}
  {append : List UInt8 → α → Outcome ε (List UInt8)}

/-- A loop that appends one block per element appends all of them in order. -/
theorem foldlM_append_eq_ok_iff
    (happend : ∀ body a, append body a = blockOf a >>= fun b => .ok (body ++ toBytes b))
    {as : List α} {body body' : List UInt8} :
    as.foldlM append body = .ok body' ↔
      ∃ blocks, List.Forall₂ (fun a b => blockOf a = .ok b) as blocks ∧
        body' = body ++ blocks.flatMap toBytes := by
  induction as generalizing body with
  | nil => simp [eq_comm]
  | cons a as ih =>
    simp only [List.foldlM_cons, happend, Outcome.bind_eq_ok_iff, Outcome.ok.injEq, ih,
      List.forall₂_cons_left_iff]
    constructor
    · rintro ⟨_, ⟨b, hb, rfl⟩, blocks, hblocks, rfl⟩
      exact ⟨b :: blocks, ⟨b, blocks, hb, hblocks, rfl⟩, by simp⟩
    · rintro ⟨_, ⟨b, blocks, hb, hblocks, rfl⟩, rfl⟩
      exact ⟨_, ⟨b, hb, rfl⟩, blocks, hblocks, by simp⟩

theorem length_flatMap_toBytes {blockLen : ℕ} (hlen : ∀ b, (toBytes b).length = blockLen)
    (blocks : List β) : (blocks.flatMap toBytes).length = blockLen * blocks.length := by
  simp [List.length_flatMap, hlen, Nat.mul_comm]

theorem readBlocks_flatMap {blockLen : ℕ} (tooSmall : String)
    {read : List UInt8 → Outcome String β} (hlen : ∀ b, (toBytes b).length = blockLen)
    (hread : ∀ b rest, read (toBytes b ++ rest) = .ok b) (start : List UInt8) (blocks : List β)
    (rest : List UInt8) :
    readBlocks blockLen tooSmall read (start ++ (blocks.flatMap toBytes ++ rest)) blocks.length
      start.length = .ok (blocks, start.length + blockLen * blocks.length) := by
  induction blocks generalizing start with
  | nil => simp [readBlocks]
  | cons b blocks ih =>
    have h := ih (start ++ toBytes b)
    rw [List.length_append, hlen, List.append_assoc, ← List.append_assoc (toBytes b),
      ← List.flatMap_cons] at h
    rw [List.length_cons, readBlocks, Outcome.failIf_neg (by simp [hlen]), Outcome.ok_bind,
      slice_of_le (by simp) le_rfl, sub_length, List.drop_left, Outcome.ok_bind, List.flatMap_cons,
      List.append_assoc, hread, Outcome.mapErr, Outcome.ok_bind, ← List.append_assoc (toBytes b),
      ← List.flatMap_cons, h]
    simp only [Outcome.ok_bind, Outcome.pure_eq, Outcome.ok.injEq, Prod.mk.injEq, true_and]
    ring

theorem map_ofBytes_flatMap {blockLen : ℕ} {ofBytes : List UInt8 → β}
    (hlen : ∀ b, (toBytes b).length = blockLen) (hof : ∀ b rest, ofBytes (toBytes b ++ rest) = b)
    (blocks : List β) :
    ((List.range blocks.length).map fun i => ofBytes ((blocks.flatMap toBytes).drop (blockLen * i))) =
      blocks := by
  induction blocks with
  | nil => rfl
  | cons b blocks ih =>
    rw [List.length_cons, List.range_succ_eq_map, List.map_cons, List.map_map, List.flatMap_cons,
      Nat.mul_zero, List.drop_zero, hof]
    congr 1
    refine Eq.trans (List.map_congr_left fun i _ => ?_) ih
    rw [Function.comp, Nat.mul_succ, Nat.add_comm, ← List.drop_drop, List.drop_left' (hlen b)]

end Fold

theorem GuardBlock.readFromBuffer_toBytes_append (block : GuardBlock) (rest : List UInt8) :
    readFromBuffer (block.toBytes ++ rest) = .ok block := by
  rw [readFromBuffer_of_le (by simp), ofBytes_toBytes_append]

theorem ResourceBlock.readFromBuffer_toBytes_append (block : ResourceBlock) (rest : List UInt8) :
    readFromBuffer (block.toBytes ++ rest) = .ok block := by
  rw [readFromBuffer_of_le (by simp), ofBytes_toBytes_append]

theorem appendGuard_eq (crypto : Crypto) (body : List UInt8) (guard : LatencyGuard) :
    (appendGuard crypto body guard : Outcome ε _) =
      guardBlockOf crypto guard >>= fun block => .ok (body ++ block.toBytes) := by
  rw [appendGuard]
  congr 1
  funext block
  exact appendBlock_of_write (by rw [GuardBlock.writeToBuffer_of_le (by simp [guardLen])]; simp [guardLen])

theorem appendResource_eq (crypto : Crypto) (body : List UInt8) (resource : ResourceRequest) :
    (appendResource crypto body resource : Outcome ε _) =
      resourceBlockOf crypto resource >>= fun block => .ok (body ++ block.toBytes) := by
  rw [appendResource]
  congr 1
  funext block
  exact appendBlock_of_write
    (by rw [ResourceBlock.writeToBuffer_of_le (by simp [resourceLen])]; simp [resourceLen])

theorem appendReport_eq (crypto : Crypto) (body : List UInt8) (report : ServiceLatencyReport) :
    (appendReport crypto body report : Outcome ε _) =
      serviceLatencyBlockOf crypto report >>= fun block => .ok (body ++ block.toBytes) := by
  rw [appendReport]
  congr 1
  funext block
  exact appendBlock_of_write
    (by rw [ServiceLatencyBlock.writeToBuffer_of_le (by simp [serviceLatencyBlockWireLen])]
        simp [serviceLatencyBlockWireLen])

/-! ### The metrics label -/

/-- The label TLV: type, size, label length, label and zeros up to a multiple of four. -/
def metricsLabelTlv (label : String) : List UInt8 :=
  let labelBytes := utf8Bytes label.toList
  let padding := (4 - (2 + labelBytes.length) % 4) % 4
  leBytes 2 0x4C4D ++ leBytes 2 (6 + labelBytes.length + padding) ++ leBytes 2 labelBytes.length ++
    labelBytes ++ List.replicate padding 0

theorem slice_pad {padding : ℕ} (h : padding < 4) :
    (slice [0, 0, 0, 0] 0 padding : Outcome CoreError (List UInt8)) =
      .ok (List.replicate padding 0) := by
  rw [slice_of_le (by omega) (by simp; omega)]
  interval_cases padding <;> rfl

theorem appendMetricsLabelTlv_eq_ok_iff {pduBody body' : List UInt8} {label : String} :
    appendMetricsLabelTlv pduBody label = .ok body' ↔
      (utf8Bytes label.toList).length ≤ 65526 ∧ body' = pduBody ++ metricsLabelTlv label := by
  unfold appendMetricsLabelTlv metricsLabelTlv
  dsimp only
  generalize utf8Bytes label.toList = labelBytes
  rw [Outcome.failIf_bind_eq_ok_iff, Outcome.failIf_bind_eq_ok_iff]
  by_cases hlen : labelBytes.length ≤ 65526
  · have hfit : 4 + (2 + labelBytes.length) + (4 - (2 + labelBytes.length) % 4) % 4 =
        6 + labelBytes.length + (4 - (2 + labelBytes.length) % 4) % 4 ∧
        6 + labelBytes.length + (4 - (2 + labelBytes.length) % 4) % 4 < 65536 ∧
        (4 - (2 + labelBytes.length) % 4) % 4 < 4 := by omega
    generalize (4 - (2 + labelBytes.length) % 4) % 4 = padding at hfit ⊢
    obtain ⟨hsize, hlt, hpad⟩ := hfit
    rw [hsize, UInt16.toNat_ofNat_of_lt' hlt,
      UInt16.toNat_ofNat_of_lt' (show labelBytes.length < 65536 by omega), slice_pad hpad]
    have hpadding : (if padding > 0 then (.ok (List.replicate padding 0) : Outcome CoreError _) >>=
        fun pad => pure (pduBody ++ leBytes 2 tlvMetricsLabel.toNat ++
          leBytes 2 (6 + labelBytes.length + padding) ++ leBytes 2 labelBytes.length ++
          labelBytes ++ pad)
        else pure (pduBody ++ leBytes 2 tlvMetricsLabel.toNat ++
          leBytes 2 (6 + labelBytes.length + padding) ++ leBytes 2 labelBytes.length ++
          labelBytes)) =
        .ok (pduBody ++ (leBytes 2 0x4C4D ++ leBytes 2 (6 + labelBytes.length + padding) ++
          leBytes 2 labelBytes.length ++ labelBytes ++ List.replicate padding 0)) := by
      split
      · simp [tlvMetricsLabel]
      · simp [tlvMetricsLabel, show padding = 0 by omega]
    rw [hpadding, Outcome.ok.injEq, eq_comm (a := body')]
    exact ⟨fun ⟨_, _, h⟩ => ⟨hlen, h⟩, fun ⟨_, h⟩ => ⟨by omega, by omega, h⟩⟩
  · constructor
    · rintro ⟨h1, h2, -⟩
      omega
    · rintro ⟨h, -⟩
      exact (hlen h).elim

/-! ### PDUs -/

theorem framePdu_eq_ok_iff {pduType : UInt16} {field body pdu : List UInt8} :
    framePdu pduType field body = .ok pdu ↔ 8 + body.length < 65536 ∧
      pdu = leBytes 2 pduType.toNat ++ leBytes 2 (8 + body.length) ++ field ++ body := by
  unfold framePdu
  dsimp only
  rw [Outcome.failIf_bind_eq_ok_iff, pduHeaderLen, Outcome.pure_eq, Outcome.ok.injEq]
  constructor
  · rintro ⟨hlen, rfl⟩
    have hlt : 8 + body.length < 65536 := by omega
    rw [UInt16.toNat_ofNat_of_lt' hlt]
    exact ⟨hlt, rfl⟩
  · rintro ⟨hlt, rfl⟩
    rw [UInt16.toNat_ofNat_of_lt' hlt]
    exact ⟨by omega, rfl⟩

/-- The fields of a PDU with a four-byte field before its body. -/
structure IsPdu (pduType : UInt16) (field body pdu : List UInt8) : Prop where
  type_eq : sub pdu 0 2 = leBytes 2 pduType.toNat
  size_eq : pduSize pdu = pdu.length
  field_eq : sub pdu 4 8 = field
  body_eq : pdu.drop 8 = body
  length_eq : pdu.length = 8 + body.length

theorem framePdu_isPdu {pduType : UInt16} {field body pdu : List UInt8} (hfield : field.length = 4)
    (h : framePdu pduType field body = .ok pdu) : IsPdu pduType field body pdu := by
  obtain ⟨hlt, rfl⟩ := framePdu_eq_ok_iff.mp h
  refine ⟨?_, ?_, ?_, ?_, by simp [hfield]; omega⟩
  · simp [sub_append_left, sub_full]
  · simp [pduSize, sub_append_left, sub_append_right, sub_full, hfield,
      leNat_leBytes_of_lt (show 8 + body.length < 256 ^ 2 by omega)]
    omega
  · simp [sub_append_left, sub_append_right, sub_full, hfield]
  · rw [List.drop_left' (by simp [hfield])]

def metricsLabelBytes (metricsLabel : Option String) : List UInt8 :=
  metricsLabel.elim [] metricsLabelTlv

theorem buildRateRequestBody_spec {crypto : Crypto} {resources : List ResourceRequest}
    {guards : List LatencyGuard} {metricsLabel : Option String} {body : List UInt8}
    (h : buildRateRequestBody crypto resources guards metricsLabel = .ok body) :
    ∃ guardBlocks resourceBlocks,
      List.Forall₂ (fun guard block => GuardBlock.Matches crypto guard block) guards guardBlocks ∧
        List.Forall₂ (fun resource block => ResourceBlock.Matches crypto resource block) resources
          resourceBlocks ∧
        body = leBytes 2 (UInt16.ofNat guards.length).toNat ++
          leBytes 2 (UInt16.ofNat resources.length).toNat ++
          guardBlocks.flatMap GuardBlock.toBytes ++
          resourceBlocks.flatMap ResourceBlock.toBytes ++ metricsLabelBytes metricsLabel := by
  unfold buildRateRequestBody at h
  dsimp only at h
  simp only [Outcome.bind_eq_ok_iff, foldlM_append_eq_ok_iff (appendGuard_eq crypto),
    foldlM_append_eq_ok_iff (appendResource_eq crypto)] at h
  obtain ⟨_, ⟨guardBlocks, hguards, rfl⟩, _, ⟨resourceBlocks, hresources, rfl⟩, h⟩ := h
  refine ⟨guardBlocks, resourceBlocks, hguards.imp fun _ _ => guardBlockOf_matches,
    hresources.imp fun _ _ => resourceBlockOf_matches, ?_⟩
  cases metricsLabel with
  | none => simpa [metricsLabelBytes] using h.symm
  | some label => exact (appendMetricsLabelTlv_eq_ok_iff.mp h).2

theorem buildLatencyReportBody_spec {crypto : Crypto} {reports : List ServiceLatencyReport}
    {body : List UInt8} (h : buildLatencyReportBody crypto reports = .ok body) :
    ∃ blocks,
      List.Forall₂ (fun report block => ServiceLatencyBlock.Matches crypto report block) reports
          blocks ∧
        body = leBytes 2 (UInt16.ofNat reports.length).toNat ++ [0, 0] ++
          blocks.flatMap ServiceLatencyBlock.toBytes := by
  unfold buildLatencyReportBody at h
  dsimp only at h
  rw [foldlM_append_eq_ok_iff (appendReport_eq crypto)] at h
  obtain ⟨blocks, hblocks, rfl⟩ := h
  exact ⟨blocks, hblocks.imp fun _ _ => serviceLatencyBlockOf_matches, rfl⟩

/-- The PDU `pdu` asks for `resources` and `guards`, as a reader of consecutive blocks sees it. -/
structure AsksFor (crypto : Crypto) (dedupTtlMs : UInt32) (resources : List ResourceRequest)
    (guards : List LatencyGuard) (metricsLabel : Option String) (pdu : List UInt8) : Prop where
  type_eq : le16 (sub pdu 0 2) = pduRateRequest
  size_eq : pduSize pdu = pdu.length
  dedupTtlMs_eq : le32 (sub pdu 4 8) = dedupTtlMs
  guardCount_eq : guardCount pdu = guards.length
  resourceCount_eq : resourceCount pdu = resources.length
  guards_eq : ∃ blocks,
    readBlocks guardBlockWireLen "Buffer too small for GuardBlock" GuardBlock.readFromBuffer pdu
      guards.length 12 = .ok (blocks, 12 + 36 * guards.length) ∧
    List.Forall₂ (fun guard block => GuardBlock.Matches crypto guard block) guards blocks
  resources_eq : ∃ blocks,
    readBlocks resourceBlockWireLen "Buffer too small for ResourceBlock"
      ResourceBlock.readFromBuffer pdu resources.length (12 + 36 * guards.length) =
        .ok (blocks, 12 + 36 * guards.length + 28 * resources.length) ∧
    List.Forall₂ (fun resource block => ResourceBlock.Matches crypto resource block) resources
      blocks
  rest_eq : pdu.drop (12 + 36 * guards.length + 28 * resources.length) =
    metricsLabelBytes metricsLabel

/-- The PDU `pdu` reports `reports`. -/
structure Reports (crypto : Crypto) (reports : List ServiceLatencyReport) (pdu : List UInt8) :
    Prop where
  type_eq : le16 (sub pdu 0 2) = pduLatencyReport
  size_eq : pduSize pdu = pdu.length
  field_eq : sub pdu 4 8 = [0, 0, 0, 0]
  count_eq : leNat (sub pdu 8 10) = reports.length
  padding_eq : sub pdu 10 12 = [0, 0]
  length_eq : pdu.length = 12 + 32 * reports.length
  blocks_eq : List.Forall₂ (fun report block => ServiceLatencyBlock.Matches crypto report block)
    reports ((List.range reports.length).map fun i => .ofBytes (pdu.drop (12 + 32 * i)))

theorem buildRateRequestPdu_asksFor {crypto : Crypto} {dedupTtlMs : UInt32}
    {resources : List ResourceRequest} {guards : List LatencyGuard} {metricsLabel : Option String}
    {body pdu : List UInt8} (hbody : buildRateRequestBody crypto resources guards metricsLabel = .ok body)
    (hpdu : buildRateRequestPdu dedupTtlMs body = .ok pdu) :
    AsksFor crypto dedupTtlMs resources guards metricsLabel pdu := by
  obtain ⟨guardBlocks, resourceBlocks, hguards, hresources, rfl⟩ :=
    buildRateRequestBody_spec hbody
  have hframe := framePdu_isPdu (by simp) hpdu
  obtain ⟨hlt, -⟩ := framePdu_eq_ok_iff.mp hpdu
  have hg := hguards.length_eq
  have hr := hresources.length_eq
  have hglen := length_flatMap_toBytes GuardBlock.length_toBytes guardBlocks
  have hrlen := length_flatMap_toBytes ResourceBlock.length_toBytes resourceBlocks
  simp only [List.length_append, length_leBytes, hglen, hrlen] at hlt
  have hg16 : guards.length < 65536 := by omega
  have hr16 : resources.length < 65536 := by omega
  rw [UInt16.toNat_ofNat_of_lt' hg16, UInt16.toNat_ofNat_of_lt' hr16] at hframe
  have hbody := hframe.body_eq
  set head := sub pdu 0 8 ++ (leBytes 2 guards.length ++ leBytes 2 resources.length) with hhead
  have hlen8 : 8 ≤ pdu.length := by rw [hframe.length_eq]; omega
  have hheadLen : head.length = 12 := by
    simp [hhead, length_sub_of_le hlen8]
  have hpduEq : pdu = head ++ (guardBlocks.flatMap GuardBlock.toBytes ++
      (resourceBlocks.flatMap ResourceBlock.toBytes ++ metricsLabelBytes metricsLabel)) := by
    conv_lhs => rw [← List.take_append_drop 8 pdu, hbody]
    simp [hhead, sub]
  have hcounts : ∀ a b, 8 ≤ a → b ≤ 12 → sub pdu a b =
      sub (leBytes 2 guards.length ++ leBytes 2 resources.length) (a - 8) (b - 8) := by
    intro a b ha hb
    rw [hpduEq, sub_append_left _ (by omega), hhead,
      sub_append_right _ (by rw [length_sub_of_le hlen8]; omega), length_sub_of_le hlen8]
  refine ⟨?_, hframe.size_eq, ?_, ?_, ?_, ⟨guardBlocks, ?_, hguards⟩,
    ⟨resourceBlocks, ?_, hresources⟩, ?_⟩
  · rw [hframe.type_eq, le16_leBytes]
  · rw [hframe.field_eq, le32_leBytes]
  · rw [guardCount, hcounts 8 10 le_rfl (by omega), sub_append_left _ (by simp),
      sub_full (by simp), leNat_leBytes_of_lt hg16]
  · rw [resourceCount, hcounts 10 12 (by omega) le_rfl, sub_append_right _ (by simp)]
    simp [sub_full, leNat_leBytes_of_lt (show resources.length < 256 ^ 2 from hr16)]
  · have h := readBlocks_flatMap "Buffer too small for GuardBlock"
      GuardBlock.length_toBytes (fun block rest => GuardBlock.readFromBuffer_toBytes_append block rest)
      head guardBlocks (resourceBlocks.flatMap ResourceBlock.toBytes ++ metricsLabelBytes metricsLabel)
    rwa [← hpduEq, hheadLen, ← hg] at h
  · have h := readBlocks_flatMap "Buffer too small for ResourceBlock"
      ResourceBlock.length_toBytes
      (fun block rest => ResourceBlock.readFromBuffer_toBytes_append block rest)
      (head ++ guardBlocks.flatMap GuardBlock.toBytes) resourceBlocks (metricsLabelBytes metricsLabel)
    rwa [List.append_assoc, ← hpduEq, List.length_append, hheadLen, hglen, ← hg, ← hr] at h
  · rw [hpduEq, ← List.append_assoc, ← List.append_assoc,
      List.drop_left' (by simp [hheadLen, hglen, hrlen, hg, hr, Nat.add_assoc])]

theorem buildLatencyReportPdu_reports {crypto : Crypto} {reports : List ServiceLatencyReport}
    {body pdu : List UInt8} (hbody : buildLatencyReportBody crypto reports = .ok body)
    (hpdu : buildPdu pduLatencyReport body = .ok pdu) : Reports crypto reports pdu := by
  obtain ⟨blocks, hblocks, rfl⟩ := buildLatencyReportBody_spec hbody
  have hframe := framePdu_isPdu (by simp) hpdu
  obtain ⟨hlt, -⟩ := framePdu_eq_ok_iff.mp hpdu
  have hn := hblocks.length_eq
  have hlen := length_flatMap_toBytes ServiceLatencyBlock.length_toBytes blocks
  simp only [List.length_append, length_leBytes, hlen] at hlt
  have hn16 : reports.length < 65536 := by omega
  rw [UInt16.toNat_ofNat_of_lt' hn16] at hframe
  have hbody := hframe.body_eq
  have hcut : ∀ a b, sub pdu (8 + a) (8 + b) = sub (pdu.drop 8) a b := fun a b => (sub_drop ..).symm
  have hdrop : pdu.drop 12 = blocks.flatMap ServiceLatencyBlock.toBytes := by
    rw [show 12 = 8 + 4 from rfl, ← List.drop_drop, hbody, List.drop_left' (by simp)]
  refine ⟨?_, hframe.size_eq, hframe.field_eq, ?_, ?_, ?_, ?_⟩
  · rw [hframe.type_eq, le16_leBytes]
  · rw [show sub pdu 8 10 = sub pdu (8 + 0) (8 + 2) from rfl, hcut, hbody]
    simp [sub_append_left, sub_full, leNat_leBytes_of_lt (show reports.length < 256 ^ 2 from hn16)]
  · rw [show sub pdu 10 12 = sub pdu (8 + 2) (8 + 4) from rfl, hcut, hbody]
    simp [sub]
  · rw [hframe.length_eq]
    simp [hlen, hn]
    omega
  · have h := map_ofBytes_flatMap ServiceLatencyBlock.length_toBytes
      ServiceLatencyBlock.ofBytes_toBytes_append blocks
    simp only [← hdrop, List.drop_drop] at h
    rwa [hn, h]

/-! ### Datagrams -/

theorem writeTenantHeader_nil (header : TenantHeader) :
    (writeTenantHeader [] header : Outcome ε _) = .ok header.toBytes := by
  unfold writeTenantHeader
  dsimp only
  rw [slice_of_le (by simp) (by simp), Outcome.ok_bind,
    TenantHeader.writeToBuffer_of_le (by simp [tenantTlvLen])]
  simp [tenantTlvLen, sub]

theorem buildTenantHeader_isTenantTlv (apiKey : ApiKeyConfig) (requestId : Bytes 16)
    (nowMillis : UInt64) : IsTenantTlv (buildTenantHeader apiKey requestId nowMillis).toBytes := by
  refine ⟨?_, ?_, by simp⟩
  · simp [TenantHeader.toBytes, buildTenantHeader, sub_append_left, sub_full, tlvTenant]
  · simp [TenantHeader.toBytes, buildTenantHeader, sub_append_left, sub_append_right, sub_full,
      tenantTlvLen, leNat_leBytes]

theorem encryptPdu_spec {crypto : Crypto} (hcrypto : crypto.AeadCorrect) {key : Bytes 32}
    {nonce nonce' : Bytes 12} {tag : Bytes 16} {pdu aadPrefix encrypted : List UInt8}
    (h : (encryptPdu crypto nonce pdu key aadPrefix : Outcome ε _) = .ok (encrypted, nonce', tag)) :
    nonce' = nonce ∧ encrypted.length = pdu.length ∧
      crypto.decrypt key nonce (encrypted ++ tag.toList) (aadPrefix ++ nonce.toList) = some pdu := by
  simp only [encryptPdu, Outcome.bind_eq_ok_iff, Outcome.expect_eq_ok_iff] at h
  obtain ⟨ciphertext, henc, h⟩ := h
  obtain ⟨hlen, hdec⟩ := hcrypto _ _ _ _ _ henc
  rw [if_neg (by omega), slice_of_le (by omega) le_rfl, Outcome.ok_bind,
    slice_of_le (by omega) (by omega), Outcome.ok_bind, toArray_sub (by omega) le_rfl,
    Outcome.ok_bind, Outcome.pure_eq, Outcome.ok.injEq, Prod.mk.injEq, Prod.mk.injEq] at h
  obtain ⟨rfl, rfl, rfl⟩ := h
  refine ⟨rfl, ?_, ?_⟩
  · rw [length_sub_of_le (by omega)]
    omega
  · rwa [Bytes.toList_ofList (by rw [length_sub_of_le le_rfl]; omega),
      sub_append_sub _ (by omega) (by omega), sub_zero_length]

/-- A built datagram is an authenticated PDU behind the 40-byte tenant header. -/
theorem appendAuthTlv_spec {crypto : Crypto} (hcrypto : crypto.AeadCorrect) {nonce : Bytes 12}
    {auth : AuthMethod} {T pdu packet : List UInt8}
    (h : appendAuthTlv crypto nonce auth auth.cookieHashCache auth.aesKeyCache T pdu = .ok packet) :
    ∃ A P, packet = T ++ A ++ P ∧ Authenticated crypto T auth A P pdu ∧
      A.length = authHeaderSize auth ∧ P.length = pdu.length := by
  cases auth with
  | none =>
    simp only [appendAuthTlv, Outcome.pure_eq, Outcome.ok.injEq] at h
    subst h
    exact ⟨_, pdu, by simp [tlvAuthNone], .none pdu, by simp [authHeaderSize], rfl⟩
  | cookie secret =>
    simp only [appendAuthTlv, AuthMethod.cookieHashCache, Outcome.okOr, Outcome.ok_bind,
      Outcome.pure_eq, Outcome.ok.injEq] at h
    subst h
    exact ⟨_, pdu, by simp [tlvAuthCookie], .cookie secret pdu, by simp [authHeaderSize], rfl⟩
  | aesGcm key =>
    simp only [appendAuthTlv, AuthMethod.aesKeyCache, Outcome.expect, Outcome.ok_bind,
      Outcome.bind_eq_ok_iff, Prod.exists] at h
    obtain ⟨encrypted, nonce', tag, henc, h⟩ := h
    obtain ⟨rfl, hlen, hdec⟩ := encryptPdu_spec hcrypto henc
    rw [Outcome.pure_eq, Outcome.ok.injEq] at h
    subst h
    refine ⟨_, encrypted, ?_, .aesGcm key nonce' tag encrypted pdu ?_, by simp [authHeaderSize],
      hlen⟩
    · simp [tlvAuthAes]
    · simpa [tlvAuthAes] using hdec

/-- The datagram `packet` carries `pdu` under the credential of `apiKey`. -/
structure Carries (crypto : Crypto) (apiKey : ApiKeyConfig) (seed : PacketSeed)
    (pdu packet : List UInt8) : Prop where
  length_eq : packet.length = 40 + authHeaderSize apiKey.authMethod + pdu.length
  length_le : packet.length ≤ 1200
  header_eq : parseTenantHeader packet =
    .ok (buildTenantHeader apiKey seed.requestId seed.nowMillis, 40)
  pdu_eq : parseAuthTlv crypto packet 40 apiKey.authMethod apiKey.authMethod.cookieHashCache
    apiKey.authMethod.aesKeyCache = .ok pdu

theorem buildPacket_carries {crypto : Crypto} (hcrypto : crypto.AeadCorrect)
    {apiKey : ApiKeyConfig} {seed : PacketSeed} {pdu packet : List UInt8}
    (h : buildPacket crypto seed.nonce apiKey.authMethod apiKey.authMethod.cookieHashCache
      apiKey.authMethod.aesKeyCache (buildTenantHeader apiKey seed.requestId seed.nowMillis) pdu =
        .ok packet) : Carries crypto apiKey seed pdu packet := by
  unfold buildPacket at h
  dsimp only at h
  rw [Outcome.failIf_bind_eq_ok_iff, writeTenantHeader_nil, Outcome.ok_bind, tenantTlvLen,
    maxPacketSize] at h
  obtain ⟨hsize, h⟩ := h
  obtain ⟨A, P, rfl, hauth, hA, hP⟩ := appendAuthTlv_spec hcrypto h
  set T := (buildTenantHeader apiKey seed.requestId seed.nowMillis).toBytes with hT
  have htake : (T ++ A ++ P).take 40 = T := by
    rw [List.append_assoc, List.take_left' (by simp [hT])]
  have hlen : (T ++ A ++ P).length = 40 + authHeaderSize apiKey.authMethod + pdu.length := by
    simp [hT, hA, hP, Nat.add_assoc]
  refine ⟨hlen, by omega, ?_, ?_⟩
  · rw [parseTenantHeader_eq_ok_iff, htake]
    refine ⟨by omega, buildTenantHeader_isTenantTlv _ _ _, ?_⟩
    simpa [hT] using (TenantHeader.ofBytes_toBytes_append (buildTenantHeader apiKey seed.requestId
      seed.nowMillis) []).symm
  · rw [parseAuthTlv_eq_ok_iff, htake]
    refine ⟨A, P, ?_, hauth⟩
    rw [List.append_assoc, List.drop_left' (by simp [hT])]

theorem buildRateRequestPacket_spec {crypto : Crypto} (hcrypto : crypto.AeadCorrect)
    {apiKey : ApiKeyConfig} {seed : PacketSeed} {dedupTtlMs : UInt32}
    {resources : List ResourceRequest} {guards : List LatencyGuard} {metricsLabel : Option String}
    {packet : List UInt8} (h : buildRateRequestPacket crypto apiKey seed dedupTtlMs resources guards
      metricsLabel = .ok packet) :
    ∃ pdu, Carries crypto apiKey seed pdu packet ∧
      AsksFor crypto dedupTtlMs resources guards metricsLabel pdu := by
  simp only [buildRateRequestPacket, Outcome.bind_eq_ok_iff] at h
  obtain ⟨body, hbody, pdu, hpdu, h⟩ := h
  exact ⟨pdu, buildPacket_carries hcrypto h, buildRateRequestPdu_asksFor hbody hpdu⟩

theorem buildLatencyReportPacket_spec {crypto : Crypto} (hcrypto : crypto.AeadCorrect)
    {apiKey : ApiKeyConfig} {seed : PacketSeed} {reports : List ServiceLatencyReport}
    {packet : List UInt8}
    (h : buildLatencyReportPacket crypto apiKey seed reports = .ok packet) :
    ∃ pdu, Carries crypto apiKey seed pdu packet ∧ Reports crypto reports pdu := by
  simp only [buildLatencyReportPacket, Outcome.bind_eq_ok_iff] at h
  obtain ⟨body, hbody, pdu, hpdu, h⟩ := h
  exact ⟨pdu, buildPacket_carries hcrypto h, buildLatencyReportPdu_reports hbody hpdu⟩

end Ratelimitly
