import Mathlib.Tactic
import Ratelimitly.Protocol

/-! The layout of each wire structure, and that writing and reading agree on it. -/
namespace Ratelimitly

open Lib

variable {ε : Type}

/-- The result of consecutive writes from offset zero. -/
theorem copyFromSlice_written {written src buffer : List UInt8} {a b : ℕ} (hw : written.length = a)
    (hs : a + src.length = b) (hb : b ≤ buffer.length) :
    (copyFromSlice (written ++ buffer.drop a) a b src : Outcome ε _) =
      .ok ((written ++ src) ++ buffer.drop b) := by
  rw [copyFromSlice_append hw hs (by simp; omega), List.drop_drop, hs]

theorem copyFromSlice_start {src buffer : List UInt8} {b : ℕ} (hs : src.length = b)
    (hb : b ≤ buffer.length) :
    (copyFromSlice buffer 0 b src : Outcome ε _) = .ok (src ++ buffer.drop b) := by
  have h : (copyFromSlice ([] ++ buffer.drop 0) 0 b src : Outcome ε _) = _ :=
    copyFromSlice_written rfl (by simpa using hs) hb
  rwa [List.drop_zero, List.nil_append, List.nil_append] at h

theorem setIndex_written {written buffer : List UInt8} {a : ℕ} {x : UInt8}
    (hw : written.length = a) (hb : a + 1 ≤ buffer.length) :
    (setIndex (written ++ buffer.drop a) a x : Outcome ε _) =
      .ok ((written ++ [x]) ++ buffer.drop (a + 1)) :=
  copyFromSlice_written hw rfl hb

/-! ### The tenant header -/

def TenantHeader.toBytes (header : TenantHeader) : List UInt8 :=
  leBytes 2 header.tlvType.toNat ++ (leBytes 2 header.tlvSize.toNat ++
    (leBytes 8 header.keyId.toNat ++ (header.uniqueId.toList ++
    (leBytes 8 header.timeStamp.toNat ++ ([header.steeringFeedback] ++
    ([header.tenantMgmtFlag] ++ header.padding.toList))))))

@[simp] theorem TenantHeader.length_toBytes (header : TenantHeader) :
    header.toBytes.length = 40 := by simp [toBytes]

/-- The fields at their offsets. -/
def TenantHeader.ofBytes (buffer : List UInt8) : TenantHeader where
  tlvType := le16 (sub buffer 0 2)
  tlvSize := le16 (sub buffer 2 4)
  keyId := le64 (sub buffer 4 12)
  uniqueId := .ofList 16 (sub buffer 12 28)
  timeStamp := le64 (sub buffer 28 36)
  steeringFeedback := buffer.getD 36 0
  tenantMgmtFlag := buffer.getD 37 0
  padding := .ofList 2 (sub buffer 38 40)

theorem TenantHeader.writeToBuffer_of_le {header : TenantHeader} {buffer : List UInt8}
    (h : 40 ≤ buffer.length) :
    (header.writeToBuffer buffer : Outcome ε _) = .ok (header.toBytes ++ buffer.drop 40) := by
  rw [writeToBuffer, copyFromSlice_start (by simp) (by omega), Outcome.ok_bind,
    copyFromSlice_written (by simp) (by simp) (by omega), Outcome.ok_bind,
    copyFromSlice_written (by simp) (by simp) (by omega), Outcome.ok_bind,
    copyFromSlice_written (by simp) (by simp) (by omega), Outcome.ok_bind,
    copyFromSlice_written (by simp) (by simp) (by omega), Outcome.ok_bind,
    setIndex_written (by simp) (by omega), Outcome.ok_bind,
    setIndex_written (by simp) (by omega), Outcome.ok_bind,
    copyFromSlice_written (by simp) (by simp) (by omega)]
  simp [toBytes]

theorem TenantHeader.readFromBuffer_of_le {buffer : List UInt8} (h : 40 ≤ buffer.length) :
    readFromBuffer buffer = .ok (ofBytes buffer) := by
  rw [readFromBuffer, Outcome.failIf_neg (by omega), Outcome.ok_bind,
    slice_of_le (by omega) (by omega), Outcome.ok_bind,
    toArray_sub rfl (by omega), Outcome.ok_bind,
    slice_of_le (by omega) (by omega), Outcome.ok_bind,
    toArray_sub rfl (by omega), Outcome.ok_bind,
    u16At_of_le (by omega), Outcome.ok_bind, u16At_of_le (by omega), Outcome.ok_bind,
    u64Slice_of_le rfl (by omega), Outcome.ok_bind, u64Slice_of_le rfl (by omega),
    Outcome.ok_bind, index_eq_getD 0 (by omega), Outcome.ok_bind, index_eq_getD 0 (by omega)]
  rfl

theorem TenantHeader.ofBytes_toBytes_append (header : TenantHeader) (rest : List UInt8) :
    ofBytes (header.toBytes ++ rest) = header := by
  simp [ofBytes, toBytes, sub_append_right, sub_append_left, sub_cons, sub_full,
    List.getElem?_append_right]

/-! ### Guard blocks -/

def GuardBlock.toBytes (block : GuardBlock) : List UInt8 :=
  block.latencyTrackerId.toList ++ (leBytes 4 block.ttlMs.toNat ++
    (leBytes 4 block.maxSamples.toNat ++ (leBytes 4 block.minSampleThreshold.toNat ++
    (leBytes 4 block.latencyThreshold.toNat ++ leBytes 4 block.currentLatency.toNat))))

@[simp] theorem GuardBlock.length_toBytes (block : GuardBlock) : block.toBytes.length = 36 := by
  simp [toBytes]

def GuardBlock.ofBytes (buffer : List UInt8) : GuardBlock where
  latencyTrackerId := .ofList 16 (sub buffer 0 16)
  ttlMs := le32 (sub buffer 16 20)
  maxSamples := le32 (sub buffer 20 24)
  minSampleThreshold := le32 (sub buffer 24 28)
  latencyThreshold := le32 (sub buffer 28 32)
  currentLatency := le32 (sub buffer 32 36)

theorem GuardBlock.writeToBuffer_of_le {block : GuardBlock} {buffer : List UInt8}
    (h : 36 ≤ buffer.length) :
    (block.writeToBuffer buffer : Outcome ε _) = .ok (block.toBytes ++ buffer.drop 36) := by
  rw [writeToBuffer, copyFromSlice_start (by simp) (by omega), Outcome.ok_bind,
    copyFromSlice_written (by simp) (by simp) (by omega), Outcome.ok_bind,
    copyFromSlice_written (by simp) (by simp) (by omega), Outcome.ok_bind,
    copyFromSlice_written (by simp) (by simp) (by omega), Outcome.ok_bind,
    copyFromSlice_written (by simp) (by simp) (by omega), Outcome.ok_bind,
    copyFromSlice_written (by simp) (by simp) (by omega)]
  simp [toBytes]

theorem GuardBlock.readFromBuffer_of_le {buffer : List UInt8} (h : 36 ≤ buffer.length) :
    readFromBuffer buffer = .ok (ofBytes buffer) := by
  rw [readFromBuffer, Outcome.failIf_neg (by rw [guardBlockWireLen]; omega), Outcome.ok_bind,
    slice_of_le (by omega) (by omega), Outcome.ok_bind,
    toArray_sub rfl (by omega), Outcome.ok_bind,
    u32Slice_of_le rfl (by omega), Outcome.ok_bind, u32Slice_of_le rfl (by omega),
    Outcome.ok_bind, u32Slice_of_le rfl (by omega), Outcome.ok_bind,
    u32Slice_of_le rfl (by omega), Outcome.ok_bind, u32Slice_of_le rfl (by omega)]
  rfl

theorem GuardBlock.ofBytes_toBytes_append (block : GuardBlock) (rest : List UInt8) :
    ofBytes (block.toBytes ++ rest) = block := by
  simp [ofBytes, toBytes, sub_append_right, sub_append_left, sub_full]

/-- Only the first 36 bytes matter. -/
theorem GuardBlock.ofBytes_take {buffer : List UInt8} {n : ℕ} (h : 36 ≤ n) :
    ofBytes (buffer.take n) = ofBytes buffer := by
  simp only [ofBytes, sub, List.drop_take, List.take_take]
  simp [show min 16 n = 16 by omega, show min 4 (n - 16) = 4 by omega,
    show min 4 (n - 20) = 4 by omega, show min 4 (n - 24) = 4 by omega,
    show min 4 (n - 28) = 4 by omega, show min 4 (n - 32) = 4 by omega]

/-! ### Resource blocks -/

def ResourceBlock.toBytes (block : ResourceBlock) : List UInt8 :=
  block.bucketId.toList ++ (leBytes 4 block.windowSizeMs.toNat ++
    (leBytes 4 block.rateLimit.toNat ++ (leBytes 2 block.tokensRequested.toNat ++
    leBytes 2 block.padding.toNat)))

@[simp] theorem ResourceBlock.length_toBytes (block : ResourceBlock) :
    block.toBytes.length = 28 := by simp [toBytes]

def ResourceBlock.ofBytes (buffer : List UInt8) : ResourceBlock where
  bucketId := .ofList 16 (sub buffer 0 16)
  windowSizeMs := le32 (sub buffer 16 20)
  rateLimit := le32 (sub buffer 20 24)
  tokensRequested := le16 (sub buffer 24 26)
  padding := le16 (sub buffer 26 28)

theorem ResourceBlock.writeToBuffer_of_le {block : ResourceBlock} {buffer : List UInt8}
    (h : 28 ≤ buffer.length) :
    (block.writeToBuffer buffer : Outcome ε _) = .ok (block.toBytes ++ buffer.drop 28) := by
  rw [writeToBuffer, copyFromSlice_start (by simp) (by omega), Outcome.ok_bind,
    copyFromSlice_written (by simp) (by simp) (by omega), Outcome.ok_bind,
    copyFromSlice_written (by simp) (by simp) (by omega), Outcome.ok_bind,
    copyFromSlice_written (by simp) (by simp) (by omega), Outcome.ok_bind,
    copyFromSlice_written (by simp) (by simp) (by omega)]
  simp [toBytes]

theorem ResourceBlock.readFromBuffer_of_le {buffer : List UInt8} (h : 28 ≤ buffer.length) :
    readFromBuffer buffer = .ok (ofBytes buffer) := by
  rw [readFromBuffer, Outcome.failIf_neg (by omega), Outcome.ok_bind,
    slice_of_le (by omega) (by omega), Outcome.ok_bind,
    toArray_sub rfl (by omega), Outcome.ok_bind,
    u32Slice_of_le rfl (by omega), Outcome.ok_bind, u32Slice_of_le rfl (by omega),
    Outcome.ok_bind, u16Slice_of_le rfl (by omega), Outcome.ok_bind,
    u16Slice_of_le rfl (by omega)]
  rfl

theorem ResourceBlock.ofBytes_toBytes_append (block : ResourceBlock) (rest : List UInt8) :
    ofBytes (block.toBytes ++ rest) = block := by
  simp [ofBytes, toBytes, sub_append_right, sub_append_left, sub_full]

/-- Only the first 28 bytes matter. -/
theorem ResourceBlock.ofBytes_take {buffer : List UInt8} {n : ℕ} (h : 28 ≤ n) :
    ofBytes (buffer.take n) = ofBytes buffer := by
  simp only [ofBytes, sub, List.drop_take, List.take_take]
  simp [show min 16 n = 16 by omega, show min 4 (n - 16) = 4 by omega,
    show min 4 (n - 20) = 4 by omega, show min 2 (n - 24) = 2 by omega,
    show min 2 (n - 26) = 2 by omega]

/-! ### Service latency blocks -/

def ServiceLatencyBlock.toBytes (block : ServiceLatencyBlock) : List UInt8 :=
  block.latencyTrackerId.toList ++ (leBytes 4 block.ttlMs.toNat ++
    (leBytes 4 block.maxSamples.toNat ++ (leBytes 4 block.minSampleThreshold.toNat ++
    leBytes 4 block.observedLatency.toNat)))

@[simp] theorem ServiceLatencyBlock.length_toBytes (block : ServiceLatencyBlock) :
    block.toBytes.length = 32 := by simp [toBytes]

theorem ServiceLatencyBlock.writeToBuffer_of_le {block : ServiceLatencyBlock}
    {buffer : List UInt8} (h : 32 ≤ buffer.length) :
    (block.writeToBuffer buffer : Outcome ε _) = .ok (block.toBytes ++ buffer.drop 32) := by
  rw [writeToBuffer, copyFromSlice_start (by simp) (by omega), Outcome.ok_bind,
    copyFromSlice_written (by simp) (by simp) (by omega), Outcome.ok_bind,
    copyFromSlice_written (by simp) (by simp) (by omega), Outcome.ok_bind,
    copyFromSlice_written (by simp) (by simp) (by omega), Outcome.ok_bind,
    copyFromSlice_written (by simp) (by simp) (by omega)]
  simp [toBytes]

end Ratelimitly
