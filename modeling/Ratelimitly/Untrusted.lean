import Mathlib.Tactic
import Ratelimitly.Lib.Text
import Ratelimitly.ApiKeyCorruption
import Ratelimitly.ParserTotal

/-! Untrusted input panics nowhere. The key decoder is restated with operators that panic whenever
they lose a bit, and with text that is cut at byte offsets; it comes to the same. -/
namespace Ratelimitly

open Lib

variable {data out : List UInt8} {acc : UInt32} {bits : UInt8}

/-! ### The checksum -/

def hrpExpandChecked (hrp : List Char) : Outcome DecodeError (List UInt8) := do
  let high ← Outcome.mapList (fun b => shr8 b 5) (utf8Bytes hrp)
  pure (high ++ [0] ++ (utf8Bytes hrp).map fun b : UInt8 => b &&& 31)

def polymodStepChecked (chk : UInt32) (v : UInt8) : Outcome DecodeError UInt32 := do
  let b ← shr32 chk 25
  let shifted ← shlExact32 (chk &&& 0x1FFFFFF) 5
  let feed (chk : UInt32) (term : UInt32 × ℕ) : Outcome DecodeError UInt32 := do
    let bit ← shr32 b (UInt8.ofNat term.2)
    pure (if bit &&& 1 ≠ 0 then chk ^^^ term.1 else chk)
  gen.zipIdx.foldlM feed (shifted ^^^ v.toUInt32)

def polymodChecked (values : List UInt8) : Outcome DecodeError UInt32 :=
  values.foldlM polymodStepChecked 1

def verifyChecksumChecked (hrp : List Char) (data : List UInt8) : Outcome DecodeError Bool := do
  let values ← hrpExpandChecked hrp
  let chk ← polymodChecked (values ++ data)
  pure (chk = 1)

theorem hrpExpandChecked_eq (hrp : List Char) : hrpExpandChecked hrp = .ok (hrpExpand hrp) := by
  rw [hrpExpandChecked, Outcome.mapList_ok (fun b _ => shr8_of_lt (by decide)), Outcome.ok_bind]
  rfl

/-- The register keeps to 30 bits before it is shifted. -/
theorem polymodStepChecked_eq (chk : UInt32) (v : UInt8) :
    polymodStepChecked chk v = .ok (polymodStep chk v) := by
  have hmask : (chk &&& 0x1FFFFFF).toNat < 2 ^ 25 := toNat_and_mask_lt chk (by decide)
  have hshift : (chk &&& 0x1FFFFFF).toNat * 2 ^ (5 : UInt32).toNat < 2 ^ 32 := by
    have hfive : (5 : UInt32).toNat = 5 := rfl
    rw [hfive]
    omega
  rw [polymodStepChecked, shr32_of_lt (by decide), Outcome.ok_bind,
    shlExact32_of_lt (by decide) hshift, Outcome.ok_bind]
  rfl

theorem polymodChecked_eq (values : List UInt8) : polymodChecked values = .ok (polymod values) :=
  Outcome.foldlM_ok polymodStepChecked_eq values 1

theorem verifyChecksumChecked_eq (hrp : List Char) (data : List UInt8) :
    verifyChecksumChecked hrp data = .ok (verifyChecksum hrp data) := by
  rw [verifyChecksumChecked, hrpExpandChecked_eq, Outcome.ok_bind, polymodChecked_eq,
    Outcome.ok_bind]
  rfl

/-! ### Regrouping bits -/

def convertLoopChecked (fromBits toBits : UInt8) (maxv maxAcc : UInt32) :
    List UInt8 → UInt32 → UInt8 → List UInt8 →
      Outcome DecodeError (UInt32 × UInt8 × List UInt8)
  | [], acc, bits, out => pure (acc, bits, out)
  | value :: data, acc, bits, out => do
    let high ← shr32 value.toUInt32 fromBits
    .failIf (high ≠ 0) .invalidPadding
    let shifted ← shlExact32 acc fromBits.toUInt32
    let acc := (shifted ||| value.toUInt32) &&& maxAcc
    let bits ← add8 bits fromBits
    let (bits, out) ← emitDigits toBits maxv acc bits.toNat bits out
    convertLoopChecked fromBits toBits maxv maxAcc data acc bits out

def convertBitsChecked (data : List UInt8) (fromBits toBits : UInt8) (pad : Bool) :
    Outcome DecodeError (List UInt8) := do
  let maxv ← sub32 (← shlExact32 1 toBits.toUInt32) 1
  let maxAcc ← sub32 (← shlExact32 1 (← sub8 (← add8 fromBits toBits) 1).toUInt32) 1
  let (acc, bits, out) ← convertLoopChecked fromBits toBits maxv maxAcc data 0 0 []
  if pad then
    if bits > 0 then do
      let last ← shlExact32 acc (← sub8 toBits bits).toUInt32
      pure (out ++ [(last &&& maxv).toUInt8])
    else pure out
  else do
    .failIf (bits ≥ fromBits) .invalidPadding
    let rest ← shlExact32 acc (← sub8 toBits bits).toUInt32
    .failIf (rest &&& maxv ≠ 0) .invalidPadding
    pure out

theorem convertLoopChecked_eq (hacc : acc.toNat < 4096) :
    convertLoopChecked 5 8 255 4095 data acc bits out = convertLoop 5 8 255 4095 data acc bits out := by
  induction data generalizing acc bits out with
  | nil => rfl
  | cons value data ih =>
    have hshift : acc.toNat * 2 ^ (5 : UInt8).toNat < 2 ^ 32 := by
      have hfive : (5 : UInt8).toNat = 5 := rfl
      rw [hfive]
      omega
    rw [convertLoopChecked, convertLoop, shlExact32_eq_shl32 (by decide) hshift]
    apply Outcome.bind_congr
    intro high _
    apply Outcome.bind_congr
    intro _ _
    apply Outcome.bind_congr
    intro shifted _
    apply Outcome.bind_congr
    intro bits _
    apply Outcome.bind_congr
    rintro ⟨bits, out⟩ _
    apply ih
    exact toNat_and_mask_lt (n := 12) _ (by decide)

theorem convertLoop_acc_lt {result : UInt32 × UInt8 × List UInt8} (hacc : acc.toNat < 4096)
    (h : convertLoop 5 8 255 4095 data acc bits out = .ok result) : result.1.toNat < 4096 := by
  induction data generalizing acc bits out with
  | nil =>
    cases h
    exact hacc
  | cons value data ih =>
    rw [convertLoop] at h
    obtain ⟨high, -, h⟩ := Outcome.bind_eq_ok_iff.mp h
    obtain ⟨⟨⟩, -, h⟩ := Outcome.bind_eq_ok_iff.mp h
    obtain ⟨shifted, -, h⟩ := Outcome.bind_eq_ok_iff.mp h
    obtain ⟨bits, -, h⟩ := Outcome.bind_eq_ok_iff.mp h
    obtain ⟨⟨bits, out⟩, -, h⟩ := Outcome.bind_eq_ok_iff.mp h
    exact ih (toNat_and_mask_lt (n := 12) _ (by decide)) h

/-- The accumulator keeps to 12 bits, so that neither shift loses one. -/
theorem convertBitsChecked_eq (data : List UInt8) :
    convertBitsChecked data 5 8 false = convertBits data 5 8 false := by
  have hchecked : convertBitsChecked data 5 8 false = (do
      let (acc, bits, out) ← convertLoopChecked 5 8 255 4095 data 0 0 []
      .failIf (bits ≥ 5) .invalidPadding
      let rest ← shlExact32 acc (← sub8 8 bits).toUInt32
      .failIf (rest &&& 255 ≠ 0) .invalidPadding
      pure out) := rfl
  rw [hchecked, convertBits_strict, convertLoopChecked_eq (by decide)]
  apply Outcome.bind_congr
  rintro ⟨acc, bits, out⟩ hloop
  have hacc : acc.toNat < 4096 := convertLoop_acc_lt (by decide) hloop
  apply Outcome.bind_congr
  intro _ _
  apply Outcome.bind_congr
  intro shift hshift
  have hle : shift.toNat ≤ 8 := by
    unfold sub8 at hshift
    split at hshift
    next hbits =>
      rw [← Outcome.ok.inj hshift, UInt8.toNat_sub_of_le _ _ hbits]
      exact Nat.sub_le _ _
    next => cases hshift
  have hpow : 2 ^ shift.toNat ≤ 2 ^ 8 := Nat.pow_le_pow_right (by decide) hle
  have hlt : acc.toNat * 2 ^ shift.toNat < 2 ^ 32 := by
    have hmul := Nat.mul_le_mul (Nat.le_of_lt_succ hacc) hpow
    omega
  rw [shlExact32_eq_shl32 (by omega) hlt]

/-! ### Bech32 text -/

/-- `str::rfind`: the byte offset of the last occurrence. -/
def rfindByte (s : List Char) (c : Char) : Option ℕ :=
  (rfind s c).map fun i => (utf8Bytes (s.take i)).length

def bech32DecodeChecked (addr : List Char) : Outcome DecodeError (List Char × List UInt8) := do
  .failIf (addr = []) .emptyInput
  .failIf (¬ addr.all isPrintable) .nonPrintable
  let hasLower := addr.any Char.isLower
  let hasUpper := addr.any Char.isUpper
  .failIf (hasLower ∧ hasUpper) .mixedCase
  let s := addr.map Char.toLower
  let pos ← .okOr .missingSeparator (rfindByte s '1')
  .failIf (pos < 1) .emptyHrp
  let rest ← subUsize (← subUsize (utf8Bytes s).length pos) 1
  .failIf (rest < 6) .checksumTooShort
  let hrp ← textTo s pos
  let data ← Outcome.mapList (fun c => .okOr (.invalidCharset c) (charToValue c))
    (← textFrom s (pos + 1))
  let valid ← verifyChecksumChecked hrp data
  .failIf (¬ valid) .checksumFailed
  let payload5 ← slice data 0 (← subUsize data.length 6)
  let payload ← convertBitsChecked payload5 5 8 false
  pure (hrp, payload)

/-- Text that passed the first check has one byte per character. -/
theorem utf8Size_toLower {addr : List Char} (h : addr.all isPrintable = true) :
    ∀ c ∈ addr.map Char.toLower, c.utf8Size = 1 := by
  intro c hc
  obtain ⟨c, hmem, rfl⟩ := List.mem_map.mp hc
  have hprintable := List.all_eq_true.mp h c hmem
  simp only [isPrintable, decide_eq_true_eq] at hprintable
  have hlt : c.toLower.toNat ≤ 127 := by
    rw [toNat_toLower]
    simp only [isUpper_iff]
    split <;> omega
  exact Char.utf8Size_eq_one_iff.mpr (UInt32.le_iff_toNat_le.mpr hlt)

theorem rfindByte_of_ascii {s : List Char} (h : ∀ c ∈ s, c.utf8Size = 1) (c : Char) :
    rfindByte s c = rfind s c := by
  rw [rfindByte]
  cases hfind : rfind s c with
  | none => rfl
  | some pos =>
    obtain ⟨before, after, rfl, -, rfl⟩ := rfind_eq_some hfind
    rw [Option.map_some, List.take_left' rfl,
      length_utf8Bytes_of_ascii fun c hc => h c (List.mem_append_left _ hc)]

theorem bech32DecodeChecked_eq (addr : List Char) : bech32DecodeChecked addr = bech32Decode addr := by
  rw [bech32DecodeChecked, bech32Decode]
  apply Outcome.bind_congr
  intro _ _
  apply Outcome.bind_congr
  intro _ hprintable
  rw [Outcome.failIf_eq_ok_iff, not_not] at hprintable
  have hascii := utf8Size_toLower hprintable
  dsimp only
  rw [rfindByte_of_ascii hascii, length_utf8Bytes_of_ascii hascii]
  simp only [textTo_of_ascii hascii, textFrom_of_ascii hascii, verifyChecksumChecked_eq,
    convertBitsChecked_eq, Outcome.ok_bind]

/-! ### Keys -/

def limitsFromPayloadChecked (payload : List UInt8) (offset : ℕ) :
    Outcome DecodeError ApiKeyLimits := do
  let word ← u32Slice payload offset (offset + 4)
  let rateExp := word &&& 0x1f
  let latencyExp := (← shr32 word 5) &&& 0x1f
  let labelsExp := (← shr32 word 10) &&& 0x1f
  let bufferExp := (← shr32 word 15) &&& 0x0f
  let dedupUnits := (← shr32 word 19) &&& 0xff
  let windowExp := (← shr32 word 27) &&& 0x1f
  .failIf (rateExp > 24 ∨ latencyExp > 24 ∨ ¬ (1 ≤ dedupUnits ∧ dedupUnits ≤ 200))
    .invalidPackedQuota
  let rateBucketsMax ← shlExact32 1 rateExp
  let latencyServicesMax ← shlExact32 1 latencyExp
  let metricsLabelsMax ← shlExact32 1 labelsExp
  let latencyBufferSizeMax ← shlExact32 1 bufferExp
  let dedupTtlMsMax ← mul32 dedupUnits 10
  let rateWindowSizeMsMax ←
    if windowExp = 31 then pure (UInt32.ofNat (2 ^ 32 - 1)) else shlExact32 1 windowExp
  pure { rateBucketsMax, latencyServicesMax, metricsLabelsMax, latencyBufferSizeMax, dedupTtlMsMax,
         rateWindowSizeMsMax }

/-- An exponent of the quota word shifts the one to a bit of the word. -/
theorem shlExact32_one {ε : Type} (word : UInt32) {mask : UInt32} {n : ℕ}
    (hmask : mask.toNat = 2 ^ n - 1) (hn : n ≤ 5) :
    (shlExact32 1 (word &&& mask) : Outcome ε _) = .ok (1 <<< (word &&& mask)) := by
  have hlt : (word &&& mask).toNat < 2 ^ 5 :=
    (toNat_and_mask_lt word hmask).trans_le (Nat.pow_le_pow_right (by decide) hn)
  refine shlExact32_of_lt hlt ?_
  rw [show (1 : UInt32).toNat = 1 from rfl, Nat.one_mul]
  exact Nat.pow_lt_pow_right (by decide) hlt

theorem limitsFromPayloadChecked_eq (payload : List UInt8) (offset : ℕ) :
    limitsFromPayloadChecked payload offset = limitsFromPayload payload offset := by
  rw [limitsFromPayloadChecked, limitsFromPayload]
  apply Outcome.bind_congr
  intro word _
  rw [limitsFromWord]
  have h5 : (shr32 word 5 : Outcome DecodeError _) = .ok (word >>> 5) := rfl
  have h10 : (shr32 word 10 : Outcome DecodeError _) = .ok (word >>> 10) := rfl
  have h15 : (shr32 word 15 : Outcome DecodeError _) = .ok (word >>> 15) := rfl
  have h19 : (shr32 word 19 : Outcome DecodeError _) = .ok (word >>> 19) := rfl
  have h27 : (shr32 word 27 : Outcome DecodeError _) = .ok (word >>> 27) := rfl
  rw [h5, Outcome.ok_bind, h10, Outcome.ok_bind, h15, Outcome.ok_bind, h19, Outcome.ok_bind, h27,
    Outcome.ok_bind]
  apply Outcome.bind_congr
  intro _ _
  have hdedup : ((word >>> 19) &&& 0xff).toNat < 2 ^ 8 := toNat_and_mask_lt _ (by decide)
  have hten : ((word >>> 19) &&& 0xff).toNat * (10 : UInt32).toNat < 2 ^ 32 := by
    rw [show (10 : UInt32).toNat = 10 from rfl]
    omega
  rw [shlExact32_one word (n := 5) (by decide) le_rfl, Outcome.ok_bind,
    shlExact32_one _ (n := 5) (by decide) le_rfl, Outcome.ok_bind,
    shlExact32_one _ (n := 5) (by decide) le_rfl, Outcome.ok_bind,
    shlExact32_one _ (n := 4) (by decide) (by decide), Outcome.ok_bind, mul32_of_lt hten,
    Outcome.ok_bind, shlExact32_one _ (n := 5) (by decide) le_rfl]
  split <;> rfl

def decodeApiKeyChecked (encoded : String) : Outcome DecodeError DecodedApiKey := do
  let (hrp, payload) ← bech32DecodeChecked encoded.toList
  let authMethod ← .okOr .invalidHrpPrefix (stripPrefix hrp "rl-".toList)
  let hrp := String.ofList hrp
  let authMethod := String.ofList authMethod
  if authMethod = "secret" then do
    .failIf (payload.length ≠ 32) (.invalidPayloadLength authMethod 32 payload.length)
    pure { hrp, authMethod := "secret", formatVersion := 0, keyId := 0, authSecret := payload,
           limits := none }
  else if authMethod = "none" then do
    .failIf (payload.length ≠ 13) (.invalidPayloadLength authMethod 13 payload.length)
    let version ← index payload 0
    .failIf (version ≠ formatVersion) (.unsupportedFormatVersion version)
    let keyId ← u64Slice payload 1 9
    let limits ← limitsFromPayloadChecked payload 9
    pure { hrp, authMethod := "none", formatVersion, keyId, authSecret := [], limits := some limits }
  else if authMethod = "cookie" ∨ authMethod = "aes" then do
    .failIf (payload.length ≠ 45) (.invalidPayloadLength authMethod 45 payload.length)
    let version ← index payload 0
    .failIf (version ≠ formatVersion) (.unsupportedFormatVersion version)
    let keyId ← u64Slice payload 1 9
    let authSecret ← slice payload 9 41
    let limits ← limitsFromPayloadChecked payload 41
    pure { hrp, authMethod, formatVersion, keyId, authSecret, limits := some limits }
  else .err (.unsupportedAuthMethod authMethod)

theorem decodeApiKeyChecked_eq (encoded : String) :
    decodeApiKeyChecked encoded = decodeApiKey encoded := by
  rw [decodeApiKeyChecked, decodeApiKey, bech32DecodeChecked_eq]
  simp only [limitsFromPayloadChecked_eq]

/-- Every index, slice, subtraction, shift and unwrap that untrusted bytes or text can reach is in
range, whatever secrets are cached and whatever the AEAD returns. -/
theorem untrusted_input_returns (crypto : Crypto) :
    (∀ data authMethod cookieHashCache aesKeyCache,
      (parseRateResponseWithAuth crypto data authMethod cookieHashCache aesKeyCache).Returns) ∧
    (∀ data, (peekRequestId data).Returns ∧ (peekServerId data).Returns) ∧
    ∀ encoded, (decodeApiKeyChecked encoded).Returns ∧
      decodeApiKeyChecked encoded = decodeApiKey encoded := by
  refine ⟨fun data authMethod cookie aes => ?_, fun data => ⟨?_, ?_⟩, fun encoded => ⟨?_, ?_⟩⟩
  · exact returns_parseRateResponseWithAuth crypto data authMethod cookie aes
  · exact returns_peekRequestId data
  · exact returns_peekServerId data
  · rw [decodeApiKeyChecked_eq]
    exact returns_decodeApiKey encoded
  · exact decodeApiKeyChecked_eq encoded

end Ratelimitly
