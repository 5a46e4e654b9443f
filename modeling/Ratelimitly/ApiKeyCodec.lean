import Mathlib.Tactic
import Ratelimitly.Config
import Ratelimitly.Lib.Word

/-! The API key codec: Bech32 text, bit regrouping, checksum and the packed quota word. -/
namespace Ratelimitly

open Lib

def gen : List UInt32 := [0x3B6A57B2, 0x26508E6D, 0x1EA119FA, 0x3D4233DD, 0x2A1462B3]
def formatVersion : UInt8 := 1

structure DecodedApiKey where
  hrp : String
  authMethod : String
  formatVersion : UInt8
  keyId : UInt64
  authSecret : List UInt8
  limits : Option ApiKeyLimits
  deriving DecidableEq, Repr

inductive DecodeError where
  | emptyInput
  | nonPrintable
  | mixedCase
  | missingSeparator
  | emptyHrp
  | checksumTooShort
  | invalidCharset (c : Char)
  | checksumFailed
  | invalidPadding
  | invalidHrpPrefix
  | unsupportedAuthMethod (authMethod : String)
  | invalidPayloadLength (authMethod : String) (expected actual : ℕ)
  | unsupportedFormatVersion (version : UInt8)
  | invalidPackedQuota
  deriving DecidableEq, Repr

def charToValue : Char → Option UInt8
  | 'q' => some 0 | 'p' => some 1 | 'z' => some 2 | 'r' => some 3
  | 'y' => some 4 | '9' => some 5 | 'x' => some 6 | '8' => some 7
  | 'g' => some 8 | 'f' => some 9 | '2' => some 10 | 't' => some 11
  | 'v' => some 12 | 'd' => some 13 | 'w' => some 14 | '0' => some 15
  | 's' => some 16 | '3' => some 17 | 'j' => some 18 | 'n' => some 19
  | '5' => some 20 | '4' => some 21 | 'k' => some 22 | 'h' => some 23
  | 'c' => some 24 | 'e' => some 25 | '6' => some 26 | 'm' => some 27
  | 'u' => some 28 | 'a' => some 29 | '7' => some 30 | 'l' => some 31
  | _ => none

def valueToChar (v : UInt8) : Option Char :=
  "qpzry9x8gf2tvdw0s3jn54khce6mua7l".toList[v.toNat]?

/-! ### The checksum -/

def hrpExpand (hrp : List Char) : List UInt8 :=
  (utf8Bytes hrp).map (fun b : UInt8 => b >>> 5) ++ [0] ++
    (utf8Bytes hrp).map fun b : UInt8 => b &&& 31

/-- The loop body of `polymod`. -/
def polymodStep (chk : UInt32) (v : UInt8) : UInt32 :=
  let b := chk >>> 25
  let chk := ((chk &&& 0x1FFFFFF) <<< 5) ^^^ v.toUInt32
  gen.zipIdx.foldl (fun chk (g, i) => if (b >>> UInt32.ofNat i) &&& 1 ≠ 0 then chk ^^^ g else chk)
    chk

def polymod (values : List UInt8) : UInt32 := values.foldl polymodStep 1

def verifyChecksum (hrp : List Char) (data : List UInt8) : Bool :=
  polymod (hrpExpand hrp ++ data) = 1

def createChecksum (hrp : List Char) (data : List UInt8) : List UInt8 :=
  let pm := polymod (hrpExpand hrp ++ data ++ [0, 0, 0, 0, 0, 0]) ^^^ 1
  (List.range 6).map fun i => ((pm >>> UInt32.ofNat (5 * (5 - i))) &&& 31).toUInt8

/-! ### Regrouping bits -/

/-- `while bits >= to_bits`. As `to_bits` is positive, `bits` bounds the number of iterations. -/
def emitDigits (toBits : UInt8) (maxv acc : UInt32) :
    ℕ → UInt8 → List UInt8 → Outcome DecodeError (UInt8 × List UInt8)
  | 0, bits, out => pure (bits, out)
  | n + 1, bits, out =>
    if bits ≥ toBits then do
      let bits ← sub8 bits toBits
      let digit ← shr32 acc bits
      emitDigits toBits maxv acc n bits (out ++ [(digit &&& maxv).toUInt8])
    else pure (bits, out)

/-- The `for` loop of `convert_bits`. -/
def convertLoop (fromBits toBits : UInt8) (maxv maxAcc : UInt32) :
    List UInt8 → UInt32 → UInt8 → List UInt8 →
      Outcome DecodeError (UInt32 × UInt8 × List UInt8)
  | [], acc, bits, out => pure (acc, bits, out)
  | value :: data, acc, bits, out => do
    let high ← shr32 value.toUInt32 fromBits
    .failIf (high ≠ 0) .invalidPadding
    let shifted ← shl32 acc fromBits
    let acc := (shifted ||| value.toUInt32) &&& maxAcc
    let bits ← add8 bits fromBits
    let (bits, out) ← emitDigits toBits maxv acc bits.toNat bits out
    convertLoop fromBits toBits maxv maxAcc data acc bits out

def convertBits (data : List UInt8) (fromBits toBits : UInt8) (pad : Bool) :
    Outcome DecodeError (List UInt8) := do
  let maxv ← sub32 (← shl32 1 toBits) 1
  let maxAcc ← sub32 (← shl32 1 (← sub8 (← add8 fromBits toBits) 1)) 1
  let (acc, bits, out) ← convertLoop fromBits toBits maxv maxAcc data 0 0 []
  if pad then
    if bits > 0 then do
      let last ← shl32 acc (← sub8 toBits bits)
      pure (out ++ [(last &&& maxv).toUInt8])
    else pure out
  else do
    .failIf (bits ≥ fromBits) .invalidPadding
    let rest ← shl32 acc (← sub8 toBits bits)
    .failIf (rest &&& maxv ≠ 0) .invalidPadding
    pure out

/-! ### Bech32 text -/

def isPrintable (c : Char) : Bool := 33 ≤ c.toNat ∧ c.toNat ≤ 126

/-- `str::rfind` on text that is known to be ASCII, where byte and character indices agree. -/
def rfind (s : List Char) (c : Char) : Option ℕ :=
  (s.reverse.idxOf? c).map fun i => s.length - 1 - i

def bech32Decode (addr : List Char) : Outcome DecodeError (List Char × List UInt8) := do
  .failIf (addr = []) .emptyInput
  .failIf (¬ addr.all isPrintable) .nonPrintable
  let hasLower := addr.any Char.isLower
  let hasUpper := addr.any Char.isUpper
  .failIf (hasLower ∧ hasUpper) .mixedCase
  let s := addr.map Char.toLower
  let pos ← .okOr .missingSeparator (rfind s '1')
  .failIf (pos < 1) .emptyHrp
  let rest ← subUsize (← subUsize s.length pos) 1
  .failIf (rest < 6) .checksumTooShort
  let hrp ← slice s 0 pos
  let data ← Outcome.mapList (fun c => .okOr (.invalidCharset c) (charToValue c))
    (← slice s (pos + 1) s.length)
  .failIf (¬ verifyChecksum hrp data) .checksumFailed
  let payload5 ← slice data 0 (← subUsize data.length 6)
  let payload ← convertBits payload5 5 8 false
  pure (hrp, payload)

def bech32Encode (hrp : List Char) (payload : List UInt8) : Outcome DecodeError (List Char) := do
  .failIf (hrp = []) .emptyHrp
  .failIf (¬ (utf8Bytes hrp).all fun b => 33 ≤ b ∧ b ≤ 126) .nonPrintable
  let hrp := hrp.map Char.toLower
  let data ← convertBits payload 8 5 true
  let checksum := createChecksum hrp data
  let chars ← Outcome.mapList (fun v => .expect (valueToChar v)) (data ++ checksum)
  pure (hrp ++ '1' :: chars)

/-! ### Keys -/

/-- `limits_from_payload` after the quota word is read. -/
def limitsFromWord (word : UInt32) : Outcome DecodeError ApiKeyLimits := do
  let rateExp := word &&& 0x1f
  let latencyExp := (word >>> 5) &&& 0x1f
  let labelsExp := (word >>> 10) &&& 0x1f
  let bufferExp := (word >>> 15) &&& 0x0f
  let dedupUnits := (word >>> 19) &&& 0xff
  let windowExp := (word >>> 27) &&& 0x1f
  .failIf (rateExp > 24 ∨ latencyExp > 24 ∨ ¬ (1 ≤ dedupUnits ∧ dedupUnits ≤ 200))
    .invalidPackedQuota
  pure {
    rateBucketsMax := 1 <<< rateExp
    latencyServicesMax := 1 <<< latencyExp
    metricsLabelsMax := 1 <<< labelsExp
    latencyBufferSizeMax := 1 <<< bufferExp
    dedupTtlMsMax := dedupUnits * 10
    rateWindowSizeMsMax := if windowExp = 31 then UInt32.ofNat (2 ^ 32 - 1) else 1 <<< windowExp }

def limitsFromPayload (payload : List UInt8) (offset : ℕ) : Outcome DecodeError ApiKeyLimits := do
  let word ← u32Slice payload offset (offset + 4)
  limitsFromWord word

def decodeApiKey (encoded : String) : Outcome DecodeError DecodedApiKey := do
  let (hrp, payload) ← bech32Decode encoded.toList
  let authMethod ← .okOr .invalidHrpPrefix (stripPrefix hrp "rl-".toList)
  let hrp := String.ofList hrp
  let authMethod := String.ofList authMethod
  if authMethod = "secret" then do
    .failIf (payload.length ≠ 32) (.invalidPayloadLength authMethod 32 payload.length)
    pure { hrp, authMethod := "secret", formatVersion := 0, keyId := 0, authSecret := payload,
           limits := none }
  else if authMethod = "none" then do
    .failIf (payload.length ≠ 13) (.invalidPayloadLength authMethod 13 payload.length)
    let version ← index payload 0
    .failIf (version ≠ formatVersion) (.unsupportedFormatVersion version)
    let keyId ← u64Slice payload 1 9
    let limits ← limitsFromPayload payload 9
    pure { hrp, authMethod := "none", formatVersion, keyId, authSecret := [], limits := some limits }
  else if authMethod = "cookie" ∨ authMethod = "aes" then do
    .failIf (payload.length ≠ 45) (.invalidPayloadLength authMethod 45 payload.length)
    let version ← index payload 0
    .failIf (version ≠ formatVersion) (.unsupportedFormatVersion version)
    let keyId ← u64Slice payload 1 9
    let authSecret ← slice payload 9 41
    let limits ← limitsFromPayload payload 41
    pure { hrp, authMethod, formatVersion, keyId, authSecret, limits := some limits }
  else .err (.unsupportedAuthMethod authMethod)

/-- `u32::trailing_zeros`. -/
def trailingZeros (x : UInt32) : UInt32 :=
  UInt32.ofNat (((List.range 32).find? fun i => x.toNat.testBit i).getD 32)

/-- The packed quota word of `encode_api_key`. -/
def quotaWord (limits : ApiKeyLimits) : UInt32 :=
  let rateExp := trailingZeros limits.rateBucketsMax
  let latencyExp := trailingZeros limits.latencyServicesMax
  let labelsExp := trailingZeros limits.metricsLabelsMax
  let bufferExp := trailingZeros limits.latencyBufferSizeMax
  let windowExp :=
    if limits.rateWindowSizeMsMax = UInt32.ofNat (2 ^ 32 - 1) then 31
    else trailingZeros limits.rateWindowSizeMsMax
  rateExp ||| (latencyExp <<< 5) ||| (labelsExp <<< 10) ||| (bufferExp <<< 15) |||
    ((limits.dedupTtlMsMax / 10) <<< 19) ||| (windowExp <<< 27)

def encodeApiKey (authMethod : String) (keyId : UInt64) (authSecret : List UInt8)
    (limits : ApiKeyLimits) : Outcome DecodeError String := do
  let payload := [formatVersion]
  let payload := payload ++ leBytes 8 keyId.toNat
  let payload ←
    if authMethod = "none" then pure payload
    else if authMethod = "cookie" ∨ authMethod = "aes" then pure (payload ++ authSecret)
    else .panic
  let payload := payload ++ leBytes 4 (quotaWord limits).toNat
  let text ← bech32Encode ("rl-".toList ++ authMethod.toList) payload
  pure (String.ofList text)

example : (decodeApiKey "rl-none1qyyqwps9qspsyq2sk8e0sfdp3ys").isOk = true := by decide +kernel

end Ratelimitly
