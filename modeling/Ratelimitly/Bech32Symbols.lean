import Mathlib.Tactic
import Ratelimitly.ApiKeyCodec
import Ratelimitly.Lib.Digits
import Ratelimitly.Lib.Register

/-! Five-bit symbols: what the regrouping loop computes, and the checksum as a linear register. -/
namespace Ratelimitly

open Lib

/-! ### Regrouping -/

def values (xs : List UInt8) : List ℕ := xs.map UInt8.toNat

theorem values_lt (xs : List UInt8) : ∀ x ∈ values xs, x < 2 ^ 8 := by
  simpa [values] using fun x _ => UInt8.toNat_lt x

theorem values_injective : Function.Injective values :=
  List.map_injective_iff.mpr fun _ _ h => UInt8.toNat_inj.mp h

@[simp] theorem values_append (xs ys : List UInt8) : values (xs ++ ys) = values xs ++ values ys :=
  List.map_append

@[simp] theorem length_values (xs : List UInt8) : (values xs).length = xs.length :=
  List.length_map _

section ConvertBits

variable {fromBits toBits : UInt8} {maxv maxAcc : UInt32}
  (hi : 0 < fromBits.toNat) (hi8 : fromBits.toNat ≤ 8) (ho : 0 < toBits.toNat)
  (ho8 : toBits.toNat ≤ 8) (hmaxv : maxv.toNat = 2 ^ toBits.toNat - 1)
  (hmaxAcc : maxAcc.toNat = 2 ^ (fromBits.toNat + toBits.toNat - 1) - 1)

theorem toNat_digit {x maxv : UInt32} {o : ℕ} (ho8 : o ≤ 8) (hmaxv : maxv.toNat = 2 ^ o - 1) :
    (x &&& maxv).toUInt8.toNat = x.toNat % 2 ^ o := by
  have hle : 2 ^ o ≤ 2 ^ 8 := Nat.pow_le_pow_right (by omega) ho8
  have hlt : x.toNat % 2 ^ o < 2 ^ o := Nat.mod_lt _ (by positivity)
  rw [UInt32.toNat_toUInt8, toNat_and_mask hmaxv, Nat.mod_eq_of_lt (by omega)]

/-- Shifting in one digit; no bit of the accumulator is lost. -/
theorem toNat_shift_or {acc m : UInt32} {s v : UInt8} {k : ℕ} (hs : s.toNat ≤ 8) (hk : k ≤ 15)
    (hv : v.toNat < 2 ^ s.toNat) (hm : m.toNat = 2 ^ k - 1) (hacc : acc.toNat < 2 ^ k) :
    ((acc <<< s.toUInt32 ||| v.toUInt32) &&& m).toNat =
      (acc.toNat * 2 ^ s.toNat + v.toNat) % 2 ^ k := by
  have hlt : acc.toNat * 2 ^ s.toNat < 2 ^ 32 := by
    calc acc.toNat * 2 ^ s.toNat < 2 ^ k * 2 ^ s.toNat := Nat.mul_lt_mul_of_pos_right hacc (by positivity)
      _ = 2 ^ (k + s.toNat) := (pow_add ..).symm
      _ ≤ 2 ^ 32 := Nat.pow_le_pow_right (by omega) (by omega)
  rw [toNat_and_mask hm, UInt32.toNat_or, toNat_shl32 (by omega), Nat.mod_eq_of_lt hlt,
    UInt8.toNat_toUInt32, ← Nat.shiftLeft_eq, ← Nat.shiftLeft_add_eq_or_of_lt hv]

include ho ho8 hmaxv hi8 in
theorem emitDigits_spec {ins : List ℕ} {acc : UInt32} {bits : UInt8} {out : List UInt8} {n : ℕ}
    (h : Regrouping fromBits.toNat toBits.toNat ins acc.toNat bits.toNat (values out))
    (hbits : bits.toNat ≤ fromBits.toNat + toBits.toNat - 1) (hn : bits.toNat ≤ n) :
    ∃ bits' out', emitDigits toBits maxv acc n bits out = .ok (bits', out') ∧
      Regrouping fromBits.toNat toBits.toNat ins acc.toNat bits'.toNat (values out') ∧
      bits'.toNat < toBits.toNat := by
  induction n generalizing bits out with
  | zero => exact ⟨bits, out, rfl, h, by omega⟩
  | succ n ih =>
    by_cases hge : bits ≥ toBits
    · have hle : toBits.toNat ≤ bits.toNat := UInt8.le_iff_toNat_le.mp hge
      have hsub : (bits - toBits).toNat = bits.toNat - toBits.toNat := UInt8.toNat_sub_of_le _ _ hge
      have hemit := h.emit hle hbits
      rw [emitDigits, if_pos hge, sub8_of_le hge, Outcome.ok_bind,
        shr32_of_lt (by rw [hsub]; omega), Outcome.ok_bind]
      refine ih ?_ (by rw [hsub]; omega) (by rw [hsub]; omega)
      rw [hsub, values_append]
      convert hemit using 3
      simp only [values, List.map_cons, List.map_nil, toNat_digit ho8 hmaxv]
      rw [toNat_shr32 (by rw [hsub]; omega), hsub]
    · refine ⟨bits, out, by rw [emitDigits, if_neg hge]; rfl, h, ?_⟩
      simpa [UInt8.le_iff_toNat_le] using hge

include hi hi8 ho ho8 hmaxv hmaxAcc in
/-- The loop reads every digit, or stops at the first one that is too wide. -/
theorem convertLoop_spec {ins : List ℕ} {data : List UInt8} {acc : UInt32} {bits : UInt8}
    {out : List UInt8}
    (h : Regrouping fromBits.toNat toBits.toNat ins acc.toNat bits.toNat (values out))
    (hbits : bits.toNat < toBits.toNat) :
    ((∀ x ∈ values data, x < 2 ^ fromBits.toNat) ∧ ∃ acc' bits' out',
      convertLoop fromBits toBits maxv maxAcc data acc bits out = .ok (acc', bits', out') ∧
        Regrouping fromBits.toNat toBits.toNat (ins ++ values data) acc'.toNat bits'.toNat
          (values out') ∧ bits'.toNat < toBits.toNat) ∨
      (¬ (∀ x ∈ values data, x < 2 ^ fromBits.toNat) ∧
        convertLoop fromBits toBits maxv maxAcc data acc bits out = .err .invalidPadding) := by
  induction data generalizing ins acc bits out with
  | nil => exact .inl ⟨by simp [values], acc, bits, out, rfl, by simpa [values] using h, hbits⟩
  | cons value data ih =>
    by_cases hv : value.toNat < 2 ^ fromBits.toNat
    · have hhigh : value.toUInt32 >>> fromBits.toUInt32 = 0 := by
        rw [← UInt32.toNat_inj, toNat_shr32 (by omega), UInt8.toNat_toUInt32, Nat.div_eq_of_lt hv]
        rfl
      have hacc : ((acc <<< fromBits.toUInt32 ||| value.toUInt32) &&& maxAcc).toNat =
          (acc.toNat * 2 ^ fromBits.toNat + value.toNat) %
            2 ^ (fromBits.toNat + toBits.toNat - 1) :=
        toNat_shift_or (by omega) (by omega) hv hmaxAcc h.acc_lt
      have hadd : (bits + fromBits).toNat = bits.toNat + fromBits.toNat := by
        rw [UInt8.toNat_add, Nat.mod_eq_of_lt (by omega)]
      have hread := h.read hv
      rw [← hacc, ← hadd] at hread
      obtain ⟨bits', out', hemit, hre, hlt⟩ :=
        emitDigits_spec hi8 ho ho8 hmaxv hread (by omega) le_rfl
      rw [convertLoop, shr32_of_lt (by omega), Outcome.ok_bind, Outcome.failIf_neg (by simpa using hhigh),
        Outcome.ok_bind, shl32_of_lt (by omega), Outcome.ok_bind]
      dsimp only
      rw [add8_of_lt (by omega), Outcome.ok_bind, hemit, Outcome.ok_bind]
      have hih := ih hre hlt
      simpa [values, hv] using hih
    · refine .inr ⟨fun hall => hv (hall _ (by simp [values])), ?_⟩
      rw [convertLoop, shr32_of_lt (by omega), Outcome.ok_bind, Outcome.failIf_pos]
      · rfl
      · intro hz
        rw [← UInt32.toNat_inj, toNat_shr32 (by omega), UInt8.toNat_toUInt32] at hz
        exact hv (Nat.lt_of_div_eq_zero (by positivity) hz)

end ConvertBits

/-- The left-over bits at the top of a digit, before the result is narrowed. -/
theorem toNat_flush {acc m : UInt32} {s : UInt8} {o : ℕ} (ho8 : o ≤ 8) (hs : s.toNat ≤ 8)
    (hm : m.toNat = 2 ^ o - 1) :
    ((acc <<< s.toUInt32) &&& m).toNat = acc.toNat * 2 ^ s.toNat % 2 ^ o := by
  rw [toNat_and_mask hm, toNat_shl32 (by omega),
    Nat.mod_mod_of_dvd _ (pow_dvd_pow 2 (by omega))]

theorem toNat_flush_digit {acc m : UInt32} {s : UInt8} {o : ℕ} (ho8 : o ≤ 8) (hs : s.toNat ≤ 8)
    (hm : m.toNat = 2 ^ o - 1) :
    ((acc <<< s.toUInt32) &&& m).toUInt8.toNat = acc.toNat * 2 ^ s.toNat % 2 ^ o := by
  rw [toNat_digit ho8 hm, ← toNat_and_mask hm, toNat_flush ho8 hs hm]

theorem convertBits_pad (payload : List UInt8) :
    convertBits payload 8 5 true = (do
      let (acc, bits, out) ← convertLoop 8 5 31 4095 payload 0 0 []
      if bits > 0 then do
        let last ← shl32 acc (← sub8 5 bits)
        pure (out ++ [(last &&& 31).toUInt8])
      else pure out) := rfl

theorem convertBits_strict (data : List UInt8) :
    convertBits data 5 8 false = (do
      let (acc, bits, out) ← convertLoop 5 8 255 4095 data 0 0 []
      .failIf (bits ≥ 5) .invalidPadding
      let rest ← shl32 acc (← sub8 8 bits)
      .failIf (rest &&& 255 ≠ 0) .invalidPadding
      pure out) := rfl

theorem convertLoop_pad (payload : List UInt8) :
    ((∀ x ∈ values payload, x < 2 ^ 8) ∧ ∃ acc bits out,
      convertLoop 8 5 31 4095 payload 0 0 [] = .ok (acc, bits, out) ∧
        Regrouping 8 5 (values payload) acc.toNat bits.toNat (values out) ∧ bits.toNat < 5) ∨
      (¬ (∀ x ∈ values payload, x < 2 ^ 8) ∧
        convertLoop 8 5 31 4095 payload 0 0 [] = .err .invalidPadding) :=
  @convertLoop_spec 8 5 31 4095 (by decide) (by decide) (by decide) (by decide) (by decide)
    (by decide) [] payload 0 0 [] .init (by decide)

theorem convertLoop_strict (data : List UInt8) :
    ((∀ x ∈ values data, x < 2 ^ 5) ∧ ∃ acc bits out,
      convertLoop 5 8 255 4095 data 0 0 [] = .ok (acc, bits, out) ∧
        Regrouping 5 8 (values data) acc.toNat bits.toNat (values out) ∧ bits.toNat < 8) ∨
      (¬ (∀ x ∈ values data, x < 2 ^ 5) ∧
        convertLoop 5 8 255 4095 data 0 0 [] = .err .invalidPadding) :=
  @convertLoop_spec 5 8 255 4095 (by decide) (by decide) (by decide) (by decide) (by decide)
    (by decide) [] data 0 0 [] .init (by decide)

/-- Encoding regroups every payload, with less than one symbol of padding. -/
theorem convertBits_encode (payload : List UInt8) :
    ∃ data pad, convertBits payload 8 5 true = .ok data ∧
      Spells 8 5 (values payload) (values data) pad ∧ pad < 5 ∧ ∀ x ∈ values data, x < 2 ^ 5 := by
  have h := convertLoop_pad payload
  obtain ⟨-, acc, bits, out, hloop, hre, hlt⟩ | ⟨hbad, -⟩ := h
  · have hlt5 : bits.toNat < 5 := hlt
    by_cases hpos : bits > 0
    · have hpos0 : 0 < bits.toNat := UInt8.lt_iff_toNat_lt.mp hpos
      have hle : bits ≤ 5 := UInt8.le_iff_toNat_le.mpr (by omega : bits.toNat ≤ 5)
      have hsub : (5 - bits).toNat = 5 - bits.toNat := UInt8.toNat_sub_of_le _ _ hle
      have hspells := hre.spells_of_flush (by decide) hlt
      refine ⟨out ++ [((acc <<< (5 - bits).toUInt32) &&& 31).toUInt8], 5 - bits.toNat, ?_, ?_,
        by omega, ?_⟩
      · rw [convertBits_pad, hloop, Outcome.ok_bind]
        dsimp only
        rw [if_pos hpos, sub8_of_le hle, Outcome.ok_bind, shl32_of_lt (by omega)]
        rfl
      · have hout : values (out ++ [((acc <<< (5 - bits).toUInt32) &&& 31).toUInt8]) =
            values out ++ [acc.toNat * 2 ^ (5 - bits.toNat) % 2 ^ 5] := by
          rw [values_append, ← hsub, ← toNat_flush_digit (m := 31) (by omega) (by omega) (by decide)]
          rfl
        rw [hout]
        exact hspells
      · intro x hx
        rw [values_append, List.mem_append] at hx
        rcases hx with hx | hx
        · exact hre.outs_lt x hx
        · simp only [values, List.map_cons, List.map_nil, List.mem_singleton] at hx
          rw [hx, toNat_flush_digit (o := 5) (by omega) (by omega) (by decide)]
          exact Nat.mod_lt _ (by positivity)
    · have hz : bits.toNat = 0 := by
        rw [gt_iff_lt, UInt8.lt_iff_toNat_lt] at hpos
        simpa using hpos
      refine ⟨out, 0, ?_, ?_, by omega, hre.outs_lt⟩
      · rw [convertBits_pad, hloop, Outcome.ok_bind]
        dsimp only
        rw [if_neg hpos]
        rfl
      · rw [hz] at hre
        exact ⟨by simpa using hre.length_eq.symm, by simpa using hre.outs_eq⟩
  · exact (hbad (values_lt payload)).elim

theorem convertBits_decode_eq_ok_iff {data payload : List UInt8} :
    convertBits data 5 8 false = .ok payload ↔ (∀ x ∈ values data, x < 2 ^ 5) ∧
      ∃ pad < 5, Spells 8 5 (values payload) (values data) pad := by
  have h := convertLoop_strict data
  obtain ⟨hdata, acc, bits, out, hloop, hre, hlt⟩ | ⟨hbad, hloop⟩ := h
  · have hlt8 : bits.toNat < 8 := hlt
    have hle : bits ≤ 8 := UInt8.le_iff_toNat_le.mpr (by omega : bits.toNat ≤ 8)
    have hsub : (8 - bits).toNat = 8 - bits.toNat := UInt8.toNat_sub_of_le _ _ hle
    have hrest : (acc <<< (8 - bits).toUInt32) &&& 255 = 0 ↔
        Spells 8 5 (values out) (values data) bits.toNat := by
      rw [← UInt32.toNat_inj, toNat_flush (o := 8) (by omega) (by omega) (by decide), hsub]
      exact hre.rest_eq_zero_iff (by decide) hlt
    rw [convertBits_strict, hloop, Outcome.ok_bind]
    dsimp only
    rw [Outcome.failIf_bind_eq_ok_iff, sub8_of_le hle, Outcome.ok_bind, shl32_of_lt (by omega),
      Outcome.ok_bind, Outcome.failIf_bind_eq_ok_iff, not_not, hrest, Outcome.pure_eq,
      Outcome.ok.injEq]
    constructor
    · rintro ⟨hlt5, hspells, rfl⟩
      exact ⟨hdata, bits.toNat, by simpa [UInt8.le_iff_toNat_le] using hlt5, hspells⟩
    · rintro ⟨-, pad, hpad, hspells⟩
      have h1 : 5 * (values data).length = 8 * (values out).length + bits.toNat := hre.length_eq
      have h2 := hspells.length_eq
      obtain rfl : pad = bits.toNat := by omega
      have hout : values payload = values out := by
        refine beNat_inj (by omega) (by omega) (values_lt payload) (values_lt out) ?_
        have h3 : beNat (2 ^ 8) (values out) = beNat (2 ^ 5) (values data) / 2 ^ bits.toNat :=
          hre.outs_eq
        rw [h3, hspells.beNat_eq, Nat.mul_div_cancel _ (by positivity)]
      refine ⟨by simpa [UInt8.le_iff_toNat_le] using hpad, ?_, values_injective hout.symm⟩
      rwa [← hout]
  · rw [convertBits_strict, hloop]
    simp only [Outcome.err_bind, reduceCtorEq, false_iff, not_and]
    exact fun hdata => (hbad hdata).elim

/-- Encoding and strict decoding are inverse: no other padding is accepted. -/
theorem convertBits_encode_eq_ok_iff {data payload : List UInt8} :
    convertBits payload 8 5 true = .ok data ↔ convertBits data 5 8 false = .ok payload := by
  obtain ⟨data', pad', henc, hspells', hpad', hlt'⟩ := convertBits_encode payload
  rw [convertBits_decode_eq_ok_iff, henc, Outcome.ok.injEq]
  constructor
  · rintro rfl
    exact ⟨hlt', pad', hpad', hspells'⟩
  · rintro ⟨hlt, pad, hpad, hspells⟩
    exact values_injective (hspells'.target_unique hspells hpad' hpad hlt' hlt)

/-! ### The checksum -/

/-- The generators the high bits of the state select. -/
def feedback (b : UInt32) : UInt32 :=
  gen.zipIdx.foldl (fun chk (g, i) => if (b >>> UInt32.ofNat i) &&& 1 ≠ 0 then chk ^^^ g else chk) 0

theorem foldl_xor_start {β : Type} (p : β → Prop) [DecidablePred p] (g : β → UInt32) (xs : List β)
    (chk : UInt32) :
    xs.foldl (fun chk x => if p x then chk ^^^ g x else chk) chk =
      chk ^^^ xs.foldl (fun chk x => if p x then chk ^^^ g x else chk) 0 := by
  induction xs generalizing chk with
  | nil => simp
  | cons x xs ih =>
    simp only [List.foldl_cons]
    rw [ih, ih (if p x then 0 ^^^ g x else 0)]
    split
    · simp [UInt32.xor_assoc]
    · simp

theorem polymodStep_eq (chk : UInt32) (v : UInt8) :
    polymodStep chk v = ((chk &&& 0x1FFFFFF) <<< 5) ^^^ v.toUInt32 ^^^ feedback (chk >>> 25) :=
  foldl_xor_start (fun x : UInt32 × ℕ => ((chk >>> 25) >>> UInt32.ofNat x.2) &&& 1 ≠ 0)
    (fun x => x.1) _ _

/-- The generator combination five high bits select, on 30-bit states. -/
def bitsFeedback (b : BitVec 5) : BitVec 30 :=
  (feedback (UInt32.ofBitVec (b.setWidth 32))).toBitVec.setWidth 30

theorem bitsFeedback_xor : ∀ a b, bitsFeedback (a ^^^ b) = bitsFeedback a ^^^ bitsFeedback b := by
  decide +kernel

theorem bitsFeedback_low : ∀ b, (bitsFeedback b).setWidth 5 = 0#5 → b = 0#5 := by decide +kernel

theorem feedback_eq : ∀ b : BitVec 5,
    (feedback (UInt32.ofBitVec (b.setWidth 32))).toBitVec = (bitsFeedback b).setWidth 32 := by
  decide +kernel

/-- The checksum register: 30 bits of state, 5-bit symbols. -/
def register : LinearRegister 30 5 where
  step s x := (s <<< 5) ^^^ x.setWidth 30 ^^^ bitsFeedback ((s >>> 25).setWidth 5)
  step_xor s t x y := by
    rw [BitVec.shiftLeft_xor_distrib, BitVec.setWidth_xor, BitVec.ushiftRight_xor_distrib,
      BitVec.setWidth_xor, bitsFeedback_xor]
    ac_rfl

def symbols (xs : List UInt8) : List (BitVec 5) := xs.map fun v => v.toBitVec.setWidth 5

theorem polymodStep_toBitVec {chk : UInt32} {v : UInt8} {s : BitVec 30}
    (hchk : chk.toBitVec = s.setWidth 32) (hv : v.toNat < 32) :
    (polymodStep chk v).toBitVec = (register.step s (v.toBitVec.setWidth 5)).setWidth 32 := by
  have hs : chk.toNat = s.toNat := by
    have h := congrArg BitVec.toNat hchk
    rw [BitVec.toNat_setWidth, Nat.mod_eq_of_lt (by omega)] at h
    exact h
  have hshift : ((chk &&& 0x1FFFFFF) <<< 5).toBitVec = (s <<< 5).setWidth 32 := by
    apply BitVec.eq_of_toNat_eq
    rw [UInt32.toNat_toBitVec, UInt32.toNat_shiftLeft, toNat_and_mask (n := 25) (by decide), hs]
    simp [Nat.shiftLeft_eq]
    omega
  have hv5 : v.toUInt32.toBitVec = ((v.toBitVec.setWidth 5).setWidth 30).setWidth 32 := by
    apply BitVec.eq_of_toNat_eq
    simp
    omega
  have hb : chk >>> 25 = UInt32.ofBitVec (((s >>> 25).setWidth 5).setWidth 32) := by
    apply UInt32.toNat_inj.mp
    rw [UInt32.toNat_shiftRight, hs]
    simp [Nat.shiftRight_eq_div_pow]
    omega
  rw [polymodStep_eq, UInt32.toBitVec_xor, UInt32.toBitVec_xor, hshift, hv5, hb, feedback_eq,
    register, BitVec.setWidth_xor, BitVec.setWidth_xor]

theorem register_faithful : register.Faithful := by
  intro s h
  have hlow : (bitsFeedback ((s >>> 25).setWidth 5)).setWidth 5 = 0#5 := by
    have h5 := congrArg (BitVec.setWidth 5) h
    simp only [register, BitVec.setWidth_xor] at h5
    have hz : (s <<< 5).setWidth 5 = 0#5 := by
      apply BitVec.eq_of_toNat_eq
      simp
    simpa [hz] using h5
  have hhigh := bitsFeedback_low _ hlow
  have hfb : bitsFeedback 0#5 = 0#30 := by decide +kernel
  simp only [register, hhigh, hfb] at h
  have h1 := congrArg BitVec.toNat h
  have h2 := congrArg BitVec.toNat hhigh
  simp [Nat.shiftLeft_eq, Nat.shiftRight_eq_div_pow] at h1 h2
  apply BitVec.eq_of_toNat_eq
  simp
  omega

theorem shiftLeft_xor_of_lt {a b i : ℕ} (h : b < 2 ^ i) : a <<< i ^^^ b = a <<< i + b := by
  rw [Nat.shiftLeft_add_eq_or_of_lt h]
  apply Nat.eq_of_testBit_eq
  intro j
  rw [Nat.testBit_xor, Nat.testBit_or, Nat.testBit_shiftLeft]
  by_cases hj : i ≤ j
  · have hb : b.testBit j = false :=
      Nat.testBit_lt_two_pow (Nat.lt_of_lt_of_le h (Nat.pow_le_pow_right (by omega) hj))
    simp [hb]
  · simp [hj]

/-- While the high bits are clear, a symbol is shifted in below the state. -/
theorem toNat_step_of_lt {s : BitVec 30} (hs : s.toNat < 2 ^ 25) (x : BitVec 5) :
    (register.step s x).toNat = x.toNat + 2 ^ 5 * s.toNat := by
  have hhigh : (s >>> 25).setWidth 5 = 0#5 := by
    apply BitVec.eq_of_toNat_eq
    simp [Nat.shiftRight_eq_div_pow]
    omega
  have hfb : bitsFeedback 0#5 = 0#30 := by decide +kernel
  have hx := x.isLt
  simp only [register, hhigh, hfb, BitVec.xor_zero, BitVec.toNat_xor, BitVec.toNat_setWidth,
    BitVec.toNat_shiftLeft]
  rw [Nat.mod_eq_of_lt (by omega : x.toNat < 2 ^ 30), Nat.shiftLeft_eq,
    Nat.mod_eq_of_lt (by omega : s.toNat * 2 ^ 5 < 2 ^ 30), ← Nat.shiftLeft_eq,
    shiftLeft_xor_of_lt hx, Nat.shiftLeft_eq]
  omega

/-- The first six symbols are packed into the state unchanged. -/
theorem toNat_absorb_zero {xs : List (BitVec 5)} (h : xs.length ≤ 6) :
    (register.absorb 0#30 xs).toNat = beNat (2 ^ 5) (xs.map BitVec.toNat) := by
  induction xs using List.reverseRecOn with
  | nil => rfl
  | append_singleton xs x ih =>
    rw [List.length_append, List.length_singleton] at h
    have ih := ih (by omega)
    have hlt : (register.absorb 0#30 xs).toNat < 2 ^ 25 := by
      have hb : beNat (2 ^ 5) (xs.map BitVec.toNat) < (2 ^ 5) ^ xs.length := by
        have hds : ∀ d ∈ xs.map BitVec.toNat, d < 2 ^ 5 := by simpa using fun x _ => x.isLt
        have hb := beNat_lt (by norm_num) hds
        rwa [List.length_map] at hb
      have hp : (2 ^ 5) ^ xs.length ≤ (2 ^ 5) ^ 5 := Nat.pow_le_pow_right (by norm_num) (by omega)
      rw [ih]
      omega
    rw [register.absorb_append, LinearRegister.absorb_cons, LinearRegister.absorb_nil,
      toNat_step_of_lt hlt, ih, List.map_append, List.map_cons, List.map_nil, beNat_concat]
theorem register_keepsBursts : register.KeepsBursts 6 := by
  intro xs hlen h
  have hvalue := toNat_absorb_zero hlen
  have hzlen : (LinearRegister.zeros 5 xs.length).length ≤ 6 := by
    simpa [LinearRegister.zeros] using hlen
  have hzeros := toNat_absorb_zero hzlen
  have hlt (ys : List (BitVec 5)) : ∀ y ∈ ys.map BitVec.toNat, y < 2 ^ 5 := by
    simpa using fun y _ => y.isLt
  have heq : xs.map BitVec.toNat = (LinearRegister.zeros 5 xs.length).map BitVec.toNat := by
    refine beNat_inj (by norm_num) (by simp [LinearRegister.zeros]) (hlt _) (hlt _) ?_
    rw [← hvalue, ← hzeros, h, register.absorb_zeros]
  have hxs := List.map_injective_iff.mpr (fun _ _ h => BitVec.eq_of_toNat_eq h) heq
  intro x hx
  rw [hxs] at hx
  exact List.eq_of_mem_replicate hx

theorem polymod_toBitVec {xs : List UInt8} (h : ∀ x ∈ values xs, x < 2 ^ 5) :
    (polymod xs).toBitVec = (register.absorb 1#30 (symbols xs)).setWidth 32 := by
  rw [polymod]
  have hone : (1 : UInt32).toBitVec = (1#30).setWidth 32 := by decide
  generalize (1 : UInt32) = chk at hone ⊢
  generalize 1#30 = s at hone ⊢
  induction xs generalizing chk s with
  | nil => exact hone
  | cons x xs ih =>
    simp only [values, List.map_cons, List.mem_cons, forall_eq_or_imp] at h
    exact ih h.2 _ _ (polymodStep_toBitVec hone (by omega))

theorem hrpExpand_lt (hrp : List Char) : ∀ x ∈ values (hrpExpand hrp), x < 2 ^ 5 := by
  intro x hx
  simp only [values, hrpExpand, List.map_append, List.map_map, List.mem_append, List.mem_map,
    Function.comp, List.map_cons, List.map_nil, List.mem_singleton] at hx
  obtain (⟨b, -, rfl⟩ | rfl) | ⟨b, -, rfl⟩ := hx
  · have hb := b.toNat_lt
    rw [UInt8.toNat_shiftRight, Nat.shiftRight_eq_div_pow]
    have h5 : UInt8.toNat 5 % 8 = 5 := rfl
    rw [h5]
    omega
  · decide
  · rw [UInt8.toNat_and]
    exact Nat.lt_of_le_of_lt Nat.and_le_right (by decide)

theorem length_createChecksum (hrp : List Char) (data : List UInt8) :
    (createChecksum hrp data).length = 6 := by simp [createChecksum]

theorem values_createChecksum (hrp : List Char) (data : List UInt8) :
    values (createChecksum hrp data) = (List.range 6).map fun i =>
      (polymod (hrpExpand hrp ++ data ++ [0, 0, 0, 0, 0, 0]) ^^^ 1).toNat / 2 ^ (5 * (5 - i)) %
        2 ^ 5 := by
  rw [values, createChecksum, List.map_map]
  refine List.map_congr_left fun i hi => ?_
  rw [List.mem_range] at hi
  rw [Function.comp, toNat_digit (o := 5) (by omega) (by decide), UInt32.toNat_shiftRight,
    UInt32.toNat_ofNat_of_lt' (by simp [UInt32.size]; omega),
    Nat.mod_eq_of_lt (show 5 * (5 - i) < 32 by omega), Nat.shiftRight_eq_div_pow]

theorem createChecksum_lt (hrp : List Char) (data : List UInt8) :
    ∀ x ∈ values (createChecksum hrp data), x < 2 ^ 5 := by
  rw [values_createChecksum]
  simp only [List.mem_map]
  rintro _ ⟨i, -, rfl⟩
  exact Nat.mod_lt _ (by norm_num)

/-- Six base-32 digits spell any 30-bit number. -/
theorem beNat_digits {n : ℕ} (h : n < 2 ^ 30) :
    beNat (2 ^ 5) ((List.range 6).map fun i => n / 2 ^ (5 * (5 - i)) % 2 ^ 5) = n := by
  have hrange : List.range 6 = [0, 1, 2, 3, 4, 5] := rfl
  simp only [beNat, hrange, List.map_cons, List.map_nil, List.reverse_cons, List.reverse_nil,
    List.nil_append, List.cons_append, Nat.ofDigits_cons, Nat.ofDigits_nil]
  norm_num
  omega

theorem symbols_map_toNat {xs : List UInt8} (h : ∀ x ∈ values xs, x < 2 ^ 5) :
    (symbols xs).map BitVec.toNat = values xs := by
  rw [symbols, values, List.map_map]
  refine List.map_congr_left fun x hx => ?_
  have hx32 := h x.toNat (List.mem_map_of_mem hx)
  rw [Function.comp, BitVec.toNat_setWidth]
  exact Nat.mod_eq_of_lt hx32

/-- The state after the human-readable part, `data` and six zero symbols. -/
def residue (hrp : List Char) (data : List UInt8) : BitVec 30 :=
  register.absorb (register.absorb 1#30 (symbols (hrpExpand hrp ++ data))) (LinearRegister.zeros 5 6)

/-- The last six symbols are added to the residue as they are. -/
theorem toNat_polymod_append {hrp : List Char} {data checksum : List UInt8}
    (hdata : ∀ x ∈ values data, x < 2 ^ 5) (hchecksum : ∀ x ∈ values checksum, x < 2 ^ 5)
    (hlen : checksum.length = 6) :
    (polymod (hrpExpand hrp ++ data ++ checksum)).toNat =
      (residue hrp data ^^^ register.absorb 0#30 (symbols checksum)).toNat := by
  have hall : ∀ x ∈ values (hrpExpand hrp ++ data ++ checksum), x < 2 ^ 5 := by
    intro x hx
    simp only [values_append, List.mem_append] at hx
    exact hx.elim (fun hx => hx.elim (hrpExpand_lt hrp x) (hdata x)) (hchecksum x)
  have hsplit : symbols (hrpExpand hrp ++ data ++ checksum) =
      symbols (hrpExpand hrp ++ data) ++ symbols checksum := List.map_append
  have hslen : (symbols checksum).length = 6 := by simpa [symbols] using hlen
  have h := congrArg BitVec.toNat (polymod_toBitVec hall)
  rw [hsplit, LinearRegister.absorb_append, LinearRegister.absorb_eq_xor, hslen,
    BitVec.toNat_setWidth, Nat.mod_eq_of_lt (by omega)] at h
  exact h

theorem toNat_polymod_zeros {hrp : List Char} {data : List UInt8}
    (hdata : ∀ x ∈ values data, x < 2 ^ 5) :
    (polymod (hrpExpand hrp ++ data ++ [0, 0, 0, 0, 0, 0])).toNat = (residue hrp data).toNat := by
  have hzeros : symbols [0, 0, 0, 0, 0, 0] = LinearRegister.zeros 5 6 := by decide
  rw [toNat_polymod_append hdata (by decide) rfl, hzeros, register.absorb_zeros, BitVec.xor_zero]

theorem beNat_createChecksum {hrp : List Char} {data : List UInt8}
    (hdata : ∀ x ∈ values data, x < 2 ^ 5) :
    beNat (2 ^ 5) (values (createChecksum hrp data)) = (residue hrp data ^^^ 1#30).toNat := by
  rw [values_createChecksum, UInt32.toNat_xor, toNat_polymod_zeros hdata, BitVec.toNat_xor]
  exact beNat_digits (residue hrp data ^^^ 1#30).isLt

/-- The six symbols that complete `data` to a codeword are those of `createChecksum`. -/
theorem verifyChecksum_append_iff {hrp : List Char} {data checksum : List UInt8}
    (hdata : ∀ x ∈ values data, x < 2 ^ 5) (hchecksum : ∀ x ∈ values checksum, x < 2 ^ 5)
    (hlen : checksum.length = 6) :
    verifyChecksum hrp (data ++ checksum) = true ↔ checksum = createChecksum hrp data := by
  have hvalue : (register.absorb 0#30 (symbols checksum)).toNat = beNat (2 ^ 5) (values checksum) := by
    rw [toNat_absorb_zero (by simp [symbols, hlen]), symbols_map_toNat hchecksum]
  have hverify : verifyChecksum hrp (data ++ checksum) = true ↔
      register.absorb 0#30 (symbols checksum) = residue hrp data ^^^ 1#30 := by
    rw [verifyChecksum, decide_eq_true_iff, ← UInt32.toNat_inj, ← List.append_assoc,
      toNat_polymod_append hdata hchecksum hlen]
    constructor
    · intro h
      have h1 : residue hrp data ^^^ register.absorb 0#30 (symbols checksum) = 1#30 :=
        BitVec.eq_of_toNat_eq h
      rw [← h1, ← BitVec.xor_assoc, BitVec.xor_self, BitVec.zero_xor]
    · intro h
      rw [h, ← BitVec.xor_assoc, BitVec.xor_self, BitVec.zero_xor]
      rfl
  rw [hverify]
  constructor
  · intro h
    refine values_injective (beNat_inj (by norm_num) ?_ hchecksum (createChecksum_lt hrp data) ?_)
    · simp [hlen, length_createChecksum]
    · rw [beNat_createChecksum hdata, ← h, hvalue]
  · rintro rfl
    apply BitVec.eq_of_toNat_eq
    rw [hvalue, beNat_createChecksum hdata]

end Ratelimitly
