import Mathlib.Tactic
import Ratelimitly.Lib.Outcome

/-! Checked and saturating arithmetic on machine words. -/
namespace Lib

variable {ε : Type}

/-- `u64::checked_add`. -/
def checkedAdd64 (a b : UInt64) : Option UInt64 :=
  if a.toNat + b.toNat < 2 ^ 64 then some (a + b) else none

/-- `u64::checked_mul`. -/
def checkedMul64 (a b : UInt64) : Option UInt64 :=
  if a.toNat * b.toNat < 2 ^ 64 then some (a * b) else none

/-- `u64::saturating_add`. -/
def saturatingAdd64 (a b : UInt64) : UInt64 := (checkedAdd64 a b).getD (UInt64.ofNat (2 ^ 64 - 1))

/-- `u64::saturating_mul`. -/
def saturatingMul64 (a b : UInt64) : UInt64 :=
  if a.toNat * b.toNat < 2 ^ 64 then a * b else UInt64.ofNat (2 ^ 64 - 1)

theorem checkedAdd64_eq_some_iff {a b c : UInt64} :
    checkedAdd64 a b = some c ↔ c.toNat = a.toNat + b.toNat := by
  have hc := c.toNat_lt
  unfold checkedAdd64
  split
  next h =>
    rw [Option.some.injEq, ← UInt64.toNat_inj, UInt64.toNat_add, Nat.mod_eq_of_lt h, eq_comm]
  next h =>
    simp only [reduceCtorEq, false_iff]
    omega

theorem checkedAdd64_eq_none_iff {a b : UInt64} :
    checkedAdd64 a b = none ↔ 2 ^ 64 - 1 < a.toNat + b.toNat := by
  unfold checkedAdd64
  split
  next h =>
    simp only [reduceCtorEq, false_iff]
    omega
  next h =>
    simp only [true_iff]
    omega

theorem toNat_saturatingAdd64 (a b : UInt64) :
    (saturatingAdd64 a b).toNat = min (2 ^ 64 - 1) (a.toNat + b.toNat) := by
  unfold saturatingAdd64
  cases h : checkedAdd64 a b with
  | none =>
    rw [checkedAdd64_eq_none_iff] at h
    rw [Option.getD_none, min_eq_left h.le]
    rfl
  | some c =>
    have hc := c.toNat_lt
    rw [checkedAdd64_eq_some_iff] at h
    rw [Option.getD_some, ← h, min_eq_right (by omega)]

theorem checkedMul64_eq_some_iff {a b c : UInt64} :
    checkedMul64 a b = some c ↔ c.toNat = a.toNat * b.toNat := by
  have hc := c.toNat_lt
  unfold checkedMul64
  split
  next h =>
    rw [Option.some.injEq, ← UInt64.toNat_inj, UInt64.toNat_mul, Nat.mod_eq_of_lt h, eq_comm]
  next h =>
    simp only [reduceCtorEq, false_iff]
    omega

theorem toNat_saturatingMul64 {a b : UInt64} (h : a.toNat * b.toNat < 2 ^ 64) :
    (saturatingMul64 a b).toNat = a.toNat * b.toNat := by
  rw [saturatingMul64, if_pos h, UInt64.toNat_mul, Nat.mod_eq_of_lt h]

/-! ### Operators that panic on overflow -/

/-- `a + b` and `a - b` on `u8`. -/
def add8 (a b : UInt8) : Outcome ε UInt8 :=
  if a.toNat + b.toNat < 256 then .ok (a + b) else .panic

def sub8 (a b : UInt8) : Outcome ε UInt8 := if b ≤ a then .ok (a - b) else .panic

/-- `a - b` on `u32`. -/
def sub32 (a b : UInt32) : Outcome ε UInt32 := if b ≤ a then .ok (a - b) else .panic

/-- `a + b`, `a * b` and `a / b` on `u32`. -/
def add32 (a b : UInt32) : Outcome ε UInt32 :=
  if a.toNat + b.toNat < 2 ^ 32 then .ok (a + b) else .panic

def mul32 (a b : UInt32) : Outcome ε UInt32 :=
  if a.toNat * b.toNat < 2 ^ 32 then .ok (a * b) else .panic

def div32 (a b : UInt32) : Outcome ε UInt32 := if b ≠ 0 then .ok (a / b) else .panic

/-- `a << s` and `a >> s` on `u32`; only the shift amount is checked. -/
def shl32 (a : UInt32) (s : UInt8) : Outcome ε UInt32 :=
  if s.toNat < 32 then .ok (a <<< s.toUInt32) else .panic

def shr32 (a : UInt32) (s : UInt8) : Outcome ε UInt32 :=
  if s.toNat < 32 then .ok (a >>> s.toUInt32) else .panic

/-- `a << s` on `u32` when no bit is lost. -/
def shlExact32 (a s : UInt32) : Outcome ε UInt32 :=
  if s.toNat < 32 ∧ a.toNat * 2 ^ s.toNat < 2 ^ 32 then .ok (a <<< s) else .panic

/-- `a >> s` on `u8`. -/
def shr8 (a s : UInt8) : Outcome ε UInt8 := if s.toNat < 8 then .ok (a >>> s) else .panic

/-- `a - b` on `usize`. -/
def subUsize (a b : ℕ) : Outcome ε ℕ := if b ≤ a then .ok (a - b) else .panic

theorem add8_of_lt {a b : UInt8} (h : a.toNat + b.toNat < 256) :
    (add8 a b : Outcome ε _) = .ok (a + b) := if_pos h

theorem sub8_of_le {a b : UInt8} (h : b ≤ a) : (sub8 a b : Outcome ε _) = .ok (a - b) := if_pos h

theorem sub32_of_le {a b : UInt32} (h : b ≤ a) : (sub32 a b : Outcome ε _) = .ok (a - b) :=
  if_pos h

theorem add32_of_lt {a b : UInt32} (h : a.toNat + b.toNat < 2 ^ 32) :
    (add32 a b : Outcome ε _) = .ok (a + b) := if_pos h

theorem mul32_of_lt {a b : UInt32} (h : a.toNat * b.toNat < 2 ^ 32) :
    (mul32 a b : Outcome ε _) = .ok (a * b) := if_pos h

theorem div32_of_ne {a b : UInt32} (h : b ≠ 0) : (div32 a b : Outcome ε _) = .ok (a / b) := if_pos h

theorem shl32_of_lt {a : UInt32} {s : UInt8} (h : s.toNat < 32) :
    (shl32 a s : Outcome ε _) = .ok (a <<< s.toUInt32) := if_pos h

theorem shr32_of_lt {a : UInt32} {s : UInt8} (h : s.toNat < 32) :
    (shr32 a s : Outcome ε _) = .ok (a >>> s.toUInt32) := if_pos h

theorem shlExact32_of_lt {a s : UInt32} (hs : s.toNat < 32) (h : a.toNat * 2 ^ s.toNat < 2 ^ 32) :
    (shlExact32 a s : Outcome ε _) = .ok (a <<< s) := if_pos ⟨hs, h⟩

theorem shlExact32_eq_shl32 {a : UInt32} {s : UInt8} (hs : s.toNat < 32)
    (h : a.toNat * 2 ^ s.toNat < 2 ^ 32) : (shlExact32 a s.toUInt32 : Outcome ε _) = shl32 a s := by
  have hnat : s.toUInt32.toNat = s.toNat := UInt8.toNat_toUInt32 s
  rw [shlExact32_of_lt (by rwa [hnat]) (by rwa [hnat]), shl32_of_lt hs]

theorem shr8_of_lt {a s : UInt8} (h : s.toNat < 8) : (shr8 a s : Outcome ε _) = .ok (a >>> s) :=
  if_pos h

theorem subUsize_of_le {a b : ℕ} (h : b ≤ a) : (subUsize a b : Outcome ε _) = .ok (a - b) :=
  if_pos h

theorem toNat_shl32 {a : UInt32} {s : UInt8} (h : s.toNat < 32) :
    (a <<< s.toUInt32).toNat = a.toNat * 2 ^ s.toNat % 2 ^ 32 := by
  rw [UInt32.toNat_shiftLeft, UInt8.toNat_toUInt32, Nat.mod_eq_of_lt h, Nat.shiftLeft_eq]

theorem toNat_shr32 {a : UInt32} {s : UInt8} (h : s.toNat < 32) :
    (a >>> s.toUInt32).toNat = a.toNat / 2 ^ s.toNat := by
  rw [UInt32.toNat_shiftRight, UInt8.toNat_toUInt32, Nat.mod_eq_of_lt h, Nat.shiftRight_eq_div_pow]

/-- Masking with `2 ^ n - 1`. -/
theorem toNat_and_mask {a m : UInt32} {n : ℕ} (h : m.toNat = 2 ^ n - 1) :
    (a &&& m).toNat = a.toNat % 2 ^ n := by
  rw [UInt32.toNat_and, h, Nat.and_two_pow_sub_one_eq_mod]

theorem toNat_and_mask_lt (a : UInt32) {m : UInt32} {n : ℕ} (h : m.toNat = 2 ^ n - 1) :
    (a &&& m).toNat < 2 ^ n := by
  rw [toNat_and_mask h]
  exact Nat.mod_lt _ (Nat.two_pow_pos n)

end Lib
