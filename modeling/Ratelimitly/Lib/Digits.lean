import Mathlib.Tactic

/-! Big-endian digit strings, and the accumulator that regroups their bits. -/
namespace Lib

/-- The number big-endian digits spell in base `b`. -/
def beNat (b : ℕ) (ds : List ℕ) : ℕ := Nat.ofDigits b ds.reverse

@[simp] theorem beNat_nil (b : ℕ) : beNat b [] = 0 := rfl

theorem beNat_concat (b : ℕ) (ds : List ℕ) (d : ℕ) : beNat b (ds ++ [d]) = d + b * beNat b ds := by
  simp [beNat, Nat.ofDigits_cons]

theorem beNat_lt {b : ℕ} {ds : List ℕ} (hb : 1 < b) (h : ∀ d ∈ ds, d < b) :
    beNat b ds < b ^ ds.length := by
  have hlt := Nat.ofDigits_lt_base_pow_length (l := ds.reverse) hb (by simpa using h)
  rwa [List.length_reverse] at hlt

theorem beNat_inj {b : ℕ} {ds es : List ℕ} (hb : 1 < b) (hlen : ds.length = es.length)
    (hd : ∀ d ∈ ds, d < b) (he : ∀ e ∈ es, e < b) (h : beNat b ds = beNat b es) : ds = es := by
  have hrev := Nat.ofDigits_inj_of_len_eq hb (by simpa using hlen) (by simpa using hd)
    (by simpa using he) h
  exact List.reverse_injective hrev

/-- The `o`-bit digits `ys` spell the `i`-bit digits `xs` followed by `pad` zero bits. -/
structure Spells (i o : ℕ) (xs ys : List ℕ) (pad : ℕ) : Prop where
  length_eq : o * ys.length = i * xs.length + pad
  beNat_eq : beNat (2 ^ o) ys = beNat (2 ^ i) xs * 2 ^ pad

section Spells

variable {i o pad pad' : ℕ} {xs xs' ys ys' : List ℕ}

theorem Spells.target_unique (h : Spells i o xs ys pad) (h' : Spells i o xs ys' pad')
    (hpad : pad < o) (hpad' : pad' < o) (hys : ∀ y ∈ ys, y < 2 ^ o) (hys' : ∀ y ∈ ys', y < 2 ^ o) :
    ys = ys' := by
  have hlen := h.length_eq
  have hlen' := h'.length_eq
  have hn : ys.length = ys'.length := by
    rcases Nat.lt_trichotomy ys.length ys'.length with hlt | heq | hgt
    · have := Nat.mul_le_mul_left o (Nat.succ_le_of_lt hlt)
      rw [Nat.mul_succ] at this
      omega
    · exact heq
    · have := Nat.mul_le_mul_left o (Nat.succ_le_of_lt hgt)
      rw [Nat.mul_succ] at this
      omega
  have hp : pad = pad' := by rw [hn] at hlen; omega
  subst hp
  exact beNat_inj (Nat.one_lt_two_pow (by omega)) hn hys hys' (h.beNat_eq.trans h'.beNat_eq.symm)

end Spells

/-- The accumulator's invariant: `outs` holds all but the last `bits` bits of `ins`, and `acc`
the last bits of `ins` that later digits may need. -/
structure Regrouping (i o : ℕ) (ins : List ℕ) (acc bits : ℕ) (outs : List ℕ) : Prop where
  length_eq : i * ins.length = o * outs.length + bits
  outs_eq : beNat (2 ^ o) outs = beNat (2 ^ i) ins / 2 ^ bits
  acc_eq : acc = beNat (2 ^ i) ins % 2 ^ (i + o - 1)
  outs_lt : ∀ d ∈ outs, d < 2 ^ o

namespace Regrouping

variable {i o acc bits d : ℕ} {ins outs : List ℕ}

theorem init : Regrouping i o [] 0 0 [] := ⟨rfl, by simp, by simp, by simp⟩

theorem read (h : Regrouping i o ins acc bits outs) (hd : d < 2 ^ i) :
    Regrouping i o (ins ++ [d]) ((acc * 2 ^ i + d) % 2 ^ (i + o - 1)) (bits + i) outs := by
  refine ⟨?_, ?_, ?_, h.outs_lt⟩
  · rw [List.length_append, List.length_singleton, Nat.mul_succ, h.length_eq]
    ring
  · rw [h.outs_eq, beNat_concat, Nat.add_comm bits, pow_add, ← Nat.div_div_eq_div_mul,
      Nat.add_mul_div_left _ _ (by positivity), Nat.div_eq_of_lt hd, Nat.zero_add]
  · rw [h.acc_eq, beNat_concat, Nat.add_comm d, Nat.mul_comm (2 ^ i)]
    exact Nat.ModEq.add_right d ((Nat.mod_modEq _ _).mul_right _)

theorem emit (h : Regrouping i o ins acc bits outs) (hle : o ≤ bits) (hlt : bits ≤ i + o - 1) :
    Regrouping i o ins acc (bits - o) (outs ++ [acc / 2 ^ (bits - o) % 2 ^ o]) := by
  have hdigit : acc / 2 ^ (bits - o) % 2 ^ o = beNat (2 ^ i) ins / 2 ^ (bits - o) % 2 ^ o := by
    rw [h.acc_eq, show i + o - 1 = (bits - o) + o + (i + o - 1 - bits) by omega, pow_add, pow_add,
      Nat.mul_assoc, Nat.mod_mul_right_div_self, Nat.mod_mul_right_mod]
  refine ⟨?_, ?_, h.acc_eq, ?_⟩
  · rw [List.length_append, List.length_singleton, Nat.mul_succ, h.length_eq]
    omega
  · rw [beNat_concat, h.outs_eq, hdigit]
    conv_lhs => rw [show bits = (bits - o) + o by omega, pow_add, ← Nat.div_div_eq_div_mul]
    simp only [Nat.add_sub_cancel]
    exact Nat.mod_add_div _ _
  · intro e he
    rcases List.mem_append.mp he with he | he
    · exact h.outs_lt e he
    · rw [List.mem_singleton.mp he]
      exact Nat.mod_lt _ (by positivity)

theorem acc_lt (h : Regrouping i o ins acc bits outs) : acc < 2 ^ (i + o - 1) := by
  rw [h.acc_eq]
  exact Nat.mod_lt _ (by positivity)

theorem acc_mod (h : Regrouping i o ins acc bits outs) (hlt : bits ≤ i + o - 1) :
    acc % 2 ^ bits = beNat (2 ^ i) ins % 2 ^ bits := by
  rw [h.acc_eq, Nat.mod_mod_of_dvd _ (pow_dvd_pow 2 hlt)]

/-- The bits left over, moved to the top of a digit. -/
theorem rest_eq (h : Regrouping i o ins acc bits outs) (hi : 0 < i) (hlt : bits < o) :
    acc * 2 ^ (o - bits) % 2 ^ o = beNat (2 ^ i) ins % 2 ^ bits * 2 ^ (o - bits) := by
  rw [← h.acc_mod (by omega)]
  conv_lhs => rw [show o = bits + (o - bits) by omega, pow_add]
  simp only [Nat.add_sub_cancel_left]
  rw [Nat.mul_mod_mul_right]

/-- Flushing the left-over bits as one padded digit. -/
theorem spells_of_flush (h : Regrouping i o ins acc bits outs) (hi : 0 < i) (hlt : bits < o) :
    Spells i o ins (outs ++ [acc * 2 ^ (o - bits) % 2 ^ o]) (o - bits) := by
  refine ⟨?_, ?_⟩
  · rw [List.length_append, List.length_singleton, Nat.mul_succ, h.length_eq]
    omega
  · rw [beNat_concat, h.rest_eq hi hlt, h.outs_eq]
    conv_rhs => rw [← Nat.mod_add_div (beNat (2 ^ i) ins) (2 ^ bits)]
    conv_lhs => rw [show 2 ^ o = 2 ^ bits * 2 ^ (o - bits) by rw [← pow_add]; congr 1; omega]
    ring

/-- Nothing is left over exactly when the digits read spell the digits written. -/
theorem rest_eq_zero_iff (h : Regrouping i o ins acc bits outs) (hi : 0 < i) (hlt : bits < o) :
    acc * 2 ^ (o - bits) % 2 ^ o = 0 ↔ Spells o i outs ins bits := by
  rw [h.rest_eq hi hlt]
  constructor
  · intro hz
    have hmod : beNat (2 ^ i) ins % 2 ^ bits = 0 := by
      rcases Nat.mul_eq_zero.mp hz with hz | hz
      · exact hz
      · exact absurd hz (by positivity)
    exact ⟨h.length_eq, by rw [h.outs_eq, Nat.div_mul_cancel (Nat.dvd_of_mod_eq_zero hmod)]⟩
  · intro hs
    rw [hs.beNat_eq, Nat.mul_mod_left, Nat.zero_mul]

end Regrouping

end Lib
