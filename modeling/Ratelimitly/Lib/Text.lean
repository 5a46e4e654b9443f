import Mathlib.Data.List.DropRight
import Mathlib.Tactic
import Ratelimitly.Lib.Bytes

/-! Decimal text, ASCII case, byte offsets, and what trimming leaves of a first label. -/
namespace Lib

variable {ε : Type} {c d : Char} {digits : List Char} {n : ℕ}

/-! ### ASCII case -/

theorem isUpper_iff : c.isUpper = true ↔ 65 ≤ c.toNat ∧ c.toNat ≤ 90 := by
  show decide (c.val ≥ 'A'.val ∧ c.val ≤ 'Z'.val) = true ↔ _
  simp [UInt32.le_iff_toNat_le]

theorem isLower_iff : c.isLower = true ↔ 97 ≤ c.toNat ∧ c.toNat ≤ 122 := by
  show (decide (c.val ≥ 'a'.val) && decide (c.val ≤ 'z'.val)) = true ↔ _
  simp [UInt32.le_iff_toNat_le]

theorem toNat_toLower (c : Char) :
    c.toLower.toNat = if c.isUpper then c.toNat + 32 else c.toNat := by
  unfold Char.toLower
  split
  next h =>
    have hle : c.toNat ≤ 90 := h.2
    rw [if_pos (isUpper_iff.mpr h)]
    exact Nat.mod_eq_of_lt (by show c.toNat + 32 < _; omega)
  next h =>
    rw [if_neg]
    rw [isUpper_iff]
    exact h

/-- A character below the letters is lowered from itself only. -/
theorem toLower_eq_iff (hd : d.toNat < 65) : c.toLower = d ↔ c = d := by
  rw [← Char.toNat_inj, ← Char.toNat_inj, toNat_toLower]
  simp only [isUpper_iff]
  split <;> omega

theorem toLower_eq_s_iff : c.toLower = 's' ↔ c = 's' ∨ c = 'S' := by
  rw [← Char.toNat_inj, ← Char.toNat_inj, ← Char.toNat_inj, toNat_toLower]
  simp only [isUpper_iff, Char.reduceToNat]
  split <;> omega

theorem map_toLower_eq_iff {text : List Char} (h : ∀ d ∈ digits, d.toNat < 65) :
    text.map Char.toLower = digits ↔ text = digits := by
  induction digits generalizing text with
  | nil => exact List.map_eq_nil_iff
  | cons d digits ih =>
    cases text with
    | nil => simp
    | cons c text =>
      rw [List.map_cons, List.cons.injEq, List.cons.injEq, toLower_eq_iff (h d List.mem_cons_self),
        ih fun d hd => h d (List.mem_cons_of_mem _ hd)]

/-! ### Decimal text -/

theorem isDigit_iff : c.isDigit = true ↔ 48 ≤ c.toNat ∧ c.toNat ≤ 57 := by
  simp [Char.isDigit, UInt32.le_iff_toNat_le]

theorem digitChar_toNat_sub (h : c.isDigit = true) : Nat.digitChar (c.toNat - 48) = c := by
  obtain ⟨hle, hge⟩ := isDigit_iff.mp h
  apply Char.toNat_inj.mp
  rw [Nat.toNat_digitChar_of_lt_ten (by omega)]
  omega

/-- Digits after a positive number continue its text. -/
theorem toDigits_append_digits (hn : 0 < n) (h : ∀ d ∈ digits, d.isDigit = true) :
    Nat.toDigits 10 n ++ digits = Nat.toDigits 10 (Nat.ofDigitChars 10 digits n) := by
  induction digits generalizing n with
  | nil => rw [List.append_nil, Nat.ofDigitChars_nil]
  | cons d digits ih =>
    have hd := h d List.mem_cons_self
    have hlt : d.toNat - 48 < 10 := by
      have := isDigit_iff.mp hd
      omega
    have hnext := Nat.toDigits_append_toDigits (by decide : 1 < 10) hn hlt
    rw [Nat.toDigits_of_lt_base hlt, digitChar_toNat_sub hd] at hnext
    rw [Nat.ofDigitChars_cons, ← List.singleton_append, ← List.append_assoc, hnext]
    exact ih (by omega) fun d hd => h d (List.mem_cons_of_mem _ hd)

/-- Decimal text without leading zeros. -/
structure Decimal (digits : List Char) : Prop where
  ne_nil : digits ≠ []
  head : digits.length > 1 → digits.head? ≠ some '0'
  isDigit : ∀ d ∈ digits, d.isDigit = true

/-- Such a text is the text of its number. -/
theorem Decimal.toDigits_eq (h : Decimal digits) :
    Nat.toDigits 10 (Nat.ofDigitChars 10 digits 0) = digits := by
  obtain ⟨d, rest, rfl⟩ := List.exists_cons_of_ne_nil h.ne_nil
  have hd := h.isDigit d List.mem_cons_self
  have hlt : d.toNat - 48 < 10 := by
    have := isDigit_iff.mp hd
    omega
  have hfirst : Nat.toDigits 10 (d.toNat - 48) = [d] := by
    rw [Nat.toDigits_of_lt_base hlt, digitChar_toNat_sub hd]
  rw [Nat.ofDigitChars_cons, Nat.mul_zero, Nat.zero_add]
  by_cases hrest : rest = []
  · rw [hrest, Nat.ofDigitChars_nil]
    exact hfirst
  · have hpos : 0 < d.toNat - 48 := by
      apply Nat.pos_of_ne_zero
      intro hzero
      have hlen : (d :: rest).length > 1 := by
        have := List.length_pos_of_ne_nil hrest
        simp only [List.length_cons]
        omega
      apply h.head hlen
      rw [List.head?_cons, ← digitChar_toNat_sub hd, hzero]
      rfl
    show Nat.toDigits 10 (Nat.ofDigitChars 10 rest (d.toNat - 48)) = d :: rest
    rw [← toDigits_append_digits hpos fun d hd => h.isDigit d (List.mem_cons_of_mem _ hd), hfirst]
    rfl

theorem decimal_toDigits (n : ℕ) : Decimal (Nat.toDigits 10 n) := by
  refine ⟨Nat.toDigits_ne_nil, ?_, fun d hd =>
    Nat.isDigit_of_mem_toDigits (by decide) (by decide) hd⟩
  -- the text of a larger number begins like that of a tenth of it
  induction n using Nat.strongRecOn with
  | ind n ih =>
    intro hlen
    rw [Nat.toDigits_eq_if (by decide)] at hlen ⊢
    split at hlen
    next => simp at hlen
    next hge =>
      rw [if_neg hge, List.head?_append_of_ne_nil _ Nat.toDigits_ne_nil]
      by_cases hlong : (Nat.toDigits 10 (n / 10)).length > 1
      · exact ih (n / 10) (by omega) hlong
      · have hlt : n / 10 < 10 := by
          have h := (Nat.length_toDigits_le_iff (by decide : 1 < 10) Nat.one_pos).mp
            (Nat.le_of_not_lt hlong)
          simpa using h
        rw [Nat.toDigits_of_lt_base hlt, List.head?_cons, Ne, Option.some.injEq, ← Char.toNat_inj,
          Nat.toNat_digitChar_of_lt_ten hlt]
        simp only [Char.reduceToNat]
        omega

/-! ### Byte offsets -/

/-- A text in two at a byte offset, which has to be a character boundary. -/
def splitAtByte : List Char → ℕ → Option (List Char × List Char)
  | text, 0 => some ([], text)
  | [], _ + 1 => none
  | c :: text, offset + 1 =>
    if c.utf8Size ≤ offset + 1 then
      (splitAtByte text (offset + 1 - c.utf8Size)).map fun (before, after) => (c :: before, after)
    else none

/-- `&text[..offset]`. -/
def textTo (text : List Char) (offset : ℕ) : Outcome ε (List Char) :=
  .expect ((splitAtByte text offset).map (·.1))

/-- `&text[offset..]`. -/
def textFrom (text : List Char) (offset : ℕ) : Outcome ε (List Char) :=
  .expect ((splitAtByte text offset).map (·.2))

/-- In ASCII text every offset up to the end is a boundary. -/
theorem splitAtByte_of_ascii {text : List Char} (h : ∀ c ∈ text, c.utf8Size = 1) (offset : ℕ) :
    splitAtByte text offset =
      if offset ≤ text.length then some (text.take offset, text.drop offset) else none := by
  induction text generalizing offset with
  | nil => cases offset <;> simp [splitAtByte]
  | cons c text ih =>
    cases offset with
    | zero => simp [splitAtByte]
    | succ offset =>
      rw [splitAtByte, h c List.mem_cons_self, if_pos (by omega),
        ih (fun c hc => h c (List.mem_cons_of_mem _ hc)), Nat.add_sub_cancel]
      by_cases hle : offset ≤ text.length
      · rw [if_pos hle, if_pos (by simpa using hle)]
        rfl
      · rw [if_neg hle, if_neg (by simpa using hle)]
        rfl

theorem textTo_of_ascii {text : List Char} (h : ∀ c ∈ text, c.utf8Size = 1) (offset : ℕ) :
    (textTo text offset : Outcome ε _) = slice text 0 offset := by
  rw [textTo, splitAtByte_of_ascii h, slice]
  by_cases hle : offset ≤ text.length
  · rw [if_pos hle, if_pos ⟨Nat.zero_le _, hle⟩]
    simp [Outcome.expect, sub]
  · rw [if_neg hle, if_neg fun hand => hle hand.2]
    rfl

theorem textFrom_of_ascii {text : List Char} (h : ∀ c ∈ text, c.utf8Size = 1) (offset : ℕ) :
    (textFrom text offset : Outcome ε _) = slice text offset text.length := by
  rw [textFrom, splitAtByte_of_ascii h, slice]
  by_cases hle : offset ≤ text.length
  · rw [if_pos hle, if_pos ⟨hle, le_rfl⟩, sub_length]
    rfl
  · rw [if_neg hle, if_neg fun hand => hle hand.1]
    rfl

theorem length_utf8Bytes_of_ascii {text : List Char} (h : ∀ c ∈ text, c.utf8Size = 1) :
    (utf8Bytes text).length = text.length := by
  induction text with
  | nil => rfl
  | cons c text ih =>
    have hc := String.length_utf8EncodeChar c
    rw [h c List.mem_cons_self] at hc
    rw [utf8Bytes, List.flatMap_cons, List.length_append, hc, List.length_cons, Nat.add_comm]
    exact congrArg (· + 1) (ih fun c hc => h c (List.mem_cons_of_mem _ hc))

/-- A character beyond ASCII has a byte beyond ASCII. -/
theorem exists_byte_ge {c : Char} (h : c.utf8Size ≠ 1) :
    ∃ byte ∈ String.utf8EncodeChar c, 128 ≤ byte.toNat := by
  have hlast : 128 ≤ (c.val.toUInt8 &&& 0x3f ||| 0x80).toNat := by
    rw [UInt8.toNat_or]
    exact Nat.right_le_or
  rcases Char.utf8Size_eq c with hsize | hsize | hsize | hsize
  · exact absurd hsize h
  · exact ⟨_, by rw [String.utf8EncodeChar_eq_cons_cons hsize]; simp, hlast⟩
  · exact ⟨_, by rw [String.utf8EncodeChar_eq_cons_cons_cons hsize]; simp, hlast⟩
  · exact ⟨_, by rw [String.utf8EncodeChar_eq_cons_cons_cons_cons hsize]; simp, hlast⟩

/-- A check that only ASCII bytes pass is a check of the characters. -/
theorem all_utf8Bytes_iff {p : UInt8 → Prop} (hp : ∀ byte, p byte → byte.toNat < 128)
    {text : List Char} : (∀ byte ∈ utf8Bytes text, p byte) ↔
      ∀ c ∈ text, c.utf8Size = 1 ∧ p c.val.toUInt8 := by
  simp only [utf8Bytes, List.mem_flatMap, forall_exists_index, and_imp]
  constructor
  · intro h c hc
    have hsize : c.utf8Size = 1 := by
      by_contra hne
      obtain ⟨byte, hbyte, hge⟩ := exists_byte_ge hne
      have hlt := hp byte (h byte c hc hbyte)
      omega
    refine ⟨hsize, h _ c hc ?_⟩
    rw [String.utf8EncodeChar_eq_singleton hsize]
    exact List.mem_singleton_self _
  · intro h byte c hc hbyte
    obtain ⟨hsize, hp⟩ := h c hc
    rw [String.utf8EncodeChar_eq_singleton hsize, List.mem_singleton] at hbyte
    exact hbyte ▸ hp
/-! ### First labels -/

/-- What is trimmed off the end is not part of the first label. -/
theorem takeWhile_rdropWhile {α : Type} (p : α → Bool) (xs : List α) :
    (xs.rdropWhile p).takeWhile (fun x => !p x) = xs.takeWhile fun x => !p x := by
  induction xs using List.reverseRecOn with
  | nil => rfl
  | append_singleton xs x ih =>
    by_cases hx : p x
    · rw [List.rdropWhile_concat_pos _ _ _ hx, ih, List.takeWhile_append]
      split
      next hlen =>
        rw [(List.takeWhile_prefix _).eq_of_length hlen]
        simp [hx]
      next => rfl
    · rw [List.rdropWhile_concat_neg _ _ _ hx]

end Lib
