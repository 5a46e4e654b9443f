import Mathlib.Tactic
import Ratelimitly.Lib.Outcome

/-! Byte buffers: checked slices, in-place writes and little-endian integers. -/
namespace Lib

variable {ε α : Type}

/-- A fixed-size array `[u8; n]`. -/
@[ext] structure Bytes (n : ℕ) where
  toList : List UInt8
  length_eq : toList.length = n
  deriving DecidableEq, Repr

attribute [simp] Bytes.length_eq

/-- The elements at positions `a..b`, without the bounds check. -/
def sub (xs : List α) (a b : ℕ) : List α := (xs.drop a).take (b - a)

/-- `&xs[a..b]`. -/
def slice (xs : List α) (a b : ℕ) : Outcome ε (List α) :=
  if a ≤ b ∧ b ≤ xs.length then .ok (sub xs a b) else .panic

/-- `xs[i]`. -/
def index (xs : List α) (i : ℕ) : Outcome ε α := .expect xs[i]?

/-- `xs[a..b].copy_from_slice(src)`. -/
def copyFromSlice (xs : List α) (a b : ℕ) (src : List α) : Outcome ε (List α) :=
  if a ≤ b ∧ b ≤ xs.length ∧ src.length = b - a then .ok (xs.take a ++ src ++ xs.drop b) else .panic

/-- `xs[i] = x`. -/
def setIndex (xs : List α) (i : ℕ) (x : α) : Outcome ε (List α) := copyFromSlice xs i (i + 1) [x]

/-- `let mut out = [0u8; n]; out.copy_from_slice(xs)`, also `xs.try_into().unwrap()`. -/
def toArray (n : ℕ) (xs : List UInt8) : Outcome ε (Bytes n) :=
  if h : xs.length = n then .ok ⟨xs, h⟩ else .panic

@[simp] theorem length_sub (xs : List α) (a b : ℕ) :
    (sub xs a b).length = min (b - a) (xs.length - a) := by simp [sub]

theorem length_sub_of_le {xs : List α} {a b : ℕ} (h : b ≤ xs.length) :
    (sub xs a b).length = b - a := by simp; omega

theorem sub_append_right {us : List α} (vs : List α) {a b : ℕ} (h : us.length ≤ a) :
    sub (us ++ vs) a b = sub vs (a - us.length) (b - us.length) := by
  simp only [sub, List.drop_append, List.drop_eq_nil_of_le h, List.nil_append]
  congr 1
  omega

theorem sub_append_left {us : List α} (vs : List α) {a b : ℕ} (h : b ≤ us.length) :
    sub (us ++ vs) a b = sub us a b := by
  by_cases hab : a ≤ b
  · simp only [sub, List.drop_append]
    rw [List.take_append_of_le_length (by simp; omega)]
  · simp [sub, show b - a = 0 by omega]

theorem sub_zero_length (xs : List α) : sub xs 0 xs.length = xs := by simp [sub]

theorem sub_length (xs : List α) (a : ℕ) : sub xs a xs.length = xs.drop a :=
  List.take_of_length_le (by simp)

theorem sub_full {xs : List α} {n : ℕ} (h : xs.length = n) : sub xs 0 n = xs := by
  subst h; exact sub_zero_length xs

theorem sub_cons (x : α) (xs : List α) {a b : ℕ} (h : 1 ≤ a) :
    sub (x :: xs) a b = sub xs (a - 1) (b - 1) :=
  sub_append_right xs (show [x].length ≤ a from h)

theorem sub_of_sub (xs : List α) {a b c d : ℕ} (h : a + d ≤ b) :
    sub (sub xs a b) c d = sub xs (a + c) (a + d) := by
  simp only [sub, List.drop_take, List.drop_drop, List.take_take]
  congr 1
  omega

theorem sub_drop (xs : List α) (a b k : ℕ) : sub (xs.drop k) a b = sub xs (k + a) (k + b) := by
  simp only [sub, List.drop_drop]
  congr 1
  omega

theorem sub_append_drop (xs : List α) {a b : ℕ} (h : a ≤ b) :
    sub xs a b ++ xs.drop b = xs.drop a := by
  have : xs.drop b = (xs.drop a).drop (b - a) := by simp [List.drop_drop, h]
  rw [sub, this, List.take_append_drop]

theorem sub_append_sub (xs : List α) {a b c : ℕ} (hab : a ≤ b) (hbc : b ≤ c) :
    sub xs a b ++ sub xs b c = sub xs a c := by
  have hb : xs.drop b = (xs.drop a).drop (b - a) := by rw [List.drop_drop]; congr 1; omega
  rw [sub, sub, sub, hb, ← List.take_add]
  congr 1
  omega

theorem slice_of_le {xs : List α} {a b : ℕ} (hab : a ≤ b) (hb : b ≤ xs.length) :
    (slice xs a b : Outcome ε _) = .ok (sub xs a b) := if_pos ⟨hab, hb⟩

theorem index_of_lt {xs : List α} {i : ℕ} (h : i < xs.length) :
    (index xs i : Outcome ε α) = .ok xs[i] := by
  simp [index, Outcome.expect, List.getElem?_eq_getElem h]

theorem index_eq_getD {xs : List α} {i : ℕ} (x : α) (h : i < xs.length) :
    (index xs i : Outcome ε α) = .ok (xs.getD i x) := by
  rw [index_of_lt h, List.getD_eq_getElem?_getD, List.getElem?_eq_getElem h, Option.getD_some]

theorem toArray_of_length {n : ℕ} {xs : List UInt8} (h : xs.length = n) :
    (toArray n xs : Outcome ε _) = .ok ⟨xs, h⟩ := dif_pos h

/-- The array of the first `n` elements, padded with zeros. -/
def Bytes.ofList (n : ℕ) (xs : List UInt8) : Bytes n :=
  ⟨(xs ++ List.replicate n 0).take n, by simp⟩

@[simp] theorem Bytes.toList_ofList {n : ℕ} {xs : List UInt8} (h : xs.length = n) :
    (Bytes.ofList n xs).toList = xs := by
  subst h
  simp [Bytes.ofList]

@[simp] theorem Bytes.ofList_toList {n : ℕ} (v : Bytes n) : Bytes.ofList n v.toList = v :=
  Bytes.ext (Bytes.toList_ofList v.length_eq)

theorem toArray_eq_ofList {n : ℕ} {xs : List UInt8} (h : xs.length = n) :
    (toArray n xs : Outcome ε _) = .ok (Bytes.ofList n xs) := by
  rw [toArray_of_length h]
  congr 1
  exact Bytes.ext (Bytes.toList_ofList h).symm

theorem toArray_sub {n : ℕ} {xs : List UInt8} {a b : ℕ} (hab : a + n = b) (h : b ≤ xs.length) :
    (toArray n (sub xs a b) : Outcome ε _) = .ok (Bytes.ofList n (sub xs a b)) :=
  toArray_eq_ofList (by rw [length_sub_of_le h]; omega)

@[simp] theorem toArray_toList {n : ℕ} (v : Bytes n) :
    (toArray n v.toList : Outcome ε _) = .ok v := toArray_of_length v.length_eq

/-- A write right after what has been written so far. -/
theorem copyFromSlice_append {ws xs src : List α} {a b : ℕ} (hw : ws.length = a)
    (hs : a + src.length = b) (hx : src.length ≤ xs.length) :
    (copyFromSlice (ws ++ xs) a b src : Outcome ε _) = .ok (ws ++ src ++ xs.drop src.length) := by
  subst hw hs
  simp [copyFromSlice, List.drop_append, hx]

/-- Pieces of one length can be told apart in their concatenation. -/
theorem flatMap_injective {β : Type} {w : ℕ} {f : α → List β} (hw : 0 < w)
    (hlen : ∀ a, (f a).length = w) (hf : Function.Injective f) :
    Function.Injective fun as : List α => as.flatMap f := by
  intro as bs h
  dsimp only at h
  induction as generalizing bs with
  | nil =>
    cases bs with
    | nil => rfl
    | cons b bs =>
      have hlength := congrArg List.length h
      simp [hlen b] at hlength
      omega
  | cons a as ih =>
    cases bs with
    | nil =>
      have hlength := congrArg List.length h
      simp [hlen a] at hlength
      omega
    | cons b bs =>
      obtain ⟨hhead, htail⟩ := List.append_inj h ((hlen a).trans (hlen b).symm)
      rw [hf hhead, ih htail]

/-! ### Little-endian integers -/

/-- The number little-endian bytes spell. -/
def leNat : List UInt8 → ℕ
  | [] => 0
  | b :: bs => b.toNat + 256 * leNat bs

/-- The low `w` bytes of a number, least significant first. -/
def leBytes : ℕ → ℕ → List UInt8
  | 0, _ => []
  | w + 1, n => UInt8.ofNat n :: leBytes w (n / 256)

@[simp] theorem length_leBytes (w n : ℕ) : (leBytes w n).length = w := by
  induction w generalizing n with
  | zero => rfl
  | succ w ih => simp [leBytes, ih]

theorem leNat_lt (bs : List UInt8) : leNat bs < 256 ^ bs.length := by
  induction bs with
  | nil => simp [leNat]
  | cons b bs ih =>
    have hb := b.toNat_lt
    simp only [leNat, List.length_cons, Nat.pow_succ]
    omega

theorem leNat_leBytes (w n : ℕ) : leNat (leBytes w n) = n % 256 ^ w := by
  induction w generalizing n with
  | zero => simp [leBytes, leNat, Nat.mod_one]
  | succ w ih =>
    have hb : (UInt8.ofNat n).toNat = n % 256 := UInt8.toNat_ofNat'
    rw [leBytes, leNat, ih, hb, Nat.pow_succ, Nat.mul_comm (256 ^ w), Nat.mod_mul]

theorem leNat_leBytes_of_lt {w n : ℕ} (h : n < 256 ^ w) : leNat (leBytes w n) = n := by
  rw [leNat_leBytes, Nat.mod_eq_of_lt h]

theorem leBytes_leNat (bs : List UInt8) : leBytes bs.length (leNat bs) = bs := by
  induction bs with
  | nil => rfl
  | cons b bs ih =>
    have hb := b.toNat_lt
    have hdiv : (b.toNat + 256 * leNat bs) / 256 = leNat bs := by omega
    have hmod : UInt8.ofNat (b.toNat + 256 * leNat bs) = b := by
      apply UInt8.toNat_inj.mp
      rw [UInt8.toNat_ofNat']
      omega
    simp only [List.length_cons, leBytes, leNat, hdiv, hmod, ih]

theorem leBytes_leNat_of_length {bs : List UInt8} {w : ℕ} (h : bs.length = w) :
    leBytes w (leNat bs) = bs := h ▸ leBytes_leNat bs

/-- `u16::from_le_bytes`, `u32::from_le_bytes`, `u64::from_le_bytes`. -/
def le16 (bs : List UInt8) : UInt16 := UInt16.ofNat (leNat bs)
def le32 (bs : List UInt8) : UInt32 := UInt32.ofNat (leNat bs)
def le64 (bs : List UInt8) : UInt64 := UInt64.ofNat (leNat bs)

@[simp] theorem le16_leBytes (x : UInt16) : le16 (leBytes 2 x.toNat) = x := by
  rw [le16, leNat_leBytes_of_lt x.toNat_lt, UInt16.ofNat_toNat]

@[simp] theorem le32_leBytes (x : UInt32) : le32 (leBytes 4 x.toNat) = x := by
  rw [le32, leNat_leBytes_of_lt x.toNat_lt, UInt32.ofNat_toNat]

@[simp] theorem le64_leBytes (x : UInt64) : le64 (leBytes 8 x.toNat) = x := by
  rw [le64, leNat_leBytes_of_lt x.toNat_lt, UInt64.ofNat_toNat]

theorem toNat_le16 {bs : List UInt8} (h : bs.length = 2) : (le16 bs).toNat = leNat bs := by
  have := leNat_lt bs
  rw [h] at this
  rw [le16, UInt16.toNat_ofNat_of_lt' (by simpa using this)]

theorem toNat_le64 {bs : List UInt8} (h : bs.length = 8) : (le64 bs).toNat = leNat bs := by
  have := leNat_lt bs
  rw [h] at this
  rw [le64, UInt64.toNat_ofNat_of_lt' (by simpa [UInt64.size] using this)]

theorem toNat_le32 {bs : List UInt8} (h : bs.length = 4) : (le32 bs).toNat = leNat bs := by
  have := leNat_lt bs
  rw [h] at this
  rw [le32, UInt32.toNat_ofNat_of_lt' (by simpa [UInt32.size] using this)]

/-- `u16::from_le_bytes([xs[i], xs[i + 1]])`. -/
def u16At (xs : List UInt8) (i : ℕ) : Outcome ε UInt16 := do
  let a ← index xs i
  let b ← index xs (i + 1)
  pure (le16 [a, b])

/-- `u32::from_le_bytes(xs[a..b].try_into().unwrap())`, and the same at the other widths. -/
def u16Slice (xs : List UInt8) (a b : ℕ) : Outcome ε UInt16 := do
  let v ← toArray 2 (← slice xs a b)
  pure (le16 v.toList)

def u32Slice (xs : List UInt8) (a b : ℕ) : Outcome ε UInt32 := do
  let v ← toArray 4 (← slice xs a b)
  pure (le32 v.toList)

def u64Slice (xs : List UInt8) (a b : ℕ) : Outcome ε UInt64 := do
  let v ← toArray 8 (← slice xs a b)
  pure (le64 v.toList)

theorem u16At_of_le {xs : List UInt8} {i : ℕ} (h : i + 2 ≤ xs.length) :
    (u16At xs i : Outcome ε _) = .ok (le16 (sub xs i (i + 2))) := by
  have hs : sub xs i (i + 2) = [xs[i], xs[i + 1]] := by
    rw [sub, show i + 2 - i = 2 by omega, List.drop_eq_getElem_cons (by omega),
      List.drop_eq_getElem_cons (by omega)]
    rfl
  simp [u16At, index_of_lt (show i < xs.length by omega),
    index_of_lt (show i + 1 < xs.length by omega), hs]

theorem u16Slice_of_le {xs : List UInt8} {a b : ℕ} (hab : a + 2 = b) (h : b ≤ xs.length) :
    (u16Slice xs a b : Outcome ε _) = .ok (le16 (sub xs a b)) := by
  simp [u16Slice, slice_of_le (show a ≤ b by omega) h,
    toArray_of_length (show (sub xs a b).length = 2 by rw [length_sub_of_le h]; omega)]

theorem u32Slice_of_le {xs : List UInt8} {a b : ℕ} (hab : a + 4 = b) (h : b ≤ xs.length) :
    (u32Slice xs a b : Outcome ε _) = .ok (le32 (sub xs a b)) := by
  simp [u32Slice, slice_of_le (show a ≤ b by omega) h,
    toArray_of_length (show (sub xs a b).length = 4 by rw [length_sub_of_le h]; omega)]

theorem u64Slice_of_le {xs : List UInt8} {a b : ℕ} (hab : a + 8 = b) (h : b ≤ xs.length) :
    (u64Slice xs a b : Outcome ε _) = .ok (le64 (sub xs a b)) := by
  simp [u64Slice, slice_of_le (show a ≤ b by omega) h,
    toArray_of_length (show (sub xs a b).length = 8 by rw [length_sub_of_le h]; omega)]

/-- The bytes of a string, as `str::as_bytes` and `str::bytes` give them. -/
def utf8Bytes (cs : List Char) : List UInt8 := cs.flatMap String.utf8EncodeChar

/-- Strings with the same bytes are equal. -/
theorem utf8Bytes_injective : Function.Injective fun text : String => utf8Bytes text.toList := by
  intro s t h
  apply String.toByteArray_inj.mp
  rw [← String.utf8Encode_toList, ← String.utf8Encode_toList]
  exact congrArg List.toByteArray h

/-- `str::strip_prefix`. -/
def stripPrefix (text start : List Char) : Option (List Char) :=
  if text.take start.length = start then some (text.drop start.length) else none

theorem stripPrefix_eq_some_iff {text start rest : List Char} :
    stripPrefix text start = some rest ↔ text = start ++ rest := by
  unfold stripPrefix
  constructor
  · intro h
    split at h
    next ht =>
      rw [Option.some.injEq] at h
      rw [← h]
      conv_lhs => rw [← List.take_append_drop start.length text, ht]
    next => cases h
  · rintro rfl
    simp

end Lib
