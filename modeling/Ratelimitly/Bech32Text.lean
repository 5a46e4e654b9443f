import Mathlib.Tactic
import Ratelimitly.Bech32Symbols

/-! Bech32 text: decoding accepts exactly what encoding yields, up to case. -/
namespace Ratelimitly

open Lib

/-! ### Characters -/

theorem valueToChar_of_charToValue {c : Char} {v : UInt8} (h : charToValue c = some v) :
    valueToChar v = some c := by
  unfold charToValue at h
  split at h <;> first | (cases h; rfl) | cases h

theorem charToValue_of_valueToChar {c : Char} {v : UInt8} (h : valueToChar v = some c) :
    charToValue c = some v ∧ v.toNat < 2 ^ 5 ∧ c ≠ '1' ∧ isPrintable c = true ∧
      c.toLower = c := by
  have hall : ∀ i : Fin 32, ("qpzry9x8gf2tvdw0s3jn54khce6mua7l".toList[i.val]?).all fun c =>
      charToValue c = some (UInt8.ofNat i.val) ∧ c ≠ '1' ∧ isPrintable c = true ∧
        c.toLower = c := by decide +kernel
  have hlt : v.toNat < 32 := by
    have := (List.getElem?_eq_some_iff.mp h).1
    exact this
  have hv := of_decide_eq_true (Option.all_eq_true _ _ |>.mp (hall ⟨v.toNat, hlt⟩) c h)
  rw [UInt8.ofNat_toNat] at hv
  exact ⟨hv.1, hlt, hv.2⟩

theorem exists_valueToChar {v : UInt8} (h : v.toNat < 2 ^ 5) : ∃ c, valueToChar v = some c := by
  have hlen : "qpzry9x8gf2tvdw0s3jn54khce6mua7l".toList.length = 32 := by decide +kernel
  exact ⟨_, List.getElem?_eq_getElem (by omega)⟩

/-- The characters of a symbol list. -/
def symbolChars (data : List UInt8) : List Char := data.filterMap valueToChar

theorem forall₂_valueToChar_iff {data : List UInt8} {chars : List Char} :
    List.Forall₂ (fun v c => valueToChar v = some c) data chars ↔
      (∀ x ∈ values data, x < 2 ^ 5) ∧ chars = symbolChars data := by
  induction data generalizing chars with
  | nil => simp [values, symbolChars]
  | cons v data ih =>
    rw [List.forall₂_cons_left_iff]
    constructor
    · rintro ⟨c, rest, hc, hrest, rfl⟩
      obtain ⟨hlt, rfl⟩ := ih.mp hrest
      have hv := (charToValue_of_valueToChar hc).2.1
      refine ⟨?_, by simp [symbolChars, hc]⟩
      simpa [values] using ⟨hv, by simpa [values] using hlt⟩
    · rintro ⟨hlt, rfl⟩
      simp only [values, List.map_cons, List.mem_cons, forall_eq_or_imp] at hlt
      obtain ⟨c, hc⟩ := exists_valueToChar hlt.1
      exact ⟨c, symbolChars data, hc, ih.mpr ⟨hlt.2, rfl⟩, by simp [symbolChars, hc]⟩

theorem mapList_valueToChar_eq_ok_iff {data : List UInt8} {chars : List Char} :
    (Outcome.mapList (fun v => .expect (valueToChar v)) data : Outcome DecodeError _) = .ok chars ↔
      (∀ x ∈ values data, x < 2 ^ 5) ∧ chars = symbolChars data := by
  rw [← forall₂_valueToChar_iff, Outcome.mapList_eq_ok_iff]
  simp only [Outcome.expect_eq_ok_iff]

theorem mapList_charToValue_eq_ok_iff {data : List UInt8} {chars : List Char} :
    Outcome.mapList (fun c => .okOr (DecodeError.invalidCharset c) (charToValue c)) chars =
        .ok data ↔ (∀ x ∈ values data, x < 2 ^ 5) ∧ chars = symbolChars data := by
  rw [← forall₂_valueToChar_iff, Outcome.mapList_eq_ok_iff]
  simp only [Outcome.okOr_eq_ok_iff]
  constructor
  · intro h
    exact (h.imp fun _ _ => valueToChar_of_charToValue).flip
  · intro h
    exact List.Forall₂.flip (h.imp fun _ _ h => (charToValue_of_valueToChar h).1)

theorem mem_symbolChars {data : List UInt8} {c : Char} (h : c ∈ symbolChars data) :
    c ≠ '1' ∧ isPrintable c = true ∧ c.toLower = c := by
  obtain ⟨v, -, hv⟩ := List.mem_filterMap.mp h
  exact (charToValue_of_valueToChar hv).2.2

theorem length_symbolChars {data : List UInt8} (h : ∀ x ∈ values data, x < 2 ^ 5) :
    (symbolChars data).length = data.length :=
  (forall₂_valueToChar_iff.mpr ⟨h, rfl⟩).length_eq.symm

/-! ### The separator -/

theorem idxOf?_append_cons {us vs : List Char} {c : Char} (h : c ∉ us) :
    (us ++ c :: vs).idxOf? c = some us.length := by
  induction us with
  | nil => simp [List.idxOf?_cons]
  | cons u us ih =>
    simp only [List.mem_cons, not_or] at h
    simp [List.idxOf?_cons, ih h.2, Ne.symm h.1]

theorem rfind_append {before after : List Char} {c : Char} (h : c ∉ after) :
    rfind (before ++ c :: after) c = some before.length := by
  rw [rfind, List.reverse_append, List.reverse_cons, List.append_assoc, List.singleton_append,
    idxOf?_append_cons (by simpa using h)]
  simp

theorem rfind_eq_some {s : List Char} {c : Char} {pos : ℕ} (h : rfind s c = some pos) :
    ∃ before after, s = before ++ c :: after ∧ c ∉ after ∧ pos = before.length := by
  have hmem : c ∈ s := by
    by_contra hn
    rw [rfind, List.idxOf?_eq_none_iff.mpr (by simpa using hn)] at h
    cases h
  obtain ⟨after, before, heq, hafter⟩ := List.eq_append_cons_of_mem (List.mem_reverse.mpr hmem)
  have hs : s = before.reverse ++ c :: after.reverse := by
    rw [← List.reverse_reverse s, heq]
    simp
  have hfind : rfind (before.reverse ++ c :: after.reverse) c = some before.reverse.length :=
    rfind_append (by simpa using hafter)
  rw [← hs, h, Option.some.injEq] at hfind
  exact ⟨_, _, hs, by simpa using hafter, hfind⟩

/-! ### Texts -/

/-- The text of a human-readable part and symbols: separator and checksum are added. -/
def bech32Text (hrp : List Char) (data : List UInt8) : List Char :=
  hrp ++ '1' :: symbolChars (data ++ createChecksum hrp data)

theorem append_createChecksum_lt (hrp : List Char) {data : List UInt8}
    (h : ∀ x ∈ values data, x < 2 ^ 5) :
    ∀ x ∈ values (data ++ createChecksum hrp data), x < 2 ^ 5 := by
  intro x hx
  rw [values_append, List.mem_append] at hx
  exact hx.elim (h x) (createChecksum_lt hrp data x)

theorem bech32Encode_eq_ok_iff {hrp text : List Char} {payload : List UInt8} :
    bech32Encode hrp payload = .ok text ↔
      hrp ≠ [] ∧ ((utf8Bytes hrp).all fun b => 33 ≤ b ∧ b ≤ 126) = true ∧
        ∃ data, convertBits payload 8 5 true = .ok data ∧
          text = bech32Text (hrp.map Char.toLower) data := by
  obtain ⟨data, pad, henc, -, -, hlt⟩ := convertBits_encode payload
  unfold bech32Encode
  dsimp only
  rw [Outcome.failIf_bind_eq_ok_iff, Outcome.failIf_bind_eq_ok_iff, henc, Outcome.ok_bind,
    Outcome.bind_eq_ok_iff, not_not]
  simp only [mapList_valueToChar_eq_ok_iff, Outcome.pure_eq, Outcome.ok.injEq, bech32Text]
  constructor
  · rintro ⟨hne, hascii, _, ⟨-, rfl⟩, rfl⟩
    exact ⟨hne, hascii, data, rfl, rfl⟩
  · rintro ⟨hne, hascii, _, rfl, rfl⟩
    exact ⟨hne, hascii, _, ⟨append_createChecksum_lt _ hlt, rfl⟩, rfl⟩

/-- The part of `bech32_decode` after the case checks, on a text with its separator located. -/
theorem decodeSymbols_eq_ok_iff {before after : List Char} {hrp : List Char}
    {payload : List UInt8} :
    (do
      let data ← Outcome.mapList
        (fun c => .okOr (DecodeError.invalidCharset c) (charToValue c)) after
      .failIf (¬ verifyChecksum before data) .checksumFailed
      let payload5 ← slice data 0 (← subUsize data.length 6)
      let payload ← convertBits payload5 5 8 false
      pure (before, payload)) = .ok (hrp, payload) ∧ 6 ≤ after.length ↔
    before = hrp ∧ ∃ data, convertBits data 5 8 false = .ok payload ∧
      after = symbolChars (data ++ createChecksum hrp data) := by
  constructor
  · rintro ⟨h, hlen⟩
    rw [Outcome.bind_eq_ok_iff] at h
    obtain ⟨data, hdata, h⟩ := h
    obtain ⟨hlt, rfl⟩ := mapList_charToValue_eq_ok_iff.mp hdata
    rw [length_symbolChars hlt] at hlen
    rw [Outcome.failIf_bind_eq_ok_iff, subUsize_of_le hlen, Outcome.ok_bind,
      slice_of_le (by omega) (by omega), Outcome.ok_bind, Outcome.bind_eq_ok_iff, not_not] at h
    obtain ⟨hverify, payload', hconv, h⟩ := h
    simp only [Outcome.pure_eq, Outcome.ok.injEq, Prod.mk.injEq] at h
    obtain ⟨rfl, rfl⟩ := h
    have hsplit : sub data 0 (data.length - 6) ++ data.drop (data.length - 6) = data := by
      rw [sub_append_drop _ (by omega), List.drop_zero]
    have hlt' : ∀ x ∈ values (sub data 0 (data.length - 6) ++ data.drop (data.length - 6)),
        x < 2 ^ 5 := by rwa [hsplit]
    simp only [values_append, List.mem_append] at hlt'
    rw [← hsplit, verifyChecksum_append_iff (fun x hx => hlt' x (.inl hx))
      (fun x hx => hlt' x (.inr hx)) (by simp; omega)] at hverify
    exact ⟨rfl, _, hconv, by rw [← hverify, hsplit]⟩
  · rintro ⟨rfl, data, hconv, rfl⟩
    have hlt := (convertBits_decode_eq_ok_iff.mp hconv).1
    have hall := append_createChecksum_lt before hlt
    have hck := length_createChecksum before data
    refine ⟨?_, by rw [length_symbolChars hall]; simp [hck]⟩
    rw [mapList_charToValue_eq_ok_iff.mpr ⟨hall, rfl⟩, Outcome.ok_bind,
      Outcome.failIf_neg (not_not.mpr ((verifyChecksum_append_iff hlt
        (createChecksum_lt before data) hck).mpr rfl)), Outcome.ok_bind,
      subUsize_of_le (by simp [hck]), Outcome.ok_bind, slice_of_le (by omega) (by omega),
      Outcome.ok_bind, List.length_append, hck, Nat.add_sub_cancel,
      sub_append_left _ le_rfl, sub_zero_length, hconv]
    rfl

theorem bech32Decode_eq_ok_iff {addr hrp : List Char} {payload : List UInt8} :
    bech32Decode addr = .ok (hrp, payload) ↔
      addr.all isPrintable = true ∧ ¬ (addr.any Char.isLower = true ∧ addr.any Char.isUpper = true) ∧
        hrp ≠ [] ∧ ∃ data, convertBits data 5 8 false = .ok payload ∧
          addr.map Char.toLower = bech32Text hrp data := by
  unfold bech32Decode
  dsimp only
  rw [Outcome.failIf_bind_eq_ok_iff, Outcome.failIf_bind_eq_ok_iff, Outcome.failIf_bind_eq_ok_iff,
    not_not]
  have hbefore (before after : List Char) :
      (slice (before ++ '1' :: after) 0 before.length : Outcome DecodeError _) = .ok before := by
    rw [slice_of_le (by omega) (by simp), sub_append_left _ le_rfl, sub_zero_length]
  have hafter (before after : List Char) :
      (slice (before ++ '1' :: after) (before.length + 1) (before ++ '1' :: after).length :
        Outcome DecodeError _) = .ok after := by
    rw [slice_of_le (by simp) le_rfl, sub_length, ← List.drop_drop, List.drop_left]
    rfl
  constructor
  · rintro ⟨-, hprint, hcase, h⟩
    refine ⟨hprint, hcase, ?_⟩
    rw [Outcome.bind_eq_ok_iff] at h
    obtain ⟨pos, hpos, h⟩ := h
    rw [Outcome.okOr_eq_ok_iff] at hpos
    obtain ⟨before, after, hs, -, rfl⟩ := rfind_eq_some hpos
    rw [hs, Outcome.failIf_bind_eq_ok_iff, subUsize_of_le (by simp), Outcome.ok_bind,
      subUsize_of_le (by simp), Outcome.ok_bind, Outcome.failIf_bind_eq_ok_iff, hbefore,
      Outcome.ok_bind, hafter, Outcome.ok_bind] at h
    obtain ⟨hne, hlen, h⟩ := h
    simp only [List.length_append, List.length_cons] at hlen
    obtain ⟨rfl, data, hconv, hafter⟩ := decodeSymbols_eq_ok_iff.mp ⟨h, by omega⟩
    refine ⟨fun hnil => hne (by simp [hnil]), data, hconv, by rw [hs, hafter, bech32Text]⟩
  · rintro ⟨hprint, hcase, hne, data, hconv, hs⟩
    rw [bech32Text] at hs
    have hsep : '1' ∉ symbolChars (data ++ createChecksum hrp data) := fun h => (mem_symbolChars h).1 rfl
    obtain ⟨h, hlen⟩ := decodeSymbols_eq_ok_iff.mpr ⟨rfl, data, hconv, rfl⟩
    refine ⟨fun hnil => ?_, hprint, hcase, ?_⟩
    · rw [hnil] at hs
      simp at hs
    · rw [hs, rfind_append hsep, Outcome.okOr, Outcome.ok_bind,
        Outcome.failIf_neg (by simpa [List.length_pos_iff, Nat.lt_one_iff] using hne),
        Outcome.ok_bind, subUsize_of_le (by simp), Outcome.ok_bind, subUsize_of_le (by simp),
        Outcome.ok_bind, Outcome.failIf_neg (by simp; omega), Outcome.ok_bind, hbefore,
        Outcome.ok_bind, hafter, Outcome.ok_bind]
      exact h

end Ratelimitly
