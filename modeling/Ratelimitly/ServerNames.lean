import Mathlib.Tactic
import Ratelimitly.Lib.Text
import Ratelimitly.Discovery

/-! SRV target names and server ids correspond one to one. -/
namespace Ratelimitly

open Lib

variable {target : String} {id : UInt64} {digits : List Char}

/-- The first label of a name, once its trailing dots are stripped. -/
def firstLabel (target : String) : List Char :=
  (target.toList.rdropWhile (· == '.')).takeWhile (· != '.')

theorem firstLabel_eq (target : String) : firstLabel target = target.toList.takeWhile (· != '.') :=
  takeWhile_rdropWhile (· == '.') target.toList

/-- A number is read back from its text only, and only below `2 ^ 64`. -/
theorem parseU64_eq_some_iff (h : Decimal digits) :
    parseU64 digits = some id ↔ digits = Nat.toDigits 10 id.toNat := by
  have hvalue : parseU64 digits = if Nat.ofDigitChars 10 digits 0 < 2 ^ 64 then
      some (UInt64.ofNat (Nat.ofDigitChars 10 digits 0)) else none := rfl
  rw [hvalue]
  constructor
  · intro hid
    split at hid
    next hlt =>
      rw [← Option.some.inj hid, UInt64.toNat_ofNat_of_lt' hlt, h.toDigits_eq]
    next => cases hid
  · rintro rfl
    rw [Nat.ofDigitChars_ten_toDigits, if_pos id.toNat_lt, UInt64.ofNat_toNat]

theorem parseServerIdFromTarget_eq_some_iff_lower : parseServerIdFromTarget target = some id ↔
    (firstLabel target).map Char.toLower = 's' :: '-' :: Nat.toDigits 10 id.toNat := by
  have hparse : parseServerIdFromTarget target =
      (stripPrefix ((firstLabel target).map Char.toLower) ['s', '-']).bind fun decimal =>
        if decimal = [] then none
        else if decimal.length > 1 ∧ decimal.head? = some '0' then none
        else if ¬ decimal.all Char.isDigit then none
        else parseU64 decimal := rfl
  rw [hparse, Option.bind_eq_some_iff]
  simp only [stripPrefix_eq_some_iff]
  constructor
  · rintro ⟨decimal, hlower, hid⟩
    rw [hlower]
    split_ifs at hid with hnil hzero hdigits
    · have hdecimal : Decimal decimal := by
        refine ⟨hnil, fun hlen hhead => hzero ⟨hlen, hhead⟩, fun d hd => ?_⟩
        exact List.all_eq_true.mp hdigits d hd
      rw [(parseU64_eq_some_iff hdecimal).mp hid]
      rfl
  · intro hlower
    have hdecimal := decimal_toDigits id.toNat
    refine ⟨Nat.toDigits 10 id.toNat, hlower, ?_⟩
    rw [if_neg hdecimal.ne_nil, if_neg fun h => hdecimal.head h.1 h.2,
      if_neg (not_not.mpr (List.all_eq_true.mpr hdecimal.isDigit)), parseU64_eq_some_iff hdecimal]

/-- The id is read from the first label alone, and the label is the text of the id. -/
theorem parseServerIdFromTarget_eq_some_iff : parseServerIdFromTarget target = some id ↔
    ∃ s, (s = 's' ∨ s = 'S') ∧ firstLabel target = s :: '-' :: (decText id.toNat).toList := by
  have hdigits : ∀ d ∈ '-' :: Nat.toDigits 10 id.toNat, d.toNat < 65 := by
    intro d hd
    rcases List.mem_cons.mp hd with rfl | hd
    · decide
    · have := isDigit_iff.mp ((decimal_toDigits id.toNat).isDigit d hd)
      omega
  rw [parseServerIdFromTarget_eq_some_iff_lower, decText, String.toList_ofList]
  constructor
  · intro hlower
    obtain ⟨s, rest, hlabel, hs, hrest⟩ := List.map_eq_cons_iff.mp hlower
    rw [map_toLower_eq_iff hdigits] at hrest
    exact ⟨s, toLower_eq_s_iff.mp hs, by rw [hlabel, hrest]⟩
  · rintro ⟨s, hs, hlabel⟩
    rw [hlabel, List.map_cons, toLower_eq_s_iff.mpr hs, (map_toLower_eq_iff hdigits).mpr rfl]

/-- The name of a server: `s-` in either case and the text of its id, then the domain suffix if
there is one, and trailing dots. -/
def serverName (s : Char) (id : UInt64) (suffix : Option String) (dots : ℕ) : String :=
  String.ofList (s :: '-' :: (decText id.toNat).toList ++
    suffix.elim [] (fun suffix => '.' :: suffix.toList) ++ List.replicate dots '.')

theorem firstLabel_serverName {s : Char} (hs : s = 's' ∨ s = 'S') (id : UInt64)
    (suffix : Option String) (dots : ℕ) :
    firstLabel (serverName s id suffix dots) = s :: '-' :: (decText id.toNat).toList := by
  have hlabel : ∀ c ∈ s :: '-' :: (decText id.toNat).toList, (c != '.') = true := by
    intro c hc
    rw [decText, String.toList_ofList] at hc
    rcases List.mem_cons.mp hc with rfl | hc
    · rcases hs with rfl | rfl <;> rfl
    · rcases List.mem_cons.mp hc with rfl | hc
      · rfl
      · have hdigit := (decimal_toDigits id.toNat).isDigit c hc
        apply bne_iff_ne.mpr
        rintro rfl
        exact absurd hdigit (by decide)
  rw [firstLabel_eq, serverName, String.toList_ofList, List.append_assoc,
    List.takeWhile_append_of_pos hlabel]
  -- what follows the label is empty or starts with a dot
  have hrest : (suffix.elim [] (fun suffix => '.' :: suffix.toList) ++
      List.replicate dots '.').takeWhile (· != '.') = [] := by
    cases suffix with
    | none => cases dots <;> rfl
    | some suffix => rfl
  rw [hrest, List.append_nil]

/-- A server's name yields its id, and any name that yields an id is a name of that server. -/
theorem serverIds_named :
    (∀ s, s = 's' ∨ s = 'S' → ∀ id suffix dots,
      parseServerIdFromTarget (serverName s id suffix dots) = some id) ∧
    ∀ target id, parseServerIdFromTarget target = some id →
      ∃ s, (s = 's' ∨ s = 'S') ∧ firstLabel target = s :: '-' :: (decText id.toNat).toList := by
  refine ⟨?_, fun target id h => parseServerIdFromTarget_eq_some_iff.mp h⟩
  intro s hs id suffix dots
  exact parseServerIdFromTarget_eq_some_iff.mpr ⟨s, hs, firstLabel_serverName hs id suffix dots⟩

end Ratelimitly
