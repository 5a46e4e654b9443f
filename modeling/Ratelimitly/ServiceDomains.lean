import Mathlib.Tactic
import Ratelimitly.Error
import Ratelimitly.Lib.Text

/-! The DNS names that a builder accepts as service domains. -/
namespace Ratelimitly

open Lib

def isAsciiAlphanumeric (byte : UInt8) : Bool :=
  (48 ≤ byte && byte ≤ 57) || (65 ≤ byte && byte ≤ 90) || (97 ≤ byte && byte ≤ 122)

/-- The check of one label of a DNS name. -/
def validLabel (label : List Char) : Bool :=
  label ≠ [] ∧ (utf8Bytes label).length ≤ 63 ∧ label.head? ≠ some '-' ∧ label.getLast? ≠ some '-' ∧
    (utf8Bytes label).all fun byte => isAsciiAlphanumeric byte || byte = 45

def validDnsName (domain : String) : Bool :=
  let text := domain.toList
  if text = [] ∨ (utf8Bytes text).length > 253 ∨ text.head? = some '.' ∨
      text.getLast? = some '.' then
    false
  else (text.splitOn '.').all validLabel

/-- The domain that `Client::builder` derives from the key. -/
def defaultDomain (keyId : UInt64) : String := "c-" ++ decText keyId.toNat ++ ".p0.ratelimitly.com"

/-! ### What is accepted -/

variable {label : List Char} {labels : List (List Char)} {domain : String}

/-- A label of a host name. -/
structure Label (label : List Char) : Prop where
  ne_nil : label ≠ []
  length_le : label.length ≤ 63
  head : label.head? ≠ some '-'
  last : label.getLast? ≠ some '-'
  chars : ∀ c ∈ label, c.isAlphanum ∨ c = '-'

/-- Labels that are separated by dots. -/
structure HostName (text : List Char) (labels : List (List Char)) : Prop where
  ne_nil : labels ≠ []
  text_eq : text = ['.'].intercalate labels
  labels : ∀ label ∈ labels, Label label
  length_le : text.length ≤ 253

theorem utf8Size_eq_one_iff {c : Char} : c.utf8Size = 1 ↔ c.toNat < 128 := by
  rw [Char.utf8Size_eq_one_iff, UInt32.le_iff_toNat_le]
  exact Nat.lt_succ_iff.symm

/-- The characters of labels, by their codes. -/
theorem labelChar_iff {c : Char} : c.isAlphanum ∨ c = '-' ↔ 48 ≤ c.toNat ∧ c.toNat ≤ 57 ∨
    65 ≤ c.toNat ∧ c.toNat ≤ 90 ∨ 97 ≤ c.toNat ∧ c.toNat ≤ 122 ∨ c.toNat = 45 := by
  have hdash : c = '-' ↔ c.toNat = 45 := by
    rw [← Char.toNat_inj]
    rfl
  have halphanum : c.isAlphanum ↔ (c.isUpper || c.isLower || c.isDigit) = true := Iff.rfl
  rw [halphanum, Bool.or_eq_true, Bool.or_eq_true, isUpper_iff, isLower_iff, isDigit_iff, hdash]
  omega

theorem labelByte_iff {byte : UInt8} : (isAsciiAlphanumeric byte || byte = 45) = true ↔
    48 ≤ byte.toNat ∧ byte.toNat ≤ 57 ∨ 65 ≤ byte.toNat ∧ byte.toNat ≤ 90 ∨
      97 ≤ byte.toNat ∧ byte.toNat ≤ 122 ∨ byte.toNat = 45 := by
  simp [isAsciiAlphanumeric, UInt8.le_iff_toNat_le, ← UInt8.toNat_inj, or_assoc]

/-- The bytes of a label are checked as its characters would be. -/
theorem labelBytes_iff : (utf8Bytes label).all (fun byte => isAsciiAlphanumeric byte || byte = 45) =
    true ↔ ∀ c ∈ label, c.isAlphanum ∨ c = '-' := by
  rw [List.all_eq_true, all_utf8Bytes_iff fun byte h => by rw [labelByte_iff] at h; omega]
  refine forall₂_congr fun c _ => ?_
  have hval : c.toNat < 128 → c.val.toUInt8.toNat = c.toNat := fun hlt => by
    rw [UInt32.toNat_toUInt8]
    exact Nat.mod_eq_of_lt (show c.toNat < 256 by omega)
  rw [utf8Size_eq_one_iff, labelByte_iff, labelChar_iff]
  constructor
  · rintro ⟨hlt, h⟩
    rw [hval hlt] at h
    exact h
  · intro h
    have hlt : c.toNat < 128 := by omega
    rw [hval hlt]
    exact ⟨hlt, h⟩

theorem utf8Size_of_label {c : Char} (h : c.isAlphanum ∨ c = '-') : c.utf8Size = 1 := by
  rw [labelChar_iff] at h
  exact utf8Size_eq_one_iff.mpr (by omega)

theorem validLabel_iff : validLabel label = true ↔ Label label := by
  have hlength (h : ∀ c ∈ label, c.isAlphanum ∨ c = '-') :
      (utf8Bytes label).length = label.length :=
    length_utf8Bytes_of_ascii fun c hc => utf8Size_of_label (h c hc)
  rw [validLabel, decide_eq_true_iff, labelBytes_iff]
  constructor
  · rintro ⟨hne, hle, hhead, hlast, hchars⟩
    exact ⟨hne, hlength hchars ▸ hle, hhead, hlast, hchars⟩
  · rintro ⟨hne, hle, hhead, hlast, hchars⟩
    exact ⟨hne, (hlength hchars).symm ▸ hle, hhead, hlast, hchars⟩

theorem Label.dot_not_mem (h : Label label) : '.' ∉ label := by
  intro hmem
  have hdot := labelChar_iff.mp (h.chars _ hmem)
  revert hdot
  decide

/-- Joined labels begin and end as labels do. -/
theorem intercalate_ends (hne : labels ≠ []) (h : ∀ label ∈ labels, label ≠ []) :
    ∃ first ∈ labels, ∃ last ∈ labels, (['.'].intercalate labels).head? = first.head? ∧
      (['.'].intercalate labels).getLast? = last.getLast? := by
  induction labels with
  | nil => exact absurd rfl hne
  | cons label labels ih =>
    have hlabel : label ≠ [] := h label List.mem_cons_self
    cases labels with
    | nil => exact ⟨label, List.mem_cons_self, label, List.mem_cons_self, by simp, by simp⟩
    | cons label' rest =>
      obtain ⟨-, -, last, hlast, -, heq⟩ := ih (by simp) fun l hl => h l (List.mem_cons_of_mem _ hl)
      refine ⟨label, List.mem_cons_self, last, List.mem_cons_of_mem _ hlast, ?_, ?_⟩
      · rw [List.intercalate_cons_cons, List.append_assoc, List.head?_append_of_ne_nil _ hlabel]
      · have hsome : (['.'].intercalate (label' :: rest)).getLast? ≠ none := by
          rw [heq, ne_eq, List.getLast?_eq_none_iff]
          exact h last (List.mem_cons_of_mem _ hlast)
        rw [List.intercalate_cons_cons, List.getLast?_append, heq]
        rw [heq] at hsome
        obtain ⟨c, hc⟩ := Option.ne_none_iff_exists'.mp hsome
        rw [hc, Option.some_or]

theorem mem_intercalate {c : Char} (h : c ∈ ['.'].intercalate labels) :
    c = '.' ∨ ∃ label ∈ labels, c ∈ label := by
  induction labels with
  | nil => simp at h
  | cons label labels ih =>
    cases labels with
    | nil => exact .inr ⟨label, List.mem_cons_self, by simpa using h⟩
    | cons label' rest =>
      rw [List.intercalate_cons_cons, List.mem_append, List.mem_append, List.mem_singleton] at h
      rcases h with (h | h) | h
      · exact .inr ⟨label, List.mem_cons_self, h⟩
      · exact .inl h
      · refine (ih h).imp_right fun ⟨l, hl, hc⟩ => ⟨l, List.mem_cons_of_mem _ hl, hc⟩

/-- Joined labels are ASCII text. -/
theorem length_utf8Bytes_intercalate (h : ∀ label ∈ labels, Label label) :
    (utf8Bytes (['.'].intercalate labels)).length = (['.'].intercalate labels).length := by
  refine length_utf8Bytes_of_ascii fun c hc => ?_
  rcases mem_intercalate hc with rfl | ⟨label, hlabel, hmem⟩
  · rfl
  · exact utf8Size_of_label ((h label hlabel).chars c hmem)

/-- A name is accepted if and only if it consists of labels of letters, digits and inner hyphens. -/
theorem validDnsName_iff :
    validDnsName domain = true ↔ ∃ labels, HostName domain.toList labels := by
  unfold validDnsName
  generalize domain.toList = text
  dsimp only
  constructor
  · intro h
    split at h
    · cases h
    next hends =>
      have hlength : (utf8Bytes text).length ≤ 253 := by
        by_contra hgt
        exact hends (.inr (.inl (not_le.mp hgt)))
      have hlabels : ∀ label ∈ text.splitOn '.', Label label := fun label hl =>
        validLabel_iff.mp (List.all_eq_true.mp h label hl)
      have htext : text = ['.'].intercalate (text.splitOn '.') :=
        (List.intercalate_splitOn '.').symm
      refine ⟨text.splitOn '.', List.splitOn_ne_nil _ _, htext, hlabels, ?_⟩
      have hsize := length_utf8Bytes_intercalate hlabels
      rw [← htext] at hsize
      exact hsize ▸ hlength
  · rintro ⟨labels, hne, rfl, hlabels, hlength⟩
    obtain ⟨first, hfirst, last, hlast, hhead, htail⟩ :=
      intercalate_ends hne fun label hl => (hlabels label hl).ne_nil
    have hdots : ∀ label ∈ labels, '.' ∉ label := fun label hl => (hlabels label hl).dot_not_mem
    rw [if_neg, List.splitOn_intercalate '.' hdots hne, List.all_eq_true]
    · exact fun label hl => validLabel_iff.mpr (hlabels label hl)
    · rintro (hnil | hlong | hstart | hend)
      · rw [hnil, List.head?_nil, eq_comm, List.head?_eq_none_iff] at hhead
        exact (hlabels first hfirst).ne_nil hhead
      · rw [length_utf8Bytes_intercalate hlabels] at hlong
        omega
      · exact hdots first hfirst (List.mem_of_mem_head? (hhead ▸ hstart))
      · exact hdots last hlast (List.mem_of_getLast? (htail ▸ hend))

instance (label : List Char) : Decidable (Label label) :=
  decidable_of_iff _ validLabel_iff

/-- The first label of the derived domain. -/
theorem label_keyId (keyId : UInt64) : Label ("c-".toList ++ Nat.toDigits 10 keyId.toNat) := by
  have hdecimal := decimal_toDigits keyId.toNat
  have hlength : (Nat.toDigits 10 keyId.toNat).length ≤ 20 :=
    (Nat.length_toDigits_le_iff (by decide) (by decide)).mpr (keyId.toNat_lt.trans (by decide))
  refine ⟨by simp, by simp; omega, by simp, ?_, ?_⟩
  · intro hlast
    rw [List.getLast?_append_of_ne_nil _ hdecimal.ne_nil] at hlast
    have hdigit := hdecimal.isDigit _ (List.mem_of_getLast? hlast)
    revert hdigit
    decide
  · intro c hc
    rcases List.mem_append.mp hc with hc | hc
    · rw [show "c-".toList = ['c', '-'] from rfl] at hc
      rcases List.mem_pair.mp hc with rfl | rfl <;> decide
    · exact .inl (by simp [Char.isAlphanum, hdecimal.isDigit c hc])

theorem hostName_defaultDomain (keyId : UInt64) : HostName (defaultDomain keyId).toList
    ["c-".toList ++ Nat.toDigits 10 keyId.toNat, "p0".toList, "ratelimitly".toList,
      "com".toList] := by
  have hlength : (Nat.toDigits 10 keyId.toNat).length ≤ 20 :=
    (Nat.length_toDigits_le_iff (by decide) (by decide)).mpr (keyId.toNat_lt.trans (by decide))
  have htext : (defaultDomain keyId).toList =
      "c-".toList ++ Nat.toDigits 10 keyId.toNat ++ ".p0.ratelimitly.com".toList := by
    simp [defaultDomain, decText]
  refine ⟨by simp, ?_, ?_, ?_⟩
  · rw [htext]
    simp [List.intercalate_cons_cons]
  · have hrest : ∀ label ∈ ["p0".toList, "ratelimitly".toList, "com".toList], Label label := by
      decide
    exact List.forall_mem_cons.mpr ⟨label_keyId keyId, hrest⟩
  · rw [htext]
    simp
    omega

/-- The derived domain is one that `service_domain` would accept, whatever the key. -/
theorem validDnsName_defaultDomain (keyId : UInt64) : validDnsName (defaultDomain keyId) = true :=
  validDnsName_iff.mpr ⟨_, hostName_defaultDomain keyId⟩

end Ratelimitly
