import Mathlib.Tactic
import Ratelimitly.Definitions
import Ratelimitly.RequestFormat

/-! The metrics label describes itself, and its two limits agree. -/
namespace Ratelimitly

open Lib

variable {body tlv : List UInt8} {label label' : String}

/-- `append_metrics_label_tlv` with what it leaves in the buffer that it was given. -/
def appendMetricsLabelTlvTo (pduBody : List UInt8) (label : String) :
    Outcome CoreError Unit × List UInt8 :=
  let labelBytes := utf8Bytes label.toList
  if labelBytes.length > 65535 then (.err (.protocol "Metrics label too long"), pduBody)
  else
    let bodyLen := 2 + labelBytes.length
    let padding := (4 - bodyLen % 4) % 4
    let tlvSize := 4 + bodyLen + padding
    if tlvSize > 65535 then (.err (.protocol "Metrics label TLV too large"), pduBody)
    else
      let pduBody := pduBody ++ leBytes 2 tlvMetricsLabel.toNat
      let pduBody := pduBody ++ leBytes 2 (UInt16.ofNat tlvSize).toNat
      let pduBody := pduBody ++ leBytes 2 (UInt16.ofNat labelBytes.length).toNat
      let pduBody := pduBody ++ labelBytes
      if padding > 0 then
        match (slice [0, 0, 0, 0] 0 padding : Outcome CoreError _) with
        | .ok pad => (.ok (), pduBody ++ pad)
        | .err error => (.err error, pduBody)
        | .panic => (.panic, pduBody)
      else (.ok (), pduBody)

/-- The request builder uses the buffer of a call that succeeds. -/
theorem appendMetricsLabelTlv_eq (body : List UInt8) (label : String) :
    appendMetricsLabelTlv body label =
      (appendMetricsLabelTlvTo body label).1 >>= fun _ =>
        .ok (appendMetricsLabelTlvTo body label).2 := by
  unfold appendMetricsLabelTlv appendMetricsLabelTlvTo Outcome.failIf
  dsimp only
  split
  · rfl
  · rw [Outcome.ok_bind]
    split
    · rfl
    · rw [Outcome.ok_bind]
      split
      · cases (slice [0, 0, 0, 0] 0 _ : Outcome CoreError (List UInt8)) <;> rfl
      · rfl

/-- A call that fails has written nothing. -/
theorem appendMetricsLabelTlvTo_of_gt (body : List UInt8)
    (h : 65526 < (utf8Bytes label.toList).length) :
    ∃ error, appendMetricsLabelTlvTo body label = (.err error, body) := by
  unfold appendMetricsLabelTlvTo
  dsimp only
  by_cases hlong : (utf8Bytes label.toList).length > 65535
  · exact ⟨_, if_pos hlong⟩
  · rw [if_neg hlong, if_pos (by omega)]
    exact ⟨_, rfl⟩

theorem appendMetricsLabelTlvTo_of_le (body : List UInt8)
    (h : (utf8Bytes label.toList).length ≤ 65526) :
    appendMetricsLabelTlvTo body label = (.ok (), body ++ metricsLabelTlv label) := by
  have hok := appendMetricsLabelTlv_eq_ok_iff.mpr ⟨h, (rfl : body ++ metricsLabelTlv label = _)⟩
  rw [appendMetricsLabelTlv_eq, Outcome.bind_eq_ok_iff] at hok
  obtain ⟨⟨⟩, hfst, hsnd⟩ := hok
  exact Prod.ext hfst (Outcome.ok.inj hsnd)

theorem isOk_label_iff {builder : RequestBuilder} :
    (builder.label label).isOk = true ↔ (utf8Bytes label.toList).length ≤ 65526 := by
  unfold RequestBuilder.label maxMetricsLabelLen
  split
  next h => simp [Outcome.isOk, h]
  next h => simpa [Outcome.isOk] using h

/-- The TLV `tlv` says how long it is, how long its label is, and which. -/
structure IsLabelTlv (label : String) (tlv : List UInt8) : Prop where
  type_eq : sub tlv 0 2 = leBytes 2 tlvMetricsLabel.toNat
  size_eq : leNat (sub tlv 2 4) = tlv.length
  aligned : tlv.length % 4 = 0
  fits : tlv.length < 65536
  labelLen_eq : leNat (sub tlv 4 6) = (utf8Bytes label.toList).length
  label_eq : sub tlv 6 (6 + leNat (sub tlv 4 6)) = utf8Bytes label.toList
  padding : ∃ n ≤ 3, tlv.drop (6 + leNat (sub tlv 4 6)) = List.replicate n 0

theorem metricsLabelTlv_isLabelTlv (h : (utf8Bytes label.toList).length ≤ 65526) :
    IsLabelTlv label (metricsLabelTlv label) := by
  obtain ⟨padding, hpadding, hle, hfour⟩ : ∃ padding,
      (4 - (2 + (utf8Bytes label.toList).length) % 4) % 4 = padding ∧ padding ≤ 3 ∧
        (6 + (utf8Bytes label.toList).length + padding) % 4 = 0 :=
    ⟨_, rfl, by omega, by omega⟩
  have htlv : metricsLabelTlv label = leBytes 2 0x4C4D ++
      leBytes 2 (6 + (utf8Bytes label.toList).length + padding) ++
      leBytes 2 (utf8Bytes label.toList).length ++
      (utf8Bytes label.toList ++ List.replicate padding 0) := by
    rw [metricsLabelTlv, hpadding, ← List.append_assoc]
  have hlength : (metricsLabelTlv label).length =
      6 + (utf8Bytes label.toList).length + padding := by
    rw [htlv]
    simp
    omega
  have hlabelLen : leNat (sub (metricsLabelTlv label) 4 6) = (utf8Bytes label.toList).length := by
    rw [htlv, sub_append_left _ (by simp), sub_append_right _ (by simp)]
    simp [sub_full, leNat_leBytes_of_lt (show (utf8Bytes label.toList).length < 256 ^ 2 by omega)]
  refine ⟨?_, ?_, by omega, by omega, hlabelLen, ?_, padding, hle, ?_⟩
  · rw [htlv, sub_append_left _ (by simp), sub_append_left _ (by simp),
      sub_append_left _ (by simp), sub_full (by simp)]
    rfl
  · rw [hlength, htlv, sub_append_left _ (by simp), sub_append_left _ (by simp),
      sub_append_right _ (by simp)]
    simp [sub_full, leNat_leBytes_of_lt
      (show 6 + (utf8Bytes label.toList).length + padding < 256 ^ 2 by omega)]
  · rw [hlabelLen, htlv, sub_append_right _ (by simp), sub_append_left _ (by simp)]
    exact sub_full (by simp)
  · rw [hlabelLen, htlv, ← List.append_assoc, List.drop_left' (by simp; omega)]

/-- A TLV is of one label only. -/
theorem IsLabelTlv.label_unique (h : IsLabelTlv label tlv) (h' : IsLabelTlv label' tlv) :
    label = label' := by
  apply utf8Bytes_injective
  exact h.label_eq.symm.trans h'.label_eq

/-- A label is appended iff the request builder accepts it; the appended bytes describe themselves,
and a refused label leaves the body as it was. -/
theorem metricsLabel_selfDescribing (body : List UInt8) (label : String) :
    (∀ builder : RequestBuilder, (appendMetricsLabelTlvTo body label).1 = .ok () ↔
      (builder.label label).isOk = true) ∧
    ((appendMetricsLabelTlvTo body label).1 ≠ .ok () →
      (∃ error, (appendMetricsLabelTlvTo body label).1 = .err error) ∧
        (appendMetricsLabelTlvTo body label).2 = body) ∧
    ((appendMetricsLabelTlvTo body label).1 = .ok () → ∃ tlv,
      (appendMetricsLabelTlvTo body label).2 = body ++ tlv ∧ IsLabelTlv label tlv) ∧
    ∀ body' label' tlv, appendMetricsLabelTlvTo body label = (.ok (), body ++ tlv) →
      appendMetricsLabelTlvTo body' label' = (.ok (), body' ++ tlv) → label = label' := by
  have hfits {body label} (hok : (appendMetricsLabelTlvTo body label).1 = .ok ()) :
      (utf8Bytes label.toList).length ≤ 65526 := by
    by_contra hgt
    obtain ⟨error, herror⟩ := appendMetricsLabelTlvTo_of_gt body (Nat.lt_of_not_le hgt)
    rw [herror] at hok
    cases hok
  have hisTlv {body label tlv} (hok : appendMetricsLabelTlvTo body label = (.ok (), body ++ tlv)) :
      IsLabelTlv label tlv := by
    have hle := hfits (congrArg Prod.fst hok)
    rw [appendMetricsLabelTlvTo_of_le body hle] at hok
    rw [← List.append_cancel_left (congrArg Prod.snd hok)]
    exact metricsLabelTlv_isLabelTlv hle
  refine ⟨fun builder => ?_, fun hfails => ?_, fun hok => ?_, fun body' label' tlv h h' => ?_⟩
  · rw [isOk_label_iff]
    refine ⟨hfits, fun hle => ?_⟩
    rw [appendMetricsLabelTlvTo_of_le body hle]
  · have hgt : 65526 < (utf8Bytes label.toList).length := by
      by_contra hle
      exact hfails (by rw [appendMetricsLabelTlvTo_of_le body (Nat.le_of_not_lt hle)])
    obtain ⟨error, herror⟩ := appendMetricsLabelTlvTo_of_gt body hgt
    exact ⟨⟨error, by rw [herror]⟩, by rw [herror]⟩
  · have hle := hfits hok
    exact ⟨metricsLabelTlv label, by rw [appendMetricsLabelTlvTo_of_le body hle],
      metricsLabelTlv_isLabelTlv hle⟩
  · exact (hisTlv h).label_unique (hisTlv h')

end Ratelimitly
