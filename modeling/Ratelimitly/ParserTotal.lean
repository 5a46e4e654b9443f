import Mathlib.Tactic
import Ratelimitly.ResponseFormat

/-! Parsing a datagram returns, whatever its bytes, and the peeks see what the parser sees. -/
namespace Ratelimitly

open Lib

theorem returns_peekServerId (data : List UInt8) : (peekServerId data).Returns := by
  unfold peekServerId
  refine (Outcome.returns_failIf _ _).bind fun _ hlen => ?_
  rw [Outcome.failIf_eq_ok_iff, not_lt] at hlen
  rw [u16At_of_le (by omega), Outcome.ok_bind, u16At_of_le (by omega), Outcome.ok_bind]
  refine (Outcome.returns_failIf _ _).bind fun _ _ => ?_
  rw [u64Slice_of_le rfl hlen]
  exact Outcome.returns_ok _

theorem returns_peekRequestId (data : List UInt8) : (peekRequestId data).Returns := by
  unfold peekRequestId
  refine (Outcome.returns_failIf _ _).bind fun _ hlen => ?_
  rw [Outcome.failIf_eq_ok_iff, not_lt] at hlen
  rw [u16At_of_le (by omega), Outcome.ok_bind, u16At_of_le (by omega), Outcome.ok_bind]
  refine (Outcome.returns_failIf _ _).bind fun _ _ => ?_
  rw [slice_of_le (by omega) hlen, Outcome.ok_bind, toArray_sub rfl hlen]
  exact Outcome.returns_ok _

theorem returns_parseTenantHeader (data : List UInt8) : (parseTenantHeader data).Returns := by
  unfold parseTenantHeader
  dsimp only
  refine (Outcome.returns_failIf _ _).bind fun _ hlen => ?_
  rw [Outcome.failIf_eq_ok_iff, not_lt] at hlen
  rw [u16At_of_le (by omega), Outcome.ok_bind]
  refine (Outcome.returns_failIf _ _).bind fun _ _ => ?_
  rw [u16At_of_le (by omega), Outcome.ok_bind]
  refine (Outcome.returns_failIf _ _).bind fun _ hsize => ?_
  refine (Outcome.returns_failIf _ _).bind fun _ hbody => ?_
  rw [Outcome.failIf_eq_ok_iff, not_lt] at hsize hbody
  rw [tenantTlvLen] at hsize
  rw [slice_of_le (by omega) hbody, Outcome.ok_bind,
    TenantHeader.readFromBuffer_of_le (by rw [length_sub_of_le hbody]; omega)]
  exact Outcome.returns_ok _

theorem returns_parseAuthTlvBody (crypto : Crypto) {data : List UInt8} {pos authTlvSize : ℕ}
    (h : pos + authTlvSize ≤ data.length) (authTlvType : UInt16) (authMethod : AuthMethod)
    (cookie aes : Option (Bytes 32)) :
    (parseAuthTlvBody crypto data pos authTlvSize authTlvType authMethod cookie aes).Returns := by
  have hrest : (slice data (pos + authTlvSize) data.length : Outcome CoreError _).Returns := by
    rw [slice_of_le h le_rfl]
    exact Outcome.returns_ok _
  unfold parseAuthTlvBody
  dsimp only
  split_ifs
  · exact (Outcome.returns_failIf _ _).bind fun _ _ => hrest
  · refine (Outcome.returns_failIf _ _).bind fun _ hsize => ?_
    rw [Outcome.failIf_eq_ok_iff, not_not] at hsize
    rw [slice_of_le (by omega) (by omega), Outcome.ok_bind]
    split
    · refine (Outcome.returns_okOr _ _).bind fun _ _ => ?_
      exact (Outcome.returns_failIf _ _).bind fun _ _ => hrest
    · exact hrest
  · refine (Outcome.returns_failIf _ _).bind fun _ hsize => ?_
    rw [Outcome.failIf_eq_ok_iff, not_not] at hsize
    have hbody : (sub data (pos + 4) (pos + authTlvSize)).length = 28 := by
      rw [length_sub_of_le (by omega)]
      omega
    rw [slice_of_le (by omega) (by omega), Outcome.ok_bind, slice_of_le (by omega) (by omega),
      Outcome.ok_bind, toArray_sub rfl (by omega), Outcome.ok_bind,
      slice_of_le (by omega) (by omega), Outcome.ok_bind, toArray_sub rfl (by omega),
      Outcome.ok_bind]
    refine (Outcome.returns_okOr _ _).bind fun key _ => ?_
    refine hrest.bind fun _ _ => ?_
    rw [slice_of_le (by omega) (by omega), Outcome.ok_bind]
    exact Outcome.returns_okOr _ _
  · exact Outcome.returns_err _

theorem returns_parseAuthTlv (crypto : Crypto) (data : List UInt8) (pos : ℕ)
    (authMethod : AuthMethod) (cookie aes : Option (Bytes 32)) :
    (parseAuthTlv crypto data pos authMethod cookie aes).Returns := by
  unfold parseAuthTlv
  dsimp only
  refine (Outcome.returns_failIf _ _).bind fun _ hlen => ?_
  rw [Outcome.failIf_eq_ok_iff, not_lt] at hlen
  rw [u16At_of_le (by omega), Outcome.ok_bind, u16At_of_le (by omega), Outcome.ok_bind]
  refine (Outcome.returns_failIf _ _).bind fun _ _ => ?_
  refine (Outcome.returns_failIf _ _).bind fun _ hbody => ?_
  rw [Outcome.failIf_eq_ok_iff, not_lt] at hbody
  refine (Outcome.returns_failIf _ _).bind fun _ _ => ?_
  refine (Outcome.returns_failIf _ _).bind fun _ _ => ?_
  exact returns_parseAuthTlvBody crypto hbody _ _ _ _

theorem returns_readBlocks {β : Type} {blockLen : ℕ} (tooSmall : String)
    {readFromBuffer : List UInt8 → Outcome String β} {pduBody : List UInt8}
    (hread : ∀ bs, blockLen ≤ bs.length → (readFromBuffer bs).Returns) (count pos : ℕ) :
    (readBlocks blockLen tooSmall readFromBuffer pduBody count pos).Returns := by
  induction count generalizing pos with
  | zero => exact Outcome.returns_ok _
  | succ count ih =>
    rw [readBlocks]
    refine (Outcome.returns_failIf _ _).bind fun _ hlen => ?_
    rw [Outcome.failIf_eq_ok_iff, not_lt] at hlen
    rw [slice_of_le (by omega) le_rfl, Outcome.ok_bind]
    have hblock := hread (sub pduBody pos pduBody.length) (by rw [length_sub_of_le le_rfl]; omega)
    exact hblock.mapErr.bind fun block _ => (ih _).bind fun _ _ => Outcome.returns_ok _

theorem returns_parseRateResponsePdu (pduData : List UInt8) (serverId : UInt64) (flag : Bool) :
    (parseRateResponsePdu pduData serverId flag).Returns := by
  unfold parseRateResponsePdu
  refine (Outcome.returns_failIf _ _).bind fun _ hlen => ?_
  rw [Outcome.failIf_eq_ok_iff, not_lt, pduHeaderLen] at hlen
  rw [u16At_of_le (by omega), Outcome.ok_bind]
  refine (Outcome.returns_failIf _ _).bind fun _ _ => ?_
  rw [u16At_of_le (by omega), Outcome.ok_bind]
  dsimp only
  refine (Outcome.returns_failIf _ _).bind fun _ hmin => ?_
  refine (Outcome.returns_failIf _ _).bind fun _ hsize => ?_
  rw [Outcome.failIf_eq_ok_iff, not_lt] at hmin hsize
  rw [slice_of_le hmin hsize, Outcome.ok_bind]
  refine (Outcome.returns_failIf _ _).bind fun _ hcounts => ?_
  rw [Outcome.failIf_eq_ok_iff, not_lt] at hcounts
  rw [u16At_of_le (by omega), Outcome.ok_bind, u16At_of_le (by omega), Outcome.ok_bind]
  refine (returns_readBlocks _ (fun bs h => ?_) _ _).bind fun _ _ => ?_
  · rw [GuardBlock.readFromBuffer_of_le h]
    exact Outcome.returns_ok _
  · refine (returns_readBlocks _ (fun bs h => ?_) _ _).bind fun _ _ => Outcome.returns_ok _
    rw [ResourceBlock.readFromBuffer_of_le h]
    exact Outcome.returns_ok _

theorem returns_parseRateResponseWithAuth (crypto : Crypto) (data : List UInt8)
    (authMethod : AuthMethod) (cookie aes : Option (Bytes 32)) :
    (parseRateResponseWithAuth crypto data authMethod cookie aes).Returns := by
  unfold parseRateResponseWithAuth
  refine (returns_parseTenantHeader data).bind fun _ _ => ?_
  refine (returns_parseAuthTlv crypto data _ authMethod cookie aes).bind fun _ _ => ?_
  exact returns_parseRateResponsePdu _ _ _

/-! ### Peeks -/

/-- What the checks of the peeks come to on a datagram with a tenant TLV. -/
theorem peek_checks {data : List UInt8} {header : TenantHeader} {pos : ℕ}
    (h : parseTenantHeader data = .ok (header, pos)) :
    40 ≤ data.length ∧ le16 (sub data 0 2) = tlvTenant ∧
      (le16 (sub data 2 4)).toNat = pos ∧ 40 ≤ pos ∧ pos ≤ data.length ∧
      header.keyId = le64 (sub data 4 12) ∧ header.uniqueId = .ofList 16 (sub data 12 28) := by
  obtain ⟨hpos, ⟨htype, hsize, hge⟩, rfl⟩ := parseTenantHeader_eq_ok_iff.mp h
  rw [List.length_take_of_le hpos] at hsize hge
  have hsub (a b : ℕ) (hb : b ≤ 40) : sub (data.take pos) a b = sub data a b := by
    rw [show data.take pos = sub data 0 pos by simp [sub], sub_of_sub _ (by omega)]
    simp
  rw [hsub _ _ (by omega)] at htype hsize
  refine ⟨by omega, (le16_eq_iff (length_sub_of_le (by omega))).mpr htype, ?_, hge, hpos, ?_, ?_⟩
  · rw [toNat_le16 (length_sub_of_le (by omega)), hsize]
  · simp only [TenantHeader.ofBytes, hsub 4 12 (by omega)]
  · simp only [TenantHeader.ofBytes, hsub 12 28 (by omega)]

theorem peekServerId_of_header {data : List UInt8} {header : TenantHeader} {pos : ℕ}
    (h : parseTenantHeader data = .ok (header, pos)) : peekServerId data = .ok header.keyId := by
  obtain ⟨hlen, htype, hsize, hge, hle, hkey, -⟩ := peek_checks h
  rw [peekServerId, Outcome.failIf_neg (by omega), Outcome.ok_bind, u16At_of_le (by omega),
    Outcome.ok_bind, u16At_of_le (by omega), Outcome.ok_bind]
  simp only [Nat.zero_add, Nat.reduceAdd, htype, hsize, ne_eq, not_true_eq_false, false_or]
  rw [Outcome.failIf_neg (by omega), Outcome.ok_bind, u64Slice_of_le rfl (by omega), hkey]

theorem peekRequestId_of_header {data : List UInt8} {header : TenantHeader} {pos : ℕ}
    (h : parseTenantHeader data = .ok (header, pos)) :
    peekRequestId data = .ok header.uniqueId := by
  obtain ⟨hlen, htype, hsize, hge, hle, -, hid⟩ := peek_checks h
  rw [peekRequestId, Outcome.failIf_neg (by omega), Outcome.ok_bind, u16At_of_le (by omega),
    Outcome.ok_bind, u16At_of_le (by omega), Outcome.ok_bind]
  simp only [Nat.zero_add, Nat.reduceAdd, htype, hsize, ne_eq, not_true_eq_false, false_or]
  rw [Outcome.failIf_neg (by omega), Outcome.ok_bind, slice_of_le (by omega) (by omega),
    Outcome.ok_bind, toArray_sub rfl (by omega), hid]

/-- An accepted datagram has a tenant header, and its result carries that header's server id. -/
theorem exists_header_of_parse {crypto : Crypto} {data : List UInt8} {authMethod : AuthMethod}
    {cookie aes : Option (Bytes 32)} {result : RateLimitResult}
    (h : parseRateResponseWithAuth crypto data authMethod cookie aes = .ok result) :
    ∃ header pos, parseTenantHeader data = .ok (header, pos) ∧
      result.serverId = header.keyId := by
  simp only [parseRateResponseWithAuth, Outcome.bind_eq_ok_iff, Prod.exists] at h
  obtain ⟨header, pos, hheader, p, -, h⟩ := h
  refine ⟨header, pos, hheader, ?_⟩
  simp only [parseRateResponsePdu, Outcome.bind_eq_ok_iff, Outcome.pure_eq, Outcome.ok.injEq] at h
  obtain ⟨-, -, -, -, -, -, -, -, -, -, -, -, -, -, -, -, -, -, -, -, -, -, -, -, rfl⟩ := h
  rfl

end Ratelimitly
