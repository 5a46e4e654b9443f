import Mathlib.Tactic
import Ratelimitly.ResponseParser

/-! The format of a rate response, and that the parser accepts exactly this format. -/
namespace Ratelimitly

open Lib

/-! ### The format -/

structure IsTenantTlv (T : List UInt8) : Prop where
  type_eq : sub T 0 2 = leBytes 2 0x4C52
  size_eq : leNat (sub T 2 4) = T.length
  size_ge : 40 ≤ T.length

/-- `A` is the auth TLV of the configured method, and the bytes `P` behind it yield the PDU `p`. -/
inductive Authenticated (crypto : Crypto) (T : List UInt8) :
    AuthMethod → (A P p : List UInt8) → Prop
  | none (P : List UInt8) : Authenticated crypto T .none (leBytes 2 0x414E ++ leBytes 2 4) P P
  | cookie (secret : Bytes 32) (P : List UInt8) :
    Authenticated crypto T (.cookie secret) (leBytes 2 0x4143 ++ leBytes 2 36 ++ secret.toList) P P
  | aesGcm (key : Bytes 32) (nonce : Bytes 12) (tag : Bytes 16) (P p : List UInt8)
      (hopen : crypto.decrypt key nonce (P ++ tag.toList)
        (T ++ (leBytes 2 0x4541 ++ leBytes 2 32 ++ nonce.toList)) = some p) :
    Authenticated crypto T (.aesGcm key)
      (leBytes 2 0x4541 ++ leBytes 2 32 ++ nonce.toList ++ tag.toList) P p

/-- The size field, and the guard and resource counts, of a PDU. -/
def pduSize (p : List UInt8) : ℕ := leNat (sub p 2 4)
def guardCount (p : List UInt8) : ℕ := leNat (sub p 8 10)
def resourceCount (p : List UInt8) : ℕ := leNat (sub p 10 12)

structure IsRateResponse (p : List UInt8) : Prop where
  type_eq : sub p 0 2 = leBytes 2 0x5252
  size_ge : 12 ≤ pduSize p
  size_le : pduSize p ≤ p.length
  blocks_le : 12 + 36 * guardCount p + 28 * resourceCount p ≤ pduSize p

/-- The guard and resource blocks in wire order. -/
def guardBlocks (p : List UInt8) : List GuardBlock :=
  (List.range (guardCount p)).map fun i => .ofBytes (p.drop (12 + 36 * i))

def resourceBlocks (p : List UInt8) : List ResourceBlock :=
  (List.range (resourceCount p)).map fun i =>
    .ofBytes (p.drop (12 + 36 * guardCount p + 28 * i))

/-- The result a datagram with tenant TLV `T` and PDU `p` denotes. -/
def responseOf (T p : List UInt8) : RateLimitResult where
  success :=
    (guardBlocks p).all (fun block => block.currentLatency < block.latencyThreshold) &&
      (resourceBlocks p).all fun block => block.tokensRequested == 0
  guardResults := (guardBlocks p).map GuardBlock.toResult
  resourceResults := (resourceBlocks p).map ResourceBlock.toResult
  serverId := le64 (sub T 4 12)
  steeringFeedback := T.getD 36 0 ≠ 0

/-! ### The tenant TLV -/

theorem le16_eq_iff {bs : List UInt8} (h : bs.length = 2) {x : UInt16} :
    le16 bs = x ↔ bs = leBytes 2 x.toNat := by
  constructor
  · rintro rfl
    rw [toNat_le16 h, ← h, leBytes_leNat]
  · rintro rfl
    exact le16_leBytes x

theorem parseTenantHeader_eq_ok_iff {data : List UInt8} {header : TenantHeader} {pos : ℕ} :
    parseTenantHeader data = .ok (header, pos) ↔
      pos ≤ data.length ∧ IsTenantTlv (data.take pos) ∧ header = .ofBytes (data.take pos) := by
  have hsub {k : ℕ} (hk : k ≤ 40) (hp : 40 ≤ pos) (a : ℕ) : sub (data.take pos) a k = sub data a k := by
    simp only [sub, List.drop_take, List.take_take]
    congr 1
    omega
  constructor
  · intro h
    rw [parseTenantHeader, Outcome.failIf_bind_eq_ok_iff] at h
    obtain ⟨hlen, h⟩ := h
    rw [u16At_of_le (by omega), Outcome.ok_bind, Outcome.failIf_bind_eq_ok_iff,
      u16At_of_le (by omega), Outcome.ok_bind, Outcome.failIf_bind_eq_ok_iff,
      Outcome.failIf_bind_eq_ok_iff, toNat_le16 (length_sub_of_le (by omega))] at h
    obtain ⟨htype, hsize, hbody, h⟩ := h
    simp only [tenantTlvLen, Nat.zero_add, Nat.not_lt, not_not] at htype hsize hbody h
    rw [slice_of_le (by omega) hbody, Outcome.ok_bind,
      TenantHeader.readFromBuffer_of_le (by rw [length_sub_of_le hbody]; omega)] at h
    simp only [Outcome.mapErr, Outcome.ok_bind, Outcome.pure_eq, Outcome.ok.injEq,
      Prod.mk.injEq] at h
    obtain ⟨rfl, rfl⟩ := h
    have htake : sub data 0 (leNat (sub data 2 4)) = data.take (leNat (sub data 2 4)) := by
      simp [sub]
    refine ⟨hbody, ⟨?_, ?_, ?_⟩, ?_⟩
    · rw [hsub (by omega) hsize]
      exact (le16_eq_iff (length_sub_of_le (by omega))).mp htype
    · rw [hsub (by omega) hsize, List.length_take_of_le hbody]
    · rwa [List.length_take_of_le hbody]
    · rw [htake]
  · rintro ⟨hpos, ⟨htype, hsize, hge⟩, rfl⟩
    rw [List.length_take_of_le hpos] at hsize hge
    rw [hsub (by omega) hge] at htype hsize
    rw [parseTenantHeader, Outcome.failIf_bind_eq_ok_iff]
    refine ⟨by omega, ?_⟩
    rw [u16At_of_le (by omega), Outcome.ok_bind, Outcome.failIf_bind_eq_ok_iff,
      u16At_of_le (by omega), Outcome.ok_bind, Outcome.failIf_bind_eq_ok_iff,
      Outcome.failIf_bind_eq_ok_iff, toNat_le16 (length_sub_of_le (by omega))]
    simp only [Nat.zero_add, hsize, tenantTlvLen, not_not, Nat.not_lt]
    refine ⟨(le16_eq_iff (length_sub_of_le (by omega))).mpr htype, hge, hpos, ?_⟩
    rw [slice_of_le (by omega) hpos, Outcome.ok_bind,
      TenantHeader.readFromBuffer_of_le (by rw [length_sub_of_le hpos]; omega)]
    simp [Outcome.mapErr, sub]

/-! ### The auth TLV -/

/-- The checks before the method-specific part: a TLV of the expected type, with `P` behind it. -/
theorem parseAuthTlv_eq_ok_iff_body {crypto : Crypto} {data p : List UInt8} {pos : ℕ}
    {authMethod : AuthMethod} {cookie aes : Option (Bytes 32)} :
    parseAuthTlv crypto data pos authMethod cookie aes = .ok p ↔
      ∃ body P, 4 + body.length < 65536 ∧
        data.drop pos = leBytes 2 (expectedAuthType authMethod).toNat ++
          leBytes 2 (4 + body.length) ++ (body ++ P) ∧
        parseAuthTlvBody crypto data pos (4 + body.length) (expectedAuthType authMethod)
          authMethod cookie aes = .ok p := by
  by_cases hlen : pos + 4 ≤ data.length
  · have h2 : (sub data pos (pos + 2)).length = 2 := by rw [length_sub_of_le] <;> omega
    have h4 : (sub data (pos + 2) (pos + 4)).length = 2 := by rw [length_sub_of_le] <;> omega
    rw [parseAuthTlv, Outcome.failIf_neg (by omega), Outcome.ok_bind, u16At_of_le (by omega),
      Outcome.ok_bind, u16At_of_le (by omega), Outcome.ok_bind, Outcome.failIf_bind_eq_ok_iff,
      Outcome.failIf_bind_eq_ok_iff, Outcome.failIf_bind_eq_ok_iff, Outcome.failIf_bind_eq_ok_iff,
      toNat_le16 h4, not_not]
    constructor
    · rintro ⟨hsize, hbody, htype, -, h⟩
      generalize hs : leNat (sub data (pos + 2) (pos + 4)) = size at hsize hbody h
      have hlt := leNat_lt (sub data (pos + 2) (pos + 4))
      have hb : 4 + (sub data (pos + 4) (pos + size)).length = size := by
        rw [length_sub_of_le (by omega)]
        omega
      refine ⟨sub data (pos + 4) (pos + size), data.drop (pos + size), ?_, ?_, ?_⟩
      · rw [h4] at hlt
        omega
      · rw [hb, ← (le16_eq_iff h2).mp htype, ← hs, leBytes_leNat_of_length h4, hs,
          sub_append_sub _ (by omega) (by omega), sub_append_drop _ (by omega),
          sub_append_drop _ (by omega)]
      · rwa [hb, ← htype]
    · rintro ⟨body, P, hlt, hd, h⟩
      have htype : sub data pos (pos + 2) = leBytes 2 (expectedAuthType authMethod).toNat := by
        rw [← Nat.add_zero pos, Nat.add_assoc, ← sub_drop, hd]
        simp [sub_append_left, sub_full]
      have hsize : leNat (sub data (pos + 2) (pos + 4)) = 4 + body.length := by
        rw [← sub_drop, hd]
        simp [sub_append_left, sub_append_right, sub_full]
        rw [leNat_leBytes_of_lt (by omega)]
      have hl := congrArg List.length hd
      simp only [List.length_drop, List.length_append, length_leBytes] at hl
      rw [hsize, (le16_eq_iff h2).mpr htype]
      exact ⟨by omega, by omega, rfl, by omega, h⟩
  · rw [parseAuthTlv, Outcome.failIf_pos (by omega)]
    simp only [Outcome.err_bind, reduceCtorEq, false_iff]
    rintro ⟨body, P, hlt, hd, -⟩
    have hl := congrArg List.length hd
    simp only [List.length_drop, List.length_append, length_leBytes] at hl
    omega

section AuthTlvBody

variable {crypto : Crypto} {data header body P p : List UInt8} {pos : ℕ}
  (hd : data.drop pos = header ++ (body ++ P)) (hh : header.length = 4)
include hd hh

theorem length_of_tlv : data.length = pos + 4 + body.length + P.length := by
  have hl := congrArg List.length hd
  simp only [List.length_drop, List.length_append, hh] at hl
  omega

theorem slice_tlv_body :
    (slice data (pos + 4) (pos + (4 + body.length)) : Outcome CoreError _) = .ok body := by
  have hlen := length_of_tlv hd hh
  rw [slice_of_le (by omega) (by omega), ← sub_drop, hd, sub_append_right _ (by omega),
    sub_append_left _ (by omega), hh, Nat.sub_self, Nat.add_sub_cancel_left, sub_zero_length]

theorem slice_tlv_rest :
    (slice data (pos + (4 + body.length)) data.length : Outcome CoreError _) = .ok P := by
  have hlen := length_of_tlv hd hh
  rw [slice_of_le (by omega) le_rfl, sub_length, ← List.drop_drop, hd, ← List.append_assoc,
    List.drop_left' (by simp [hh])]

theorem parseAuthTlvBody_none {cookie aes : Option (Bytes 32)} :
    parseAuthTlvBody crypto data pos (4 + body.length) tlvAuthNone .none cookie aes = .ok p ↔
      body = [] ∧ P = p := by
  rw [parseAuthTlvBody]
  simp only [if_true, Outcome.failIf_bind_eq_ok_iff, slice_tlv_rest hd hh]
  simp

theorem parseAuthTlvBody_cookie {secret : Bytes 32} {aes : Option (Bytes 32)} :
    parseAuthTlvBody crypto data pos (4 + body.length) tlvAuthCookie (.cookie secret) (some secret)
      aes = .ok p ↔ body = secret.toList ∧ P = p := by
  rw [parseAuthTlvBody]
  simp only [if_neg (show ¬ tlvAuthCookie = tlvAuthNone by decide), if_true,
    Outcome.failIf_bind_eq_ok_iff, slice_tlv_rest hd hh, slice_tlv_body hd hh, Outcome.ok_bind,
    Outcome.okOr, not_not, Outcome.ok.injEq]
  constructor
  · rintro ⟨-, h⟩
    exact h
  · rintro ⟨rfl, rfl⟩
    simp

omit hd hh in
theorem exists_nonce_tag (hb : body.length = 28) :
    ∃ (nonce : Bytes 12) (tag : Bytes 16), body = nonce.toList ++ tag.toList :=
  ⟨⟨body.take 12, by simp [hb]⟩, ⟨body.drop 12, by simp [hb]⟩, (List.take_append_drop 12 body).symm⟩

/-- The additional data: everything up to and including the nonce. -/
theorem sub_aad {nonce : Bytes 12} {rest : List UInt8} (hbody : body = nonce.toList ++ rest) :
    sub data 0 (pos + 4 + 12) = data.take pos ++ (header ++ nonce.toList) := by
  have hlen := length_of_tlv hd hh
  have htake : (data.take pos).length = pos := List.length_take_of_le (by omega)
  have hdata : data = data.take pos ++ (header ++ nonce.toList) ++ (rest ++ P) := by
    conv_lhs => rw [← List.take_append_drop pos data, hd, hbody]
    simp only [List.append_assoc]
  conv_lhs => rw [hdata]
  rw [sub_append_left _ (by simp [hh]; omega), sub_full (by simp [hh]; omega)]

theorem parseAuthTlvBody_eq_decrypt {key : Bytes 32} {cookie : Option (Bytes 32)}
    {nonce : Bytes 12} {tag : Bytes 16} (hbody : body = nonce.toList ++ tag.toList) :
    parseAuthTlvBody crypto data pos (4 + body.length) tlvAuthAes (.aesGcm key) cookie (some key) =
      .okOr (.protocol "AES decryption failed")
        (crypto.decrypt key nonce (P ++ tag.toList) (data.take pos ++ (header ++ nonce.toList))) := by
  have hlen := length_of_tlv hd hh
  have hl : body.length = 28 := by simp [hbody]
  have hnonce : sub body 0 12 = nonce.toList := by
    rw [hbody, sub_append_left _ (by simp), sub_full (by simp)]
  have htag : sub body 12 28 = tag.toList := by
    rw [hbody, sub_append_right _ (by simp)]
    simp [sub_full]
  rw [parseAuthTlvBody]
  simp only [if_neg (show ¬ tlvAuthAes = tlvAuthNone by decide),
    if_neg (show ¬ tlvAuthAes = tlvAuthCookie by decide), if_true, slice_tlv_rest hd hh,
    slice_tlv_body hd hh, Outcome.ok_bind]
  rw [Outcome.failIf_neg (by omega), Outcome.ok_bind, slice_of_le (by omega) (by omega),
    Outcome.ok_bind, hnonce, toArray_toList, Outcome.ok_bind, slice_of_le (by omega) (by omega),
    Outcome.ok_bind, htag, toArray_toList, Outcome.ok_bind, Outcome.okOr, Outcome.ok_bind,
    slice_of_le (by omega) (by omega), Outcome.ok_bind, sub_aad hd hh hbody, decryptPdu]

theorem parseAuthTlvBody_aesGcm {key : Bytes 32} {cookie : Option (Bytes 32)} :
    parseAuthTlvBody crypto data pos (4 + body.length) tlvAuthAes (.aesGcm key) cookie (some key) =
      .ok p ↔ ∃ (nonce : Bytes 12) (tag : Bytes 16), body = nonce.toList ++ tag.toList ∧
        crypto.decrypt key nonce (P ++ tag.toList) (data.take pos ++ (header ++ nonce.toList)) =
          some p := by
  constructor
  · intro h
    have hl : body.length = 28 := by
      rw [parseAuthTlvBody] at h
      simp only [if_neg (show ¬ tlvAuthAes = tlvAuthNone by decide),
        if_neg (show ¬ tlvAuthAes = tlvAuthCookie by decide), if_true,
        Outcome.failIf_bind_eq_ok_iff] at h
      omega
    obtain ⟨nonce, tag, hbody⟩ := exists_nonce_tag hl
    rw [parseAuthTlvBody_eq_decrypt hd hh hbody, Outcome.okOr_eq_ok_iff] at h
    exact ⟨nonce, tag, hbody, h⟩
  · rintro ⟨nonce, tag, hbody, h⟩
    rw [parseAuthTlvBody_eq_decrypt hd hh hbody, h, Outcome.okOr]

end AuthTlvBody

theorem parseAuthTlv_eq_ok_iff {crypto : Crypto} {data p : List UInt8} {pos : ℕ}
    {auth : AuthMethod} :
    parseAuthTlv crypto data pos auth auth.cookieHashCache auth.aesKeyCache = .ok p ↔
      ∃ A P, data.drop pos = A ++ P ∧ Authenticated crypto (data.take pos) auth A P p := by
  rw [parseAuthTlv_eq_ok_iff_body]
  constructor
  · rintro ⟨body, P, -, hd, h⟩
    cases auth with
    | none =>
      obtain ⟨rfl, rfl⟩ := (parseAuthTlvBody_none hd (by simp)).mp h
      exact ⟨_, _, hd, .none P⟩
    | cookie secret =>
      obtain ⟨rfl, rfl⟩ := (parseAuthTlvBody_cookie hd (by simp)).mp h
      refine ⟨_, _, ?_, .cookie secret P⟩
      simpa [expectedAuthType, tlvAuthCookie] using hd
    | aesGcm key =>
      obtain ⟨nonce, tag, rfl, hopen⟩ := (parseAuthTlvBody_aesGcm hd (by simp)).mp h
      refine ⟨_, _, ?_, .aesGcm key nonce tag P p ?_⟩
      · simpa [expectedAuthType, tlvAuthAes] using hd
      · simpa [expectedAuthType, tlvAuthAes] using hopen
  · rintro ⟨A, P, hd, hauth⟩
    cases hauth with
    | none P =>
      have hd' : data.drop pos = leBytes 2 0x414E ++ leBytes 2 4 ++ ([] ++ p) := by simpa using hd
      exact ⟨[], p, by simp, hd', (parseAuthTlvBody_none hd' (by simp)).mpr ⟨rfl, rfl⟩⟩
    | cookie secret P =>
      have hd' : data.drop pos = leBytes 2 0x4143 ++ leBytes 2 36 ++ (secret.toList ++ p) := by
        simpa using hd
      exact ⟨secret.toList, p, by simp, by simpa [expectedAuthType, tlvAuthCookie] using hd',
        (parseAuthTlvBody_cookie hd' (by simp)).mpr ⟨rfl, rfl⟩⟩
    | aesGcm key nonce tag P p hopen =>
      have hd' : data.drop pos =
          leBytes 2 0x4541 ++ leBytes 2 32 ++ (nonce.toList ++ tag.toList ++ P) := by
        simpa using hd
      exact ⟨nonce.toList ++ tag.toList, P, by simp,
        by simpa [expectedAuthType, tlvAuthAes] using hd',
        (parseAuthTlvBody_aesGcm hd' (by simp)).mpr ⟨nonce, tag, rfl, hopen⟩⟩

/-! ### The PDU -/

theorem readBlocks_eq_ok_iff {β : Type} {blockLen : ℕ} {tooSmall : String}
    {read : List UInt8 → Outcome String β} {ofBytes : List UInt8 → β} {pduBody : List UInt8}
    (hread : ∀ buffer, blockLen ≤ buffer.length → read buffer = .ok (ofBytes buffer))
    {count pos pos' : ℕ} {blocks : List β} (hpos : pos ≤ pduBody.length) :
    readBlocks blockLen tooSmall read pduBody count pos = .ok (blocks, pos') ↔
      pos + blockLen * count ≤ pduBody.length ∧ pos' = pos + blockLen * count ∧
        blocks = (List.range count).map fun i => ofBytes (pduBody.drop (pos + blockLen * i)) := by
  induction count generalizing pos blocks with
  | zero =>
    simp only [readBlocks, Outcome.pure_eq, Outcome.ok.injEq, Prod.mk.injEq, Nat.mul_zero,
      Nat.add_zero, List.range_zero, List.map_nil]
    grind
  | succ count ih =>
    by_cases hlen : pos + blockLen ≤ pduBody.length
    · rw [readBlocks, Outcome.failIf_neg (by omega), Outcome.ok_bind, slice_of_le hpos le_rfl,
        Outcome.ok_bind, sub_length, hread _ (by simp; omega)]
      simp only [Outcome.mapErr, Outcome.ok_bind, Outcome.bind_eq_ok_iff, Prod.exists,
        Outcome.pure_eq, Outcome.ok.injEq, Prod.mk.injEq]
      have hmul : blockLen * (count + 1) = blockLen + blockLen * count := by ring
      have hrange : (List.range (count + 1)).map
          (fun i => ofBytes (pduBody.drop (pos + blockLen * i))) =
          ofBytes (pduBody.drop pos) ::
            (List.range count).map fun i => ofBytes (pduBody.drop (pos + blockLen + blockLen * i)) := by
        rw [List.range_succ_eq_map, List.map_cons, List.map_map, Nat.mul_zero, Nat.add_zero]
        congr 2
        funext i
        simp only [Function.comp, Nat.succ_eq_add_one]
        congr 2
        ring
      rw [hmul, hrange]
      constructor
      · rintro ⟨rest, next, h, rfl, rfl⟩
        obtain ⟨h1, h2, rfl⟩ := (ih hlen).mp h
        exact ⟨by omega, by omega, rfl⟩
      · rintro ⟨h1, h2, rfl⟩
        exact ⟨_, pos', (ih hlen).mpr ⟨by omega, by omega, rfl⟩, rfl, rfl⟩
    · rw [readBlocks, Outcome.failIf_pos (by omega)]
      simp only [Outcome.err_bind, reduceCtorEq, false_iff, not_and]
      intro h
      rw [Nat.mul_succ] at h
      omega

/-- The block readers stop at the declared size, but each block lies before it. -/
theorem drop_sub_eq_take {p : List UInt8} {k n : ℕ} :
    (sub p pduHeaderLen n).drop k = (p.drop (8 + k)).take (n - (8 + k)) := by
  rw [sub, pduHeaderLen, List.drop_take, List.drop_drop]
  congr 1
  omega

theorem guardBlocks_eq {p : List UInt8} (h : IsRateResponse p) :
    ((List.range (guardCount p)).map fun i =>
      GuardBlock.ofBytes ((sub p pduHeaderLen (pduSize p)).drop (4 + 36 * i))) = guardBlocks p := by
  have hle := h.blocks_le
  refine List.map_congr_left fun i hi => ?_
  rw [List.mem_range] at hi
  rw [drop_sub_eq_take, GuardBlock.ofBytes_take (by omega)]
  congr 2
  omega

theorem resourceBlocks_eq {p : List UInt8} (h : IsRateResponse p) :
    ((List.range (resourceCount p)).map fun i => ResourceBlock.ofBytes
      ((sub p pduHeaderLen (pduSize p)).drop (4 + 36 * guardCount p + 28 * i))) =
        resourceBlocks p := by
  have hle := h.blocks_le
  refine List.map_congr_left fun i hi => ?_
  rw [List.mem_range] at hi
  rw [drop_sub_eq_take, ResourceBlock.ofBytes_take (by omega)]
  congr 2
  omega

/-- The counts, read from the body, are at offsets 8 and 10 of the PDU. -/
theorem u16At_body {p : List UInt8} {a n : ℕ} (ha : a ≤ 2) (hn : 12 ≤ n) (hp : n ≤ p.length) :
    (u16At (sub p pduHeaderLen n) a : Outcome CoreError _) = .ok (le16 (sub p (8 + a) (10 + a))) ∧
      (le16 (sub p (8 + a) (10 + a))).toNat = leNat (sub p (8 + a) (10 + a)) := by
  have hlen : (sub p pduHeaderLen n).length = n - 8 := length_sub_of_le hp
  refine ⟨?_, toNat_le16 (by rw [length_sub_of_le (by omega)]; omega)⟩
  rw [u16At_of_le (by omega), sub_of_sub _ (by rw [pduHeaderLen]; omega), pduHeaderLen]
  congr 2
  congr 1
  omega

theorem parseRateResponsePdu_checked {p : List UInt8} {serverId : UInt64} {flag : Bool}
    {result : RateLimitResult} (h : parseRateResponsePdu p serverId flag = .ok result) :
    8 ≤ p.length ∧ le16 (sub p 0 2) = pduRateResponse ∧ 12 ≤ pduSize p ∧ pduSize p ≤ p.length := by
  unfold parseRateResponsePdu at h
  dsimp only at h
  rw [Outcome.failIf_bind_eq_ok_iff, pduHeaderLen] at h
  obtain ⟨hlen, h⟩ := h
  rw [u16At_of_le (by omega), Outcome.ok_bind, Outcome.failIf_bind_eq_ok_iff,
    u16At_of_le (by omega), Outcome.ok_bind, Outcome.failIf_bind_eq_ok_iff,
    Outcome.failIf_bind_eq_ok_iff, toNat_le16 (length_sub_of_le (by omega)),
    show leNat (sub p 2 (2 + 2)) = pduSize p from rfl, not_not] at h
  obtain ⟨htype, hsize, hle, h⟩ := h
  rw [slice_of_le (by omega) (by omega), Outcome.ok_bind, Outcome.failIf_bind_eq_ok_iff,
    length_sub_of_le (by omega)] at h
  exact ⟨by omega, htype, by omega, by omega⟩

theorem parseRateResponsePdu_eq_ok_iff {T p : List UInt8} {result : RateLimitResult} :
    parseRateResponsePdu p (le64 (sub T 4 12)) (T.getD 36 0 ≠ 0) = .ok result ↔
      IsRateResponse p ∧ result = responseOf T p := by
  by_cases hp : 8 ≤ p.length ∧ le16 (sub p 0 2) = pduRateResponse ∧ 12 ≤ pduSize p ∧
      pduSize p ≤ p.length
  · obtain ⟨hlen, htype, hge, hle⟩ := hp
    have hbody : (sub p pduHeaderLen (pduSize p)).length = pduSize p - 8 := length_sub_of_le hle
    obtain ⟨hg, hg'⟩ := u16At_body (a := 0) (by omega) hge hle
    obtain ⟨hr, hr'⟩ := u16At_body (a := 2) (by omega) hge hle
    unfold parseRateResponsePdu
    dsimp only
    rw [Outcome.failIf_neg (by rw [pduHeaderLen]; omega), Outcome.ok_bind,
      u16At_of_le (by omega), Outcome.ok_bind, Outcome.failIf_neg (not_not.mpr htype),
      Outcome.ok_bind, u16At_of_le (by omega), Outcome.ok_bind,
      toNat_le16 (length_sub_of_le (by omega)), show leNat (sub p 2 (2 + 2)) = pduSize p from rfl,
      Outcome.failIf_neg (by rw [pduHeaderLen]; omega), Outcome.ok_bind,
      Outcome.failIf_neg (by omega), Outcome.ok_bind,
      slice_of_le (by rw [pduHeaderLen]; omega) hle, Outcome.ok_bind,
      Outcome.failIf_neg (by omega), Outcome.ok_bind, hg, Outcome.ok_bind, hr, Outcome.ok_bind,
      hg', hr', show leNat (sub p (8 + 0) (10 + 0)) = guardCount p from rfl,
      show leNat (sub p (8 + 2) (10 + 2)) = resourceCount p from rfl]
    simp only [Outcome.bind_eq_ok_iff, Prod.exists]
    constructor
    · rintro ⟨guards, pos, hguards, resources, pos', hresources, h⟩
      obtain ⟨h1, rfl, rfl⟩ :=
        (readBlocks_eq_ok_iff (fun _ h => GuardBlock.readFromBuffer_of_le h) (by omega)).mp hguards
      obtain ⟨h2, -, rfl⟩ :=
        (readBlocks_eq_ok_iff (fun _ h => ResourceBlock.readFromBuffer_of_le h) (by omega)).mp
          hresources
      have hresp : IsRateResponse p := by
        refine ⟨(le16_eq_iff (length_sub_of_le (by omega))).mp htype, hge, hle, ?_⟩
        omega
      refine ⟨hresp, ?_⟩
      simp only [guardBlocks_eq hresp, resourceBlocks_eq hresp] at h
      simpa [responseOf, List.all_map, Function.comp_def, GuardBlock.toResult,
        ResourceBlock.toResult] using h.symm
    · rintro ⟨hresp, rfl⟩
      have hle' := hresp.blocks_le
      refine ⟨_, _, (readBlocks_eq_ok_iff (fun _ h => GuardBlock.readFromBuffer_of_le h)
        (by omega)).mpr ⟨by omega, rfl, rfl⟩, ?_⟩
      refine ⟨_, _, (readBlocks_eq_ok_iff (fun _ h => ResourceBlock.readFromBuffer_of_le h)
        (by omega)).mpr ⟨by omega, rfl, rfl⟩, ?_⟩
      simp only [guardBlocks_eq hresp, resourceBlocks_eq hresp]
      simp [responseOf, List.all_map, Function.comp_def, GuardBlock.toResult,
        ResourceBlock.toResult]
  · constructor
    · intro h
      exact (hp (parseRateResponsePdu_checked h)).elim
    · rintro ⟨hresp, -⟩
      have hge := hresp.size_ge
      have hle := hresp.size_le
      refine (hp ⟨by omega, ?_, hge, hle⟩).elim
      exact (le16_eq_iff (length_sub_of_le (by omega))).mpr hresp.type_eq

theorem sub_congr {p p' : List UInt8} {n a b : ℕ} (h : sub p 0 n = sub p' 0 n) (hb : b ≤ n) :
    sub p a b = sub p' a b := by
  have hcut (q : List UInt8) : sub q a b = sub (sub q 0 n) a b := by
    rw [sub_of_sub q (by omega), Nat.zero_add, Nat.zero_add]
  rw [hcut p, hcut p', h]

theorem take_drop_congr {p p' : List UInt8} {n k len : ℕ} (h : sub p 0 n = sub p' 0 n)
    (hn : k + len ≤ n) : (p.drop k).take len = (p'.drop k).take len := by
  simpa [sub] using sub_congr (a := k) h hn

section Ignored

variable {T T' p p' : List UInt8}
  (hp : sub p 0 (12 + 36 * guardCount p + 28 * resourceCount p) =
    sub p' 0 (12 + 36 * guardCount p + 28 * resourceCount p))
include hp

theorem counts_congr : guardCount p = guardCount p' ∧ resourceCount p = resourceCount p' :=
  ⟨congrArg leNat (sub_congr hp (by omega)), congrArg leNat (sub_congr hp (by omega))⟩

theorem responseOf_congr (hT : sub T 0 12 = sub T' 0 12) (hflag : T.getD 36 0 = T'.getD 36 0) :
    responseOf T p = responseOf T' p' := by
  obtain ⟨hg, hr⟩ := counts_congr hp
  have hguards : guardBlocks p = guardBlocks p' := by
    rw [guardBlocks, guardBlocks, ← hg]
    refine List.map_congr_left fun i hi => ?_
    rw [List.mem_range] at hi
    rw [← GuardBlock.ofBytes_take le_rfl, take_drop_congr hp (by omega),
      GuardBlock.ofBytes_take le_rfl]
  have hresources : resourceBlocks p = resourceBlocks p' := by
    rw [resourceBlocks, resourceBlocks, ← hg, ← hr]
    refine List.map_congr_left fun i hi => ?_
    rw [List.mem_range] at hi
    rw [← ResourceBlock.ofBytes_take le_rfl, take_drop_congr hp (by omega),
      ResourceBlock.ofBytes_take le_rfl]
  rw [responseOf, responseOf, hguards, hresources, sub_congr hT le_rfl, hflag]

theorem IsRateResponse.congr (h : IsRateResponse p) (hlen : pduSize p ≤ p'.length) :
    IsRateResponse p' := by
  obtain ⟨hg, hr⟩ := counts_congr hp
  have hsize : pduSize p = pduSize p' := congrArg leNat (sub_congr hp (by omega))
  refine ⟨?_, hsize ▸ h.size_ge, hsize ▸ hlen, ?_⟩
  · rw [← sub_congr hp (by omega), h.type_eq]
  · rw [← hg, ← hr, ← hsize]
    exact h.blocks_le

end Ignored

theorem IsTenantTlv.congr {T T' : List UInt8} (h : IsTenantTlv T) (hlen : T.length = T'.length)
    (hT : sub T 0 12 = sub T' 0 12) : IsTenantTlv T' := by
  refine ⟨?_, ?_, hlen ▸ h.size_ge⟩
  · rw [← sub_congr hT (by omega), h.type_eq]
  · rw [← sub_congr hT (by omega), h.size_eq, hlen]

/-- A datagram is accepted exactly when it has the format of a rate response. -/
theorem rateResponse_ok_iff {crypto : Crypto} {auth : AuthMethod} {data : List UInt8}
    {result : RateLimitResult} :
    parseRateResponseWithAuth crypto data auth auth.cookieHashCache auth.aesKeyCache = .ok result ↔
      ∃ T A P p, data = T ++ A ++ P ∧ IsTenantTlv T ∧ Authenticated crypto T auth A P p ∧
        IsRateResponse p ∧ result = responseOf T p := by
  simp only [parseRateResponseWithAuth, Outcome.bind_eq_ok_iff, Prod.exists,
    parseTenantHeader_eq_ok_iff, parseAuthTlv_eq_ok_iff]
  constructor
  · rintro ⟨header, pos, ⟨hpos, hT, rfl⟩, p, ⟨A, P, hd, hauth⟩, h⟩
    obtain ⟨hresp, rfl⟩ := parseRateResponsePdu_eq_ok_iff.mp h
    refine ⟨_, A, P, p, ?_, hT, hauth, hresp, rfl⟩
    rw [List.append_assoc, ← hd, List.take_append_drop]
  · rintro ⟨T, A, P, p, rfl, hT, hauth, hresp, rfl⟩
    have htake : (T ++ A ++ P).take T.length = T := by simp
    have hdrop : (T ++ A ++ P).drop T.length = A ++ P := by simp
    refine ⟨_, T.length, ⟨by simp, htake.symm ▸ hT, rfl⟩, p, ⟨A, P, hdrop, ?_⟩, ?_⟩
    · rwa [htake]
    · rw [htake]
      exact parseRateResponsePdu_eq_ok_iff.mpr ⟨hresp, rfl⟩

theorem success_responseOf {T p : List UInt8} : (responseOf T p).success = true ↔
    (∀ block ∈ guardBlocks p, block.currentLatency < block.latencyThreshold) ∧
      ∀ block ∈ resourceBlocks p, block.tokensRequested = 0 := by
  simp [responseOf]

/-- A datagram is accepted exactly when it is `T ++ A ++ P` for a tenant TLV `T`, the auth TLV `A`
of the configured method and bytes `P` that are, or decrypt to, a rate response PDU. The result
is read off at fixed offsets, and every other byte is ignored. -/
theorem parseRateResponseWithAuth_eq_ok_iff (crypto : Crypto) (auth : AuthMethod) :
    (∀ data result,
      parseRateResponseWithAuth crypto data auth auth.cookieHashCache auth.aesKeyCache =
          .ok result ↔
        ∃ T A P p, data = T ++ A ++ P ∧ IsTenantTlv T ∧ Authenticated crypto T auth A P p ∧
          IsRateResponse p ∧ result = responseOf T p) ∧
      (∀ T p, (responseOf T p).success = true ↔
        (∀ block ∈ guardBlocks p, block.currentLatency < block.latencyThreshold) ∧
          ∀ block ∈ resourceBlocks p, block.tokensRequested = 0) ∧
      ∀ T T' p p', T.length = T'.length → sub T 0 12 = sub T' 0 12 →
        T.getD 36 0 = T'.getD 36 0 →
        sub p 0 (12 + 36 * guardCount p + 28 * resourceCount p) =
          sub p' 0 (12 + 36 * guardCount p + 28 * resourceCount p) →
        (IsTenantTlv T → IsTenantTlv T') ∧
          (IsRateResponse p → pduSize p ≤ p'.length → IsRateResponse p') ∧
          responseOf T p = responseOf T' p' := by
  refine ⟨fun data result => rateResponse_ok_iff, fun T p => success_responseOf,
    fun T T' p p' hlen hT hflag hp => ?_⟩
  exact ⟨fun h => h.congr hlen hT, fun h hle => h.congr hp hle, responseOf_congr hp hT hflag⟩

end Ratelimitly
