import Mathlib.Tactic
import Ratelimitly.Bech32Text

/-! API key text is a canonical encoding of credentials. -/
namespace Ratelimitly

open Lib

/-! ### The quota word -/

/-- The limits an API key can carry. -/
structure ApiKeyLimits.Representable (limits : ApiKeyLimits) : Prop where
  rateBucketsMax : ∃ e ≤ 24, limits.rateBucketsMax.toNat = 2 ^ e
  latencyServicesMax : ∃ e ≤ 24, limits.latencyServicesMax.toNat = 2 ^ e
  metricsLabelsMax : ∃ e ≤ 31, limits.metricsLabelsMax.toNat = 2 ^ e
  latencyBufferSizeMax : ∃ e ≤ 15, limits.latencyBufferSizeMax.toNat = 2 ^ e
  dedupTtlMsMax : ∃ k, 1 ≤ k ∧ k ≤ 200 ∧ limits.dedupTtlMsMax.toNat = 10 * k
  rateWindowSizeMsMax : (∃ e ≤ 30, limits.rateWindowSizeMsMax.toNat = 2 ^ e) ∨
    limits.rateWindowSizeMsMax.toNat = 2 ^ 32 - 1

/-- The six fields of a quota word. -/
structure QuotaCode where
  rate : ℕ
  latency : ℕ
  labels : ℕ
  buffer : ℕ
  dedup : ℕ
  window : ℕ
  rate_le : rate ≤ 24
  latency_le : latency ≤ 24
  labels_lt : labels < 32
  buffer_lt : buffer < 16
  dedup_pos : 1 ≤ dedup
  dedup_le : dedup ≤ 200
  window_lt : window < 32

namespace QuotaCode

variable (q : QuotaCode)

def toNat : ℕ :=
  q.rate + 2 ^ 5 * q.latency + 2 ^ 10 * q.labels + 2 ^ 15 * q.buffer + 2 ^ 19 * q.dedup +
    2 ^ 27 * q.window

def word : UInt32 := UInt32.ofNat q.toNat

def limits : ApiKeyLimits where
  rateBucketsMax := UInt32.ofNat (2 ^ q.rate)
  latencyServicesMax := UInt32.ofNat (2 ^ q.latency)
  metricsLabelsMax := UInt32.ofNat (2 ^ q.labels)
  latencyBufferSizeMax := UInt32.ofNat (2 ^ q.buffer)
  dedupTtlMsMax := UInt32.ofNat (10 * q.dedup)
  rateWindowSizeMsMax :=
    if q.window = 31 then UInt32.ofNat (2 ^ 32 - 1) else UInt32.ofNat (2 ^ q.window)

theorem toNat_lt : q.toNat < 2 ^ 32 := by
  have h1 := q.rate_le
  have h2 := q.latency_le
  have h3 := q.labels_lt
  have h4 := q.buffer_lt
  have h5 := q.dedup_le
  have h6 := q.window_lt
  rw [toNat]
  omega

theorem toNat_word : q.word.toNat = q.toNat := UInt32.toNat_ofNat_of_lt' q.toNat_lt

end QuotaCode

theorem toNat_ofNat_two_pow {e : ℕ} (h : e < 32) : (UInt32.ofNat (2 ^ e)).toNat = 2 ^ e :=
  UInt32.toNat_ofNat_of_lt' (Nat.pow_lt_pow_right (by norm_num) h)

theorem ofNat_two_pow_eq {x : UInt32} {e : ℕ} (h : x.toNat = 2 ^ e) (he : e < 32) :
    x = UInt32.ofNat (2 ^ e) := by
  rw [← UInt32.toNat_inj, toNat_ofNat_two_pow he, h]

/-- The representable limits are those of the quota codes. -/
theorem representable_iff {limits : ApiKeyLimits} :
    limits.Representable ↔ ∃ q : QuotaCode, limits = q.limits := by
  constructor
  · obtain ⟨rate, latency, labels, buffer, dedup, window⟩ := limits
    rintro ⟨⟨a, ha, ha'⟩, ⟨b, hb, hb'⟩, ⟨c, hc, hc'⟩, ⟨d, hd, hd'⟩, ⟨k, hk1, hk2, hk'⟩, hw⟩
    have hdedup : dedup = UInt32.ofNat (10 * k) := by
      rw [← UInt32.toNat_inj, UInt32.toNat_ofNat_of_lt' (by simp [UInt32.size]; omega)]
      exact hk'
    rcases hw with ⟨w, hw, hw'⟩ | hw'
    · refine ⟨⟨a, b, c, d, k, w, ha, hb, by omega, by omega, hk1, hk2, by omega⟩, ?_⟩
      simp only [QuotaCode.limits, if_neg (show w ≠ 31 by omega), ApiKeyLimits.mk.injEq]
      exact ⟨ofNat_two_pow_eq ha' (by omega), ofNat_two_pow_eq hb' (by omega),
        ofNat_two_pow_eq hc' (by omega), ofNat_two_pow_eq hd' (by omega), hdedup,
        ofNat_two_pow_eq hw' (by omega)⟩
    · refine ⟨⟨a, b, c, d, k, 31, ha, hb, by omega, by omega, hk1, hk2, by omega⟩, ?_⟩
      simp only [QuotaCode.limits, if_pos, ApiKeyLimits.mk.injEq]
      exact ⟨ofNat_two_pow_eq ha' (by omega), ofNat_two_pow_eq hb' (by omega),
        ofNat_two_pow_eq hc' (by omega), ofNat_two_pow_eq hd' (by omega), hdedup,
        UInt32.toNat_inj.mp hw'⟩
  · rintro ⟨q, rfl⟩
    have hrate := q.rate_le
    have hlatency := q.latency_le
    have hbuffer := q.buffer_lt
    have hdedup := q.dedup_le
    have hwindow := q.window_lt
    refine ⟨⟨_, q.rate_le, toNat_ofNat_two_pow (by omega)⟩,
      ⟨_, q.latency_le, toNat_ofNat_two_pow (by omega)⟩,
      ⟨_, Nat.le_of_lt_succ q.labels_lt, toNat_ofNat_two_pow q.labels_lt⟩,
      ⟨_, Nat.le_of_lt_succ q.buffer_lt, toNat_ofNat_two_pow (by omega)⟩,
      ⟨_, q.dedup_pos, q.dedup_le, UInt32.toNat_ofNat_of_lt' (by simp [UInt32.size]; omega)⟩, ?_⟩
    by_cases hw : q.window = 31
    · exact .inr (by simp [QuotaCode.limits, hw])
    · refine .inl ⟨q.window, by omega, ?_⟩
      simp only [QuotaCode.limits, if_neg hw]
      exact toNat_ofNat_two_pow q.window_lt

theorem trailingZeros_two_pow {e : ℕ} (h : e < 32) :
    trailingZeros (UInt32.ofNat (2 ^ e)) = UInt32.ofNat e := by
  have hall : ∀ e : Fin 32, trailingZeros (UInt32.ofNat (2 ^ e.val)) = UInt32.ofNat e.val := by
    decide +kernel
  exact hall ⟨e, h⟩

theorem toNat_ofNat_of_lt_size {n : ℕ} (h : n < 2 ^ 32) : (UInt32.ofNat n).toNat = n :=
  UInt32.toNat_ofNat_of_lt' h

/-- Adding a field of `w` bits above the `k` bits in use. -/
theorem toNat_or_field {x s : UInt32} {a n : ℕ} (k w : ℕ) (hs : s.toNat = k) (hk : k < 32)
    (hx : x.toNat = a) (ha : a < 2 ^ k) (hn : n < 2 ^ w) (hw : k + w ≤ 32) :
    (x ||| (UInt32.ofNat n <<< s)).toNat = a + 2 ^ k * n := by
  have hlt : n * 2 ^ k < 2 ^ 32 := by
    calc n * 2 ^ k < 2 ^ w * 2 ^ k := Nat.mul_lt_mul_of_pos_right hn (by positivity)
      _ = 2 ^ (w + k) := (pow_add ..).symm
      _ ≤ 2 ^ 32 := Nat.pow_le_pow_right (by norm_num) (by omega)
  have hn32 : n < 2 ^ 32 :=
    Nat.lt_of_lt_of_le hn (Nat.pow_le_pow_right (by norm_num) (by omega))
  rw [UInt32.toNat_or, UInt32.toNat_shiftLeft, hs, hx, Nat.mod_eq_of_lt hk,
    toNat_ofNat_of_lt_size hn32, Nat.shiftLeft_eq, Nat.mod_eq_of_lt hlt, Nat.or_comm,
    ← Nat.shiftLeft_eq, ← Nat.shiftLeft_add_eq_or_of_lt ha, Nat.shiftLeft_eq, Nat.add_comm,
    Nat.mul_comm]

theorem quotaWord_limits (q : QuotaCode) : quotaWord q.limits = q.word := by
  have hrate := q.rate_le
  have hlatency := q.latency_le
  have hlabels := q.labels_lt
  have hbuffer := q.buffer_lt
  have hdedup := q.dedup_le
  have hwindow := q.window_lt
  have hwindowExp : (if q.limits.rateWindowSizeMsMax = UInt32.ofNat (2 ^ 32 - 1) then 31
      else trailingZeros q.limits.rateWindowSizeMsMax) = UInt32.ofNat q.window := by
    by_cases hw : q.window = 31
    · simp [QuotaCode.limits, hw]
    · simp only [QuotaCode.limits, if_neg hw]
      rw [if_neg, trailingZeros_two_pow hwindow]
      rw [← UInt32.toNat_inj, toNat_ofNat_two_pow hwindow]
      have hlt : 2 ^ q.window < 2 ^ 31 := Nat.pow_lt_pow_right (by norm_num) (by omega)
      intro heq
      rw [heq] at hlt
      revert hlt
      decide
  have hunits : q.limits.dedupTtlMsMax / 10 = UInt32.ofNat q.dedup := by
    rw [← UInt32.toNat_inj, UInt32.toNat_div, toNat_ofNat_of_lt_size (by omega)]
    simp only [QuotaCode.limits]
    rw [toNat_ofNat_of_lt_size (by omega)]
    exact Nat.mul_div_cancel_left _ (by norm_num)
  rw [← UInt32.toNat_inj, q.toNat_word, quotaWord, hwindowExp, hunits]
  simp only [QuotaCode.limits]
  rw [trailingZeros_two_pow (by omega), trailingZeros_two_pow (by omega),
    trailingZeros_two_pow hlabels, trailingZeros_two_pow (by omega)]
  have h0 : (UInt32.ofNat q.rate).toNat = q.rate := toNat_ofNat_of_lt_size (by omega)
  have h1 := toNat_or_field 5 5 (s := 5) rfl (by norm_num) h0 (by omega) (by omega : q.latency < 2 ^ 5)
    (by norm_num)
  have h2 := toNat_or_field 10 5 (s := 10) rfl (by norm_num) h1 (by omega) hlabels (by norm_num)
  have h3 := toNat_or_field 15 4 (s := 15) rfl (by norm_num) h2 (by omega) hbuffer (by norm_num)
  have h4 := toNat_or_field 19 8 (s := 19) rfl (by norm_num) h3 (by omega)
    (by omega : q.dedup < 2 ^ 8) (by norm_num)
  have h5 := toNat_or_field 27 5 (s := 27) rfl (by norm_num) h4 (by omega) hwindow (by norm_num)
  rw [h5]
  rfl

theorem toNat_field {x s m : UInt32} (k w : ℕ) (hs : s.toNat = k) (hk : k < 32)
    (hm : m.toNat = 2 ^ w - 1) : ((x >>> s) &&& m).toNat = x.toNat / 2 ^ k % 2 ^ w := by
  rw [toNat_and_mask hm, UInt32.toNat_shiftRight, hs, Nat.mod_eq_of_lt hk,
    Nat.shiftRight_eq_div_pow]

theorem one_shiftLeft_eq {x : UInt32} {e : ℕ} (hx : x.toNat = e) (he : e < 32) :
    (1 : UInt32) <<< x = UInt32.ofNat (2 ^ e) := by
  rw [← UInt32.toNat_inj, UInt32.toNat_shiftLeft, hx, Nat.mod_eq_of_lt he, toNat_ofNat_two_pow he,
    Nat.shiftLeft_eq]
  have hlt : 2 ^ e < 2 ^ 32 := Nat.pow_lt_pow_right (by norm_num) he
  rw [UInt32.toNat_one, Nat.one_mul, Nat.mod_eq_of_lt hlt]

theorem limitsFromWord_eq_ok_iff {word : UInt32} {limits : ApiKeyLimits} :
    limitsFromWord word = .ok limits ↔ ∃ q : QuotaCode, word = q.word ∧ limits = q.limits := by
  have h0 : (word &&& 0x1f).toNat = word.toNat % 2 ^ 5 := toNat_and_mask (by decide)
  have h1 := toNat_field (x := word) (s := 5) (m := 0x1f) 5 5 rfl (by decide) (by decide)
  have h2 := toNat_field (x := word) (s := 10) (m := 0x1f) 10 5 rfl (by decide) (by decide)
  have h3 := toNat_field (x := word) (s := 15) (m := 0x0f) 15 4 rfl (by decide) (by decide)
  have h4 := toNat_field (x := word) (s := 19) (m := 0xff) 19 8 rfl (by decide) (by decide)
  have h5 := toNat_field (x := word) (s := 27) (m := 0x1f) 27 5 rfl (by decide) (by decide)
  have hlt := word.toNat_lt
  unfold limitsFromWord
  dsimp only
  generalize (word &&& 0x1f) = rate at h0 ⊢
  generalize ((word >>> 5) &&& 0x1f) = latency at h1 ⊢
  generalize ((word >>> 10) &&& 0x1f) = labels at h2 ⊢
  generalize ((word >>> 15) &&& 0x0f) = buffer at h3 ⊢
  generalize ((word >>> 19) &&& 0xff) = dedup at h4 ⊢
  generalize ((word >>> 27) &&& 0x1f) = window at h5 ⊢
  rw [Outcome.failIf_bind_eq_ok_iff, Outcome.pure_eq, Outcome.ok.injEq]
  simp only [not_or, not_not, gt_iff_lt, UInt32.lt_iff_toNat_lt, UInt32.le_iff_toNat_le, not_lt,
    UInt32.reduceToNat]
  have hrate : rate.toNat < 32 := by omega
  have hlatency : latency.toNat < 32 := by omega
  have hlabels : labels.toNat < 32 := by omega
  have hbuffer : buffer.toNat < 32 := by omega
  have hwindow : window.toNat < 32 := by omega
  rw [one_shiftLeft_eq rfl hrate, one_shiftLeft_eq rfl hlatency, one_shiftLeft_eq rfl hlabels,
    one_shiftLeft_eq rfl hbuffer, one_shiftLeft_eq rfl hwindow]
  have hwindow31 : window = 31 ↔ window.toNat = 31 := by rw [← UInt32.toNat_inj]; rfl
  have hdedup (hle : dedup.toNat ≤ 200) : dedup * 10 = UInt32.ofNat (10 * dedup.toNat) := by
    rw [← UInt32.toNat_inj, UInt32.toNat_mul, toNat_ofNat_of_lt_size (by omega), Nat.mul_comm]
    exact Nat.mod_eq_of_lt (by simp; omega)
  constructor
  · rintro ⟨⟨hr, hl, hd1, hd2⟩, rfl⟩
    refine ⟨⟨rate.toNat, latency.toNat, labels.toNat, buffer.toNat, dedup.toNat, window.toNat, hr,
      hl, hlabels, by omega, hd1, hd2, hwindow⟩, ?_, ?_⟩
    · rw [← UInt32.toNat_inj, QuotaCode.toNat_word]
      show word.toNat = rate.toNat + 2 ^ 5 * latency.toNat + 2 ^ 10 * labels.toNat +
        2 ^ 15 * buffer.toNat + 2 ^ 19 * dedup.toNat + 2 ^ 27 * window.toNat
      omega
    · simp only [QuotaCode.limits, hwindow31, hdedup hd2]
  · rintro ⟨q, rfl, rfl⟩
    have hq := q.toNat_word
    rw [QuotaCode.toNat] at hq
    have hrate_le := q.rate_le
    have hlatency_le := q.latency_le
    have hlabels_lt := q.labels_lt
    have hbuffer_lt := q.buffer_lt
    have hdedup_pos := q.dedup_pos
    have hdedup_le := q.dedup_le
    have hwindow_lt := q.window_lt
    obtain ⟨hr, hl, hm, hb, hd, hw⟩ : rate.toNat = q.rate ∧ latency.toNat = q.latency ∧
        labels.toNat = q.labels ∧ buffer.toNat = q.buffer ∧ dedup.toNat = q.dedup ∧
        window.toNat = q.window := by omega
    refine ⟨⟨by rw [hr]; exact hrate_le, by rw [hl]; exact hlatency_le, by rw [hd]; exact hdedup_pos,
      by rw [hd]; exact hdedup_le⟩, ?_⟩
    rw [hdedup (by omega)]
    simp only [QuotaCode.limits, hwindow31, hr, hl, hm, hb, hd, hw]

theorem limitsFromWord_eq_ok_iff_representable {word : UInt32} {limits : ApiKeyLimits} :
    limitsFromWord word = .ok limits ↔ limits.Representable ∧ quotaWord limits = word := by
  rw [limitsFromWord_eq_ok_iff, representable_iff]
  constructor
  · rintro ⟨q, rfl, rfl⟩
    exact ⟨⟨q, rfl⟩, quotaWord_limits q⟩
  · rintro ⟨⟨q, rfl⟩, rfl⟩
    exact ⟨q, quotaWord_limits q, rfl⟩

/-! ### Credentials -/

/-- What an API key can denote. -/
structure Credential where
  authMethod : String
  keyId : UInt64
  authSecret : List UInt8
  limits : ApiKeyLimits
  secret_ok : (authMethod = "none" ∧ authSecret = []) ∨
    ((authMethod = "cookie" ∨ authMethod = "aes") ∧ authSecret.length = 32)
  representable : limits.Representable

namespace Credential

variable (c : Credential)

def encode : Outcome DecodeError String := encodeApiKey c.authMethod c.keyId c.authSecret c.limits

def decoded : DecodedApiKey where
  hrp := "rl-" ++ c.authMethod
  authMethod := c.authMethod
  formatVersion := 1
  keyId := c.keyId
  authSecret := c.authSecret
  limits := some c.limits

def hrp : List Char := "rl-".toList ++ c.authMethod.toList

def payload : List UInt8 :=
  [1] ++ leBytes 8 c.keyId.toNat ++ c.authSecret ++ leBytes 4 (quotaWord c.limits).toNat

theorem authMethod_mem : c.authMethod ∈ ["none", "cookie", "aes"] := by
  rcases c.secret_ok with ⟨h, -⟩ | ⟨h | h, -⟩ <;> simp [h]

theorem encode_eq : c.encode = (do
    let text ← bech32Encode c.hrp c.payload
    pure (String.ofList text)) := by
  unfold encode encodeApiKey
  dsimp only
  rcases c.secret_ok with ⟨h, hs⟩ | ⟨h, -⟩
  · rw [if_pos h, Outcome.pure_eq, Outcome.ok_bind, payload, hs, List.append_nil]
    rfl
  · have hne : c.authMethod ≠ "none" := by
      rcases h with h | h <;> rw [h] <;> decide
    rw [if_neg hne, if_pos h, Outcome.pure_eq, Outcome.ok_bind]
    rfl

/-- The human-readable parts are lower-case printable ASCII. -/
theorem hrp_ok : c.hrp ≠ [] ∧ c.hrp.map Char.toLower = c.hrp ∧ c.hrp.all isPrintable = true ∧
    ((utf8Bytes c.hrp).all fun b => 33 ≤ b ∧ b ≤ 126) = true ∧ '1' ∉ c.hrp := by
  rcases c.secret_ok with ⟨h, -⟩ | ⟨h | h, -⟩ <;> rw [hrp, h] <;> decide +kernel

end Credential

/-- The fields of a payload with `n` secret bytes. -/
theorem payload_eq_iff {payload secret : List UInt8} {keyId : UInt64} {word : UInt32} {n : ℕ} :
    payload = [1] ++ leBytes 8 keyId.toNat ++ secret ++ leBytes 4 word.toNat ∧ secret.length = n ↔
      payload.length = 13 + n ∧ payload.getD 0 0 = 1 ∧ keyId = le64 (sub payload 1 9) ∧
        secret = sub payload 9 (9 + n) ∧ word = le32 (sub payload (9 + n) (13 + n)) := by
  constructor
  · rintro ⟨rfl, rfl⟩
    have hlen : ([1] ++ leBytes 8 keyId.toNat ++ secret).length = 9 + secret.length := by
      simp
      omega
    refine ⟨by simp; omega, by simp, ?_, ?_, ?_⟩
    · simp [sub_append_left, sub_cons, sub_full]
    · simp [sub_append_left, sub_append_right, sub_cons, sub_full]
    · rw [sub_append_right _ hlen.le, hlen, Nat.sub_self,
        show 13 + secret.length - (9 + secret.length) = 4 by omega, sub_full (by simp),
        le32_leBytes]
  · rintro ⟨hlen, hversion, rfl, rfl, rfl⟩
    refine ⟨?_, by rw [length_sub_of_le (by omega)]; omega⟩
    have hid : (sub payload 1 9).length = 8 := by rw [length_sub_of_le (by omega)]
    have hword : (sub payload (9 + n) (13 + n)).length = 4 := by
      rw [length_sub_of_le (by omega)]
      omega
    have hhead : [1] = sub payload 0 1 := by
      cases payload with
      | nil => exact absurd hlen (by simp; omega)
      | cons v rest => simpa [sub] using hversion.symm
    rw [toNat_le64 hid, leBytes_leNat_of_length hid, toNat_le32 hword,
      leBytes_leNat_of_length hword, hhead, sub_append_sub _ (by omega) (by omega),
      sub_append_sub _ (by omega) (by omega), sub_append_sub _ (by omega) (by omega),
      sub_full (by omega)]

/-- The common part of the credential branches: version, key id, secret and limits. -/
theorem decodeFields_eq_ok_iff {payload : List UInt8} {n : ℕ} (hlen : payload.length = 13 + n)
    {f : UInt64 → List UInt8 → ApiKeyLimits → DecodedApiKey} (key : DecodedApiKey) :
    (do
      let version ← index payload 0
      .failIf (version ≠ formatVersion) (DecodeError.unsupportedFormatVersion version)
      let keyId ← u64Slice payload 1 9
      let authSecret ← slice payload 9 (9 + n)
      let limits ← limitsFromPayload payload (9 + n)
      pure (f keyId authSecret limits)) = .ok key ↔
    ∃ keyId secret limits, limits.Representable ∧ secret.length = n ∧
      payload = [1] ++ leBytes 8 keyId.toNat ++ secret ++ leBytes 4 (quotaWord limits).toNat ∧
      key = f keyId secret limits := by
  rw [index_eq_getD 0 (by omega), Outcome.ok_bind, Outcome.failIf_bind_eq_ok_iff, not_not,
    u64Slice_of_le rfl (by omega), Outcome.ok_bind, slice_of_le (by omega) (by omega),
    Outcome.ok_bind, limitsFromPayload, u32Slice_of_le rfl (by omega), Outcome.ok_bind,
    Outcome.bind_eq_ok_iff]
  simp only [limitsFromWord_eq_ok_iff_representable, Outcome.pure_eq, Outcome.ok.injEq]
  constructor
  · rintro ⟨hversion, limits, ⟨hrep, hword⟩, rfl⟩
    obtain ⟨hpayload, hsecret⟩ := payload_eq_iff.mpr
      ⟨hlen, hversion, rfl, rfl, show quotaWord limits = le32 (sub payload (9 + n) (13 + n)) by
        rw [hword]; congr 1; congr 1; omega⟩
    exact ⟨_, _, limits, hrep, hsecret, hpayload, rfl⟩
  · rintro ⟨keyId, secret, limits, hrep, hsecret, hpayload, rfl⟩
    obtain ⟨-, hversion, rfl, rfl, hword⟩ := payload_eq_iff.mp ⟨hpayload, hsecret⟩
    refine ⟨hversion, limits, ⟨hrep, ?_⟩, rfl⟩
    rw [hword]
    congr 1
    congr 1
    omega

theorem sub_nine_nine {payload : List UInt8} (h : payload.length = 13) :
    (slice payload 9 (9 + 0) : Outcome DecodeError _) = .ok [] := by
  rw [slice_of_le le_rfl (by omega)]
  simp [sub]

/-- Decoding reads a credential off the payload. -/
theorem decodeApiKey_eq_ok_iff_bech32 {s : String} {key : DecodedApiKey} :
    decodeApiKey s = .ok key ∧ key.authMethod ∈ ["none", "cookie", "aes"] ↔
      ∃ c : Credential, key = c.decoded ∧ bech32Decode s.toList = .ok (c.hrp, c.payload) := by
  unfold decodeApiKey
  simp only [Outcome.bind_eq_ok_iff (x := bech32Decode _), Prod.exists,
    Outcome.bind_eq_ok_iff (x := Outcome.okOr _ _), Outcome.okOr_eq_ok_iff, stripPrefix_eq_some_iff]
  constructor
  · rintro ⟨⟨hrp, payload, hdecode, method, rfl, h⟩, hmem⟩
    rw [String.ofList_append, String.ofList_toList] at h
    have hmethod : method = (String.ofList method).toList := String.toList_ofList.symm
    rw [hmethod] at hdecode
    generalize String.ofList method = m at h hdecode
    by_cases hsecret : m = "secret"
    · rw [if_pos hsecret, Outcome.failIf_bind_eq_ok_iff, Outcome.pure_eq, Outcome.ok.injEq] at h
      rw [← h.2] at hmem
      exact absurd (show "secret" ∈ ["none", "cookie", "aes"] from hmem) (by decide)
    rw [if_neg hsecret] at h
    by_cases hnone : m = "none"
    · rw [if_pos hnone, Outcome.failIf_bind_eq_ok_iff, not_not] at h
      obtain ⟨hlen, h⟩ := h
      have hfields := (decodeFields_eq_ok_iff (n := 0) hlen (f := fun keyId _ limits =>
        ⟨"rl-" ++ m, "none", formatVersion, keyId, [], some limits⟩) key).mp
        (by rw [sub_nine_nine hlen]; exact h)
      obtain ⟨keyId, secret, limits, hrep, hslen, rfl, rfl⟩ := hfields
      rw [List.length_eq_zero_iff] at hslen
      subst hslen hnone
      exact ⟨⟨"none", keyId, [], limits, .inl ⟨rfl, rfl⟩, hrep⟩, rfl, hdecode⟩
    · rw [if_neg hnone] at h
      by_cases hother : m = "cookie" ∨ m = "aes"
      · rw [if_pos hother, Outcome.failIf_bind_eq_ok_iff, not_not] at h
        obtain ⟨hlen, h⟩ := h
        obtain ⟨keyId, secret, limits, hrep, hslen, rfl, rfl⟩ :=
          (decodeFields_eq_ok_iff (n := 32) hlen (f := fun keyId secret limits =>
            ⟨"rl-" ++ m, m, formatVersion, keyId, secret, some limits⟩) key).mp h
        exact ⟨⟨m, keyId, secret, limits, .inr ⟨hother, hslen⟩, hrep⟩, rfl, hdecode⟩
      · rw [if_neg hother] at h
        cases h
  · rintro ⟨c, rfl, hdecode⟩
    refine ⟨⟨c.hrp, c.payload, hdecode, c.authMethod.toList, rfl, ?_⟩, c.authMethod_mem⟩
    have hhrp : String.ofList c.hrp = "rl-" ++ c.authMethod := by
      rw [Credential.hrp, String.ofList_append, String.ofList_toList, String.ofList_toList]
    rw [hhrp, String.ofList_toList]
    have hsecret : c.authMethod ≠ "secret" := by
      intro h
      exact absurd (h ▸ c.authMethod_mem) (by decide)
    rw [if_neg hsecret]
    rcases c.secret_ok with ⟨hnone, hs⟩ | ⟨hother, hslen⟩
    · have hlen : c.payload.length = 13 := by simp [Credential.payload, hs]
      rw [if_pos hnone, Outcome.failIf_neg (not_not.mpr hlen), Outcome.ok_bind]
      have hfields := (decodeFields_eq_ok_iff (n := 0) hlen (f := fun keyId _ limits =>
          ⟨"rl-" ++ c.authMethod, "none", formatVersion, keyId, [], some limits⟩) c.decoded).mpr
        ⟨c.keyId, [], c.limits, c.representable, rfl, by rw [Credential.payload, hs],
          by rw [Credential.decoded, hs, hnone]; rfl⟩
      rw [sub_nine_nine hlen] at hfields
      exact hfields
    · have hlen : c.payload.length = 45 := by simp [Credential.payload, hslen]
      have hnone : c.authMethod ≠ "none" := by rcases hother with h | h <;> rw [h] <;> decide
      rw [if_neg hnone, if_pos hother, Outcome.failIf_neg (not_not.mpr hlen), Outcome.ok_bind]
      exact (decodeFields_eq_ok_iff (n := 32) hlen (f := fun keyId secret limits =>
        ⟨"rl-" ++ c.authMethod, c.authMethod, formatVersion, keyId, secret, some limits⟩) c.decoded).mpr
        ⟨c.keyId, c.authSecret, c.limits, c.representable, hslen, rfl, rfl⟩

/-! ### The canonical encoding -/

/-- `str::to_ascii_lowercase`. -/
def toAsciiLowercase (s : String) : String := String.ofList (s.toList.map Char.toLower)

def IsAscii (s : String) : Prop := ∀ c ∈ s.toList, c.toNat < 128

def MixedCase (s : String) : Prop :=
  s.toList.any Char.isLower = true ∧ s.toList.any Char.isUpper = true

theorem isPrintable_of_toLower {c : Char} (h : isPrintable c.toLower = true) :
    isPrintable c = true := by
  unfold Char.toLower at h
  split at h
  next hu =>
    have h1 : 65 ≤ c.toNat := hu.1
    have h2 : c.toNat ≤ 90 := hu.2
    simp only [isPrintable, decide_eq_true_eq]
    omega
  next => exact h

theorem bech32Text_printable {hrp : List Char} (h : hrp.all isPrintable = true)
    (data : List UInt8) : ∀ c ∈ bech32Text hrp data, isPrintable c = true := by
  intro c hc
  rw [bech32Text, List.mem_append, List.mem_cons] at hc
  obtain hc | rfl | hc := hc
  · exact List.all_eq_true.mp h c hc
  · decide
  · exact (mem_symbolChars hc).2.1

/-- A credential's text decodes, in either case and nothing else does. -/
theorem bech32Decode_credential_iff (c : Credential) (s : String) :
    bech32Decode s.toList = .ok (c.hrp, c.payload) ↔
      ¬ MixedCase s ∧ c.encode = .ok (toAsciiLowercase s) := by
  obtain ⟨hne, hlower, hprint, hbytes, -⟩ := c.hrp_ok
  rw [bech32Decode_eq_ok_iff, c.encode_eq, Outcome.bind_eq_ok_iff]
  simp only [Outcome.pure_eq, Outcome.ok.injEq, toAsciiLowercase, String.ofList_inj,
    exists_eq_right, bech32Encode_eq_ok_iff, hlower, convertBits_encode_eq_ok_iff]
  constructor
  · rintro ⟨-, hcase, -, data, hconv, hs⟩
    exact ⟨hcase, hne, hbytes, data, hconv, hs⟩
  · rintro ⟨hcase, -, -, data, hconv, hs⟩
    refine ⟨List.all_eq_true.mpr fun ch hch => ?_, hcase, hne, data, hconv, hs⟩
    apply isPrintable_of_toLower
    exact bech32Text_printable hprint data _ (hs ▸ List.mem_map_of_mem hch)

theorem isAscii_of_decode {s : String} {r : List Char × List UInt8}
    (h : bech32Decode s.toList = .ok r) : IsAscii s := by
  intro c hc
  have hp := List.all_eq_true.mp (bech32Decode_eq_ok_iff.mp h).1 c hc
  simp only [isPrintable, decide_eq_true_eq] at hp
  omega

theorem isUpper_eq_false_of_toLower_eq {c : Char} (h : c.toLower = c) : c.isUpper = false := by
  unfold Char.toLower at h
  split at h
  next =>
    have hval : c.val + ('a'.val - 'A'.val) = c.val := congrArg Char.val h
    simp at hval
  next hu => exact decide_eq_false hu

/-- An encoder's output is in lower case. -/
theorem toAsciiLowercase_of_encode {c : Credential} {s : String} (h : c.encode = .ok s) :
    toAsciiLowercase s = s ∧ ¬ MixedCase s := by
  obtain ⟨hne, hlower, hprint, hbytes, -⟩ := c.hrp_ok
  rw [c.encode_eq, Outcome.bind_eq_ok_iff] at h
  obtain ⟨text, htext, h⟩ := h
  obtain ⟨-, -, data, -, rfl⟩ := bech32Encode_eq_ok_iff.mp htext
  rw [hlower, Outcome.pure_eq, Outcome.ok.injEq] at h
  subst h
  have hfix : ∀ ch ∈ bech32Text c.hrp data, ch.toLower = ch := by
    intro ch hch
    rw [bech32Text, List.mem_append, List.mem_cons] at hch
    obtain hch | rfl | hch := hch
    · exact List.map_inj_left.mp (hlower.trans (List.map_id' _).symm) ch hch
    · decide
    · exact (mem_symbolChars hch).2.2
  refine ⟨?_, ?_⟩
  · rw [toAsciiLowercase, String.toList_ofList, List.map_congr_left hfix, List.map_id']
  · rintro ⟨-, hupper⟩
    obtain ⟨ch, hch, hup⟩ := List.any_eq_true.mp hupper
    rw [String.toList_ofList] at hch
    rw [isUpper_eq_false_of_toLower_eq (hfix ch hch)] at hup
    cases hup

/-- Every credential has a text. -/
theorem exists_encode_eq_ok (c : Credential) : ∃ s, c.encode = .ok s := by
  obtain ⟨hne, -, -, hbytes, -⟩ := c.hrp_ok
  obtain ⟨data, -, hconv, -⟩ := convertBits_encode c.payload
  refine ⟨String.ofList (bech32Text (c.hrp.map Char.toLower) data), ?_⟩
  rw [c.encode_eq, bech32Encode_eq_ok_iff.mpr ⟨hne, hbytes, data, hconv, rfl⟩, Outcome.ok_bind]
  rfl

theorem decodeApiKey_eq_ok_iff_encode {s : String} {key : DecodedApiKey} :
    decodeApiKey s = .ok key ∧ key.authMethod ∈ ["none", "cookie", "aes"] ↔
      IsAscii s ∧ ¬ MixedCase s ∧
        ∃ c : Credential, c.encode = .ok (toAsciiLowercase s) ∧ key = c.decoded := by
  rw [decodeApiKey_eq_ok_iff_bech32]
  constructor
  · rintro ⟨c, rfl, h⟩
    obtain ⟨hcase, henc⟩ := (bech32Decode_credential_iff c s).mp h
    exact ⟨isAscii_of_decode h, hcase, c, henc, rfl⟩
  · rintro ⟨-, hcase, c, henc, rfl⟩
    exact ⟨c, rfl, (bech32Decode_credential_iff c s).mpr ⟨hcase, henc⟩⟩

theorem decodeApiKey_encode {c : Credential} {s : String} (h : c.encode = .ok s) :
    decodeApiKey s = .ok c.decoded := by
  obtain ⟨hlower, hcase⟩ := toAsciiLowercase_of_encode h
  refine (decodeApiKey_eq_ok_iff_bech32.mpr ⟨c, rfl, ?_⟩).1
  rw [bech32Decode_credential_iff, hlower]
  exact ⟨hcase, h⟩

theorem Credential.decoded_injective : Function.Injective Credential.decoded := by
  rintro ⟨⟩ ⟨⟩ h
  simp only [Credential.decoded, DecodedApiKey.mk.injEq, Option.some.injEq] at h
  obtain ⟨-, rfl, -, rfl, rfl, rfl⟩ := h
  rfl

/-- API key text is a canonical encoding of the credentials. -/
theorem decodeApiKey_canonical :
    (∀ s key, decodeApiKey s = .ok key ∧ key.authMethod ∈ ["none", "cookie", "aes"] ↔
      IsAscii s ∧ ¬ MixedCase s ∧
        ∃ c : Credential, c.encode = .ok (toAsciiLowercase s) ∧ key = c.decoded) ∧
    (∀ c : Credential, ∃ s, c.encode = .ok s ∧ decodeApiKey s = .ok c.decoded) ∧
    ∀ s s' key, decodeApiKey s = .ok key → decodeApiKey s' = .ok key →
      key.authMethod ∈ ["none", "cookie", "aes"] → toAsciiLowercase s = toAsciiLowercase s' := by
  refine ⟨fun s key => decodeApiKey_eq_ok_iff_encode, fun c => ?_, ?_⟩
  · obtain ⟨s, hs⟩ := exists_encode_eq_ok c
    exact ⟨s, hs, decodeApiKey_encode hs⟩
  · intro s s' key h h' hmem
    obtain ⟨-, -, c, henc, rfl⟩ := decodeApiKey_eq_ok_iff_encode.mp ⟨h, hmem⟩
    obtain ⟨-, -, c', henc', heq⟩ := decodeApiKey_eq_ok_iff_encode.mp ⟨h', hmem⟩
    rw [Credential.decoded_injective heq, henc'] at henc
    exact (Outcome.ok.inj henc).symm

end Ratelimitly
