import Mathlib.Tactic
import Ratelimitly.Client

/-! The peeks of the router and of the allow-list check read what the full parser reads. -/
namespace Ratelimitly

open Lib

variable {data : List UInt8} {header : TenantHeader} {pos : ℕ}

/-- A datagram that passes the checks of the peeks has a tenant header. -/
theorem exists_header_of_checks (htype : le16 (sub data 0 2) = tlvTenant)
    (hge : 40 ≤ (le16 (sub data 2 4)).toNat) (hle : (le16 (sub data 2 4)).toNat ≤ data.length) :
    ∃ header pos, parseTenantHeader data = .ok (header, pos) := by
  have hsub (a b : ℕ) (hb : b ≤ 4) :
      sub (data.take (le16 (sub data 2 4)).toNat) a b = sub data a b := by
    rw [show data.take (le16 (sub data 2 4)).toNat = sub data 0 (le16 (sub data 2 4)).toNat by
      simp [sub], sub_of_sub _ (by omega)]
    simp
  refine ⟨_, _, parseTenantHeader_eq_ok_iff.mpr ⟨hle, ⟨?_, ?_, ?_⟩, rfl⟩⟩
  · rw [hsub 0 2 (by omega)]
    exact (le16_eq_iff (length_sub_of_le (by omega))).mp htype
  · rw [hsub 2 4 (by omega), List.length_take_of_le hle, toNat_le16 (length_sub_of_le (by omega))]
  · rwa [List.length_take_of_le hle]

/-- Both peeks start with the checks, and then read their field. -/
theorem exists_header_of_peek {α : Type} {n : ℕ} (hn : 4 ≤ n) {field : Outcome Unit α} {a : α}
    (h : (do
      Outcome.failIf (data.length < n) ()
      let tlvType ← u16At data 0
      let tlvSize := (← u16At data 2).toNat
      Outcome.failIf (tlvType ≠ tlvTenant ∨ tlvSize < 40 ∨ data.length < tlvSize) ()
      field) = .ok a) :
    ∃ header pos, parseTenantHeader data = .ok (header, pos) := by
  rw [Outcome.failIf_bind_eq_ok_iff] at h
  obtain ⟨hlen, h⟩ := h
  rw [u16At_of_le (by omega), Outcome.ok_bind, u16At_of_le (by omega), Outcome.ok_bind,
    Outcome.failIf_bind_eq_ok_iff] at h
  obtain ⟨hchecks, -⟩ := h
  simp only [Nat.zero_add, Nat.reduceAdd, not_or, not_not, not_lt] at hchecks
  exact exists_header_of_checks hchecks.1 hchecks.2.1 hchecks.2.2

theorem exists_header_of_peekServerId {id : UInt64} (h : peekServerId data = .ok id) :
    ∃ header pos, parseTenantHeader data = .ok (header, pos) :=
  exists_header_of_peek (n := 12) (by decide) h

theorem exists_header_of_peekRequestId {id : Bytes 16} (h : peekRequestId data = .ok id) :
    ∃ header pos, parseTenantHeader data = .ok (header, pos) :=
  exists_header_of_peek (n := 28) (by decide) h

/-- Without a tenant header both peeks are `None`. -/
theorem peeks_none (h : (parseTenantHeader data).isOk = false) :
    peekRequestId data = .err () ∧ peekServerId data = .err () := by
  have hno : ¬ ∃ header pos, parseTenantHeader data = .ok (header, pos) := by
    rintro ⟨header, pos, hheader⟩
    rw [hheader] at h
    cases h
  constructor
  · obtain ⟨⟨⟩, he⟩ := (returns_peekRequestId data).exists_err fun id hid =>
      hno (exists_header_of_peekRequestId hid)
    exact he
  · obtain ⟨⟨⟩, he⟩ := (returns_peekServerId data).exists_err fun id hid =>
      hno (exists_header_of_peekServerId hid)
    exact he

/-! ### Decodable answers -/

/-- The router hands a decodable answer to the call that is registered under its id. -/
theorem Client.State.route_of_header (s : State) (generation : ℕ) (addr : SocketAddr)
    (h : parseTenantHeader data = .ok (header, pos)) :
    s.route generation ⟨data, addr⟩ =
      match s.inflight header.uniqueId with
      | some i => .delivering generation i ⟨data, addr⟩
      | none => .reading := by
  cases hid : s.inflight header.uniqueId with
  | none => simp only [route, peekRequestId_of_header h, hid]
  | some i => simp only [route, peekRequestId_of_header h, hid]

/-- The allow-list check judges a decodable answer by the server that it names. -/
theorem Registration.acceptedResult_of_parse {reg : Registration} {result : RateLimitResult}
    (addr : SocketAddr) (h : reg.parseRateResponse data = .ok result) :
    reg.acceptedResult ⟨data, addr⟩ =
      if reg.resolved.allowedServerIds ≠ [] ∧ result.serverId ∉ reg.resolved.allowedServerIds then
        none
      else some result := by
  obtain ⟨header, pos, hheader, hid⟩ := exists_header_of_parse h
  rw [acceptedResult, peekServerId_of_header hheader, hid, h]

/-- Both peeks are `Some` iff the tenant header parses, and then they are its fields. An answer that
decodes is routed and judged by the ids that it carries. -/
theorem peeks_agree :
    (∀ data, (∀ header pos, parseTenantHeader data = .ok (header, pos) →
        peekRequestId data = .ok header.uniqueId ∧ peekServerId data = .ok header.keyId) ∧
      ((parseTenantHeader data).isOk = false →
        peekRequestId data = .err () ∧ peekServerId data = .err ())) ∧
    ∀ crypto data authMethod cookie aes result,
      parseRateResponseWithAuth crypto data authMethod cookie aes = .ok result →
        ∃ header pos, parseTenantHeader data = .ok (header, pos) ∧
          peekRequestId data = .ok header.uniqueId ∧ peekServerId data = .ok result.serverId ∧
          (∀ (s : Client.State) generation addr, s.route generation ⟨data, addr⟩ =
            match s.inflight header.uniqueId with
            | some i => .delivering generation i ⟨data, addr⟩
            | none => .reading) ∧
          ∀ (reg : Registration) addr, reg.parseRateResponse data = .ok result →
            reg.acceptedResult ⟨data, addr⟩ =
              if reg.resolved.allowedServerIds ≠ [] ∧
                  result.serverId ∉ reg.resolved.allowedServerIds then none
              else some result := by
  refine ⟨fun data => ⟨fun header pos h => ?_, peeks_none⟩, ?_⟩
  · exact ⟨peekRequestId_of_header h, peekServerId_of_header h⟩
  · intro crypto data authMethod cookie aes result h
    obtain ⟨header, pos, hheader, hid⟩ := exists_header_of_parse h
    refine ⟨header, pos, hheader, peekRequestId_of_header hheader, ?_, ?_, ?_⟩
    · rw [hid]
      exact peekServerId_of_header hheader
    · intro s generation addr
      exact s.route_of_header generation addr hheader
    · intro reg addr hparse
      exact Registration.acceptedResult_of_parse addr hparse

end Ratelimitly
