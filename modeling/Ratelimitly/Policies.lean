import Mathlib.Tactic
import Ratelimitly.ClientSteps
import Ratelimitly.Definitions
import Ratelimitly.RequestFormat
import Ratelimitly.Schedules

/-! The horizon of a policy is exact, and a built client keeps to it. -/
namespace Ratelimitly

open Lib

namespace RequestPolicy

/-- The longest duration of a request; `expect` turns an error into a panic. -/
def horizon (policy : RequestPolicy) : Outcome Error Duration :=
  match policy.horizonMs 4294967295 with
  | .ok horizonMs => .ok (.fromMillis horizonMs.toUInt64)
  | _ => .panic

variable {policy : RequestPolicy} {limit horizon : UInt32}

/-- `U × (B(0) + ... + B(N) + F)` in unbounded integers. -/
def exactHorizon (policy : RequestPolicy) : ℕ :=
  policy.unitMs.toNat *
    ((policy.rounds.map policy.replayGap.closedForm).sum + policy.finalReceiveUnits.toNat)

/-- What `horizon_ms` asks of a policy apart from its length. -/
structure WellFormed (policy : RequestPolicy) : Prop where
  unit_pos : 0 < policy.unitMs.toNat
  replayCount_le : policy.replayCount.toNat ≤ 65535
  schedule : policy.replayGap.WellFormed

/-- The sum of the rounds fits. -/
theorem totalUnits_of_wellFormed {replayGap : Schedule} (h : replayGap.WellFormed)
    {rounds : List ℕ} {start : UInt64} (hrounds : ∀ round ∈ rounds, round < 2 ^ 32)
    (hfits : start.toNat + rounds.length * 2 ^ 32 < 2 ^ 64) : ∃ total,
      totalUnits replayGap rounds start = .ok total ∧
        total.toNat = start.toNat + (rounds.map replayGap.closedForm).sum := by
  induction rounds generalizing start with
  | nil => exact ⟨start, rfl, by simp⟩
  | cons round rounds ih =>
    rw [List.length_cons] at hfits
    obtain ⟨units, hunits, -, heq⟩ := Schedule.units_of_wellFormed h (UInt32.ofNat round)
    have hround : (UInt32.ofNat round).toNat = round :=
      UInt32.toNat_ofNat_of_lt' (hrounds round List.mem_cons_self)
    rw [hround] at heq
    have hlt := units.toNat_lt
    have hadd : (start + units.toUInt64).toNat = start.toNat + units.toNat := by
      rw [UInt64.toNat_add, UInt32.toNat_toUInt64, Nat.mod_eq_of_lt (by omega)]
    have hchecked : checkedAdd64 start units.toUInt64 = some (start + units.toUInt64) := by
      rw [checkedAdd64_eq_some_iff, hadd, UInt32.toNat_toUInt64]
    have hfits' : (start + units.toUInt64).toNat + rounds.length * 2 ^ 32 < 2 ^ 64 := by
      rw [hadd]
      omega
    obtain ⟨total, htotal, hsum⟩ := ih (fun k hk => hrounds k (List.mem_cons_of_mem _ hk)) hfits'
    refine ⟨total, ?_, ?_⟩
    · rw [totalUnits, hunits, Outcome.ok_bind, hchecked]
      exact htotal
    · rw [hsum, hadd, heq, List.map_cons, List.sum_cons, Nat.add_assoc]

theorem WellFormed.totalUnits (h : policy.WellFormed) : ∃ total,
    RequestPolicy.totalUnits policy.replayGap policy.rounds policy.finalReceiveUnits.toUInt64 =
      .ok total ∧ policy.exactHorizon = total.toNat * policy.unitMs.toNat ∧ total.toNat ≠ 0 := by
  have hcount := h.replayCount_le
  have hfinal := policy.finalReceiveUnits.toNat_lt
  have hrounds : ∀ round ∈ policy.rounds, round < 2 ^ 32 := by
    intro round hround
    have hlt := List.mem_range.mp hround
    omega
  have hfits : policy.finalReceiveUnits.toUInt64.toNat + policy.rounds.length * 2 ^ 32 < 2 ^ 64 := by
    rw [UInt32.toNat_toUInt64, rounds, List.length_range]
    omega
  obtain ⟨total, htotal, hsum⟩ := totalUnits_of_wellFormed h.schedule hrounds hfits
  rw [UInt32.toNat_toUInt64] at hsum
  refine ⟨total, htotal, ?_, ?_⟩
  · rw [exactHorizon, hsum]
    ring
  · -- the first round is not empty
    have hfirst : 0 < policy.replayGap.closedForm 0 := by
      have hinitial := (Schedule.closedForm_mono h.schedule (le_refl 0)).1
      have hne : policy.replayGap.initialUnits.toNat ≠ 0 := fun h0 =>
        h.schedule.initial_ne (UInt32.toNat_inj.mp h0)
      omega
    have hmem : policy.replayGap.closedForm 0 ∈ policy.rounds.map policy.replayGap.closedForm :=
      List.mem_map.mpr ⟨0, List.mem_range.mpr (Nat.succ_pos _), rfl⟩
    have hle := List.single_le_sum (by simp) _ hmem
    omega

theorem wellFormed_of_horizonMs (h : policy.horizonMs limit = .ok horizon) : policy.WellFormed := by
  have haccepted := accepted_of_horizonMs h
  refine ⟨haccepted.unit_pos, haccepted.replayCount_le, ?_⟩
  by_contra hschedule
  obtain ⟨units, hunits⟩ := haccepted.units_ok 0 (Nat.zero_le _)
  rw [(Schedule.units_of_not_wellFormed hschedule _).1] at hunits
  cases hunits

/-- The horizon is computed exactly when it fits, and then exactly. -/
theorem horizonMs_eq_ok_iff : policy.horizonMs limit = .ok horizon ↔
    0 < policy.unitMs.toNat ∧ policy.replayCount.toNat ≤ 65535 ∧ 0 < limit.toNat ∧
      policy.replayGap.WellFormed ∧ policy.exactHorizon ≤ min limit.toNat (2 ^ 32 - 1) ∧
        horizon.toNat = policy.exactHorizon := by
  have hlimit := limit.toNat_lt
  constructor
  · intro h
    have hwell := wellFormed_of_horizonMs h
    obtain ⟨total, htotal, hexact, -⟩ := hwell.totalUnits
    unfold horizonMs at h
    rw [Outcome.failIf_bind_eq_ok_iff, htotal, Outcome.ok_bind] at h
    obtain ⟨hfirst, h⟩ := h
    obtain ⟨product, hproduct, h⟩ := Outcome.bind_eq_ok_iff.mp h
    rw [Outcome.failIf_bind_eq_ok_iff, Outcome.failIf_bind_eq_ok_iff] at h
    obtain ⟨-, hle, h⟩ := h
    cases h
    rw [Outcome.okOr_eq_ok_iff, checkedMul64_eq_some_iff, ← hexact] at hproduct
    rw [gt_iff_lt, UInt64.lt_iff_toNat_lt, not_lt, UInt32.toNat_toUInt64, hproduct] at hle
    have hpos : 0 < limit.toNat := Nat.pos_of_ne_zero fun h0 =>
      hfirst (.inr (.inr (UInt32.toNat_inj.mp h0)))
    refine ⟨hwell.unit_pos, hwell.replayCount_le, hpos, hwell.schedule,
      le_min hle (by omega), ?_⟩
    rw [UInt64.toNat_toUInt32, hproduct, Nat.mod_eq_of_lt (by omega)]
  · rintro ⟨hunit, hcount, hpos, hschedule, hfits, hhorizon⟩
    have hle := (le_min_iff.mp hfits).1
    obtain ⟨total, htotal, hexact, hne⟩ := WellFormed.totalUnits ⟨hunit, hcount, hschedule⟩
    have hunit_lt := policy.unitMs.toNat_lt
    have hproduct : checkedMul64 total policy.unitMs = some (total * policy.unitMs) := by
      rw [checkedMul64, if_pos (by rw [← hexact]; omega)]
    have hnat : (total * policy.unitMs).toNat = policy.exactHorizon := by
      rw [checkedMul64_eq_some_iff.mp hproduct, hexact]
    have hfirst : ¬ (policy.unitMs = 0 ∨ policy.replayCount > maxReplayCount ∨ limit = 0) := by
      rintro (hzero | hlarge | hzero)
      · rw [hzero] at hunit
        exact absurd hunit (by decide)
      · rw [gt_iff_lt, UInt32.lt_iff_toNat_lt] at hlarge
        simp only [maxReplayCount, UInt32.reduceToNat] at hlarge
        omega
      · rw [hzero] at hpos
        exact absurd hpos (by decide)
    have hsecond : ¬ (total = 0 ∨ total * policy.unitMs > UInt64.ofNat (2 ^ 32 - 1)) := by
      rintro (hzero | hlarge)
      · exact hne (by rw [hzero]; rfl)
      · rw [gt_iff_lt, UInt64.lt_iff_toNat_lt, hnat] at hlarge
        simp at hlarge
        omega
    have hthird : ¬ total * policy.unitMs > limit.toUInt64 := by
      rw [gt_iff_lt, UInt64.lt_iff_toNat_lt, hnat, UInt32.toNat_toUInt64]
      omega
    rw [horizonMs, Outcome.failIf_neg hfirst, Outcome.ok_bind, htotal, Outcome.ok_bind, hproduct,
      Outcome.okOr, Outcome.ok_bind, Outcome.failIf_neg hsecond, Outcome.ok_bind,
      Outcome.failIf_neg hthird, Outcome.ok_bind, Outcome.pure_eq, Outcome.ok.injEq,
      ← UInt32.toNat_inj, UInt64.toNat_toUInt32, hnat, hhorizon, Nat.mod_eq_of_lt (by omega)]

theorem horizon_of_horizonMs (h : policy.horizonMs 4294967295 = .ok horizon) :
    policy.horizon = .ok (.fromMillis horizon.toUInt64) := by rw [RequestPolicy.horizon, h]

/-- What the request loop computes from a policy with this horizon: every round has a length, no
multiplication saturates, and the phases add up to the horizon. -/
structure Phases (policy : RequestPolicy) (horizon : UInt32) (gap : ℕ → UInt32) : Prop where
  units : ∀ k ≤ policy.replayCount.toNat, policy.replayGap.units (UInt32.ofNat k) = .ok (gap k)
  round : ∀ k ≤ policy.replayCount.toNat,
    (policy.phaseMs (gap k)).toNat = policy.unitMs.toNat * (gap k).toNat
  final : (policy.phaseMs policy.finalReceiveUnits).toNat =
    policy.unitMs.toNat * policy.finalReceiveUnits.toNat
  sum : (policy.rounds.map fun k => (policy.phaseMs (gap k)).toNat).sum +
    (policy.phaseMs policy.finalReceiveUnits).toNat = horizon.toNat

theorem phases_of_horizonMs (h : policy.horizonMs limit = .ok horizon) :
    ∃ gap, policy.Phases horizon gap := by
  obtain ⟨-, -, -, hschedule, -, hhorizon⟩ := horizonMs_eq_ok_iff.mp h
  have hlt := horizon.toNat_lt
  choose gap hgap _ heq using fun k =>
    Schedule.units_of_wellFormed hschedule (UInt32.ofNat k)
  have hcount := (wellFormed_of_horizonMs h).replayCount_le
  -- each phase is a part of the horizon
  have hform : ∀ k ∈ policy.rounds, policy.replayGap.closedForm k = (gap k).toNat := by
    intro k hk
    have hround : (UInt32.ofNat k).toNat = k := by
      have hlt := List.mem_range.mp hk
      exact UInt32.toNat_ofNat_of_lt' (by simp only [UInt32.size]; omega)
    rw [heq k, hround]
  have hexact : horizon.toNat = (policy.rounds.map fun k => policy.unitMs.toNat * (gap k).toNat).sum +
      policy.unitMs.toNat * policy.finalReceiveUnits.toNat := by
    rw [hhorizon, exactHorizon, List.map_congr_left hform, Nat.mul_add, List.sum_map_mul_left]
  have hround : ∀ k ≤ policy.replayCount.toNat,
      (policy.phaseMs (gap k)).toNat = policy.unitMs.toNat * (gap k).toNat := by
    intro k hk
    have hmem : policy.unitMs.toNat * (gap k).toNat ∈
        policy.rounds.map fun k => policy.unitMs.toNat * (gap k).toNat :=
      List.mem_map.mpr ⟨k, List.mem_range.mpr (Nat.lt_succ_of_le hk), rfl⟩
    have hle := List.single_le_sum (by simp) _ hmem
    rw [phaseMs, toNat_saturatingMul64 (by rw [UInt32.toNat_toUInt64]; omega),
      UInt32.toNat_toUInt64]
  have hfinal : (policy.phaseMs policy.finalReceiveUnits).toNat =
      policy.unitMs.toNat * policy.finalReceiveUnits.toNat := by
    rw [phaseMs, toNat_saturatingMul64 (by rw [UInt32.toNat_toUInt64]; omega),
      UInt32.toNat_toUInt64]
  refine ⟨gap, fun k _ => hgap k, hround, hfinal, ?_⟩
  rw [hexact, hfinal, List.map_congr_left]
  intro k hk
  exact hround k (Nat.le_of_lt_succ (List.mem_range.mp hk))

end RequestPolicy

/-! ### Built policies -/

/-- A policy that is being built; the setters set one field. -/
structure RequestPolicyBuilder where
  unit : Duration
  replayCount : UInt32
  replayGap : Schedule
  finalReceiveUnits : UInt32
  completionDelivery : Bool

namespace RequestPolicyBuilder

/-- `impl Default for RequestPolicyBuilder`. -/
def default : RequestPolicyBuilder where
  unit := .fromMillis RequestPolicy.default.unitMs
  replayCount := RequestPolicy.default.replayCount
  replayGap := RequestPolicy.default.replayGap
  finalReceiveUnits := RequestPolicy.default.finalReceiveUnits
  completionDelivery := RequestPolicy.default.completionDelivery

def build (builder : RequestPolicyBuilder) : Outcome Error RequestPolicy := do
  let millis := builder.unit.asMillis
  .failIf (builder.unit.isZero ∨ builder.unit.nanos.toNat % 1000000 ≠ 0 ∨ millis > 2 ^ 64 - 1)
    (.invalidConfiguration (.invalidDuration "request policy unit"))
  let policy : RequestPolicy := {
    unitMs := .ofNat millis
    replayCount := builder.replayCount
    replayGap := builder.replayGap
    finalReceiveUnits := builder.finalReceiveUnits
    completionDelivery := builder.completionDelivery }
  let _ ← (policy.horizonMs 4294967295).mapErr .invalidConfiguration
  pure policy

theorem horizonMs_of_build {builder : RequestPolicyBuilder} {policy : RequestPolicy}
    (h : builder.build = .ok policy) : ∃ horizon, policy.horizonMs 4294967295 = .ok horizon := by
  rw [build, Outcome.failIf_bind_eq_ok_iff] at h
  obtain ⟨horizon, hhorizon, h⟩ := Outcome.bind_eq_ok_iff.mp h.2
  cases h
  exact ⟨horizon, Outcome.mapErr_eq_ok_iff.mp hhorizon⟩

end RequestPolicyBuilder

/-! ### Requests of a client -/

namespace Client

variable {client : CoreClient} {s : State}

/-- A built client has checked its policy. -/
theorem horizonMs_of_reachable (h : (lts client).Reachable s) :
    ∃ dedupTtlMs, Request.Horizon client dedupTtlMs := by
  refine h.invariant (P := fun _ => ∃ dedupTtlMs, Request.Horizon client dedupTtlMs) ?_ ?_
  · rintro s ⟨bindUdp, now, hnew⟩
    obtain ⟨-, dedupTtlMs, -, hhorizon, -⟩ := new_eq_ok_iff.mp hnew
    exact ⟨dedupTtlMs, hhorizon⟩
  · intro s event t _ hs _
    exact hs

/-- The packet carries a rate request with this deduplication lifetime. -/
def SendsTtl (client : CoreClient) (dedupTtlMs : UInt32) (packet : List UInt8) : Prop :=
  ∃ seed header pdu, le32 (sub pdu 4 8) = dedupTtlMs ∧
    buildPacket client.crypto seed client.config.apiKey.authMethod
      client.config.apiKey.authMethod.cookieHashCache client.config.apiKey.authMethod.aesKeyCache
      header pdu = .ok packet

theorem sendsTtl_of_packetOf {query : Query} {dedupTtlMs : UInt32} {seed : PacketSeed}
    {packet : List UInt8} (h : Request.packetOf client query dedupTtlMs seed = .ok packet) :
    SendsTtl client dedupTtlMs packet := by
  rw [Request.packetOf, buildRateRequestPacket] at h
  obtain ⟨body, -, h⟩ := Outcome.bind_eq_ok_iff.mp h
  obtain ⟨pdu, hpdu, h⟩ := Outcome.bind_eq_ok_iff.mp h
  refine ⟨_, _, pdu, ?_, h⟩
  rw [(framePdu_isPdu (by simp) hpdu).field_eq, le32_leBytes]

end Client

/-- The horizon of a policy is exact: it is accepted iff the parts are well formed and the exact
integer fits, built policies have one, and every request of a client lasts as long as it says on
the wire. -/
theorem horizon_exact :
    (∀ (policy : RequestPolicy) (limit horizon : UInt32), policy.horizonMs limit = .ok horizon ↔
      0 < policy.unitMs.toNat ∧ policy.replayCount.toNat ≤ 65535 ∧ 0 < limit.toNat ∧
        policy.replayGap.WellFormed ∧ policy.exactHorizon ≤ min limit.toNat (2 ^ 32 - 1) ∧
          horizon.toNat = policy.exactHorizon) ∧
    (∀ policy : RequestPolicy, policy.WellFormed → ∃ total,
      RequestPolicy.totalUnits policy.replayGap policy.rounds policy.finalReceiveUnits.toUInt64 =
        .ok total ∧ policy.exactHorizon = total.toNat * policy.unitMs.toNat ∧ total.toNat ≠ 0) ∧
    (∀ initial growth max : UInt32, ((Schedule.fixed initial).WellFormed ↔ initial ≠ 0) ∧
      ((Schedule.linear initial growth max).WellFormed ↔
        initial ≠ 0 ∧ initial ≤ max ∧ growth ≠ 0) ∧
      ((Schedule.exponential initial growth max).WellFormed ↔
        initial ≠ 0 ∧ initial ≤ max ∧ 2 ≤ growth)) ∧
    (∀ policy : RequestPolicy, (policy = .default ∨
        ∃ builder : RequestPolicyBuilder, builder.build = .ok policy) →
      ∃ horizon : UInt32, horizon.toNat = policy.exactHorizon ∧
        policy.horizon = .ok (.fromMillis horizon.toUInt64)) ∧
    ∀ (client : CoreClient) (s : Client.State), (Client.lts client).Reachable s →
      ∃ dedupTtlMs gap, Request.Horizon client dedupTtlMs ∧
        client.config.requestPolicy.Phases dedupTtlMs gap ∧
        ∀ i pc flight, s.pcAt i = some pc → pc.flight = some flight →
          flight.reg.policy = client.config.requestPolicy ∧ flight.reg.dedupTtlMs = dedupTtlMs ∧
            Client.SendsTtl client dedupTtlMs flight.reg.packet := by
  refine ⟨fun _ _ _ => RequestPolicy.horizonMs_eq_ok_iff, fun _ h => h.totalUnits,
    fun _ _ _ => ⟨Schedule.wellFormed_fixed, Schedule.wellFormed_linear,
      Schedule.wellFormed_exponential⟩, ?_, ?_⟩
  · intro policy hpolicy
    have hhorizon : ∃ horizon, policy.horizonMs 4294967295 = .ok horizon := by
      rcases hpolicy with rfl | ⟨builder, hbuild⟩
      · exact ⟨60, by decide⟩
      · exact RequestPolicyBuilder.horizonMs_of_build hbuild
    obtain ⟨horizon, hhorizon⟩ := hhorizon
    exact ⟨horizon, (RequestPolicy.horizonMs_eq_ok_iff.mp hhorizon).2.2.2.2.2,
      RequestPolicy.horizon_of_horizonMs hhorizon⟩
  · intro client s hs
    obtain ⟨dedupTtlMs, hhorizon⟩ := Client.horizonMs_of_reachable hs
    obtain ⟨gap, hgap⟩ := RequestPolicy.phases_of_horizonMs hhorizon
    refine ⟨dedupTtlMs, gap, hhorizon, hgap, ?_⟩
    intro i pc flight hpc hflight
    obtain ⟨query, hreachable⟩ := Client.request_reachable hs hpc
    obtain ⟨hregistered, -⟩ := Request.sound_flight hreachable hflight
    obtain ⟨seed, hpacket, hreg⟩ := hregistered.packet
    have httl : flight.reg.dedupTtlMs = dedupTtlMs :=
      Outcome.ok.inj (hregistered.horizon.symm.trans hhorizon)
    refine ⟨by rw [hreg]; rfl, httl, ?_⟩
    rw [← httl]
    exact Client.sendsTtl_of_packetOf hpacket

end Ratelimitly
