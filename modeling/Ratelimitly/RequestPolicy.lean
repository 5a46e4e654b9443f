import Mathlib.Tactic
import Ratelimitly.Lib.Word
import Ratelimitly.Error

/-! Request policies: round schedules and the request horizon. -/
namespace Ratelimitly

open Lib

def maxReplayCount : UInt32 := 65535

inductive ScheduleKind where
  | fixed
  | linear
  | exponential
  deriving DecidableEq, Repr

structure Schedule where
  kind : ScheduleKind
  initialUnits : UInt32
  maxUnits : UInt32
  growth : UInt32
  deriving DecidableEq, Repr

namespace Schedule

def fixed (units : UInt32) : Schedule := ⟨.fixed, units, units, 0⟩

def linear (initialUnits stepUnits maxUnits : UInt32) : Schedule :=
  ⟨.linear, initialUnits, maxUnits, stepUnits⟩

def exponential (initialUnits factor maxUnits : UInt32) : Schedule :=
  ⟨.exponential, initialUnits, maxUnits, factor⟩

/-- The loop of the exponential case, `rounds` iterations from `value`. -/
def exponentialLoop (maxUnits growth : UInt32) : ℕ → UInt32 → UInt32
  | 0, value => min value maxUnits
  | rounds + 1, value =>
    if value ≥ maxUnits ∨ value > maxUnits / growth then maxUnits
    else exponentialLoop maxUnits growth rounds (value * growth)

def units (schedule : Schedule) (round : UInt32) : Outcome ConfigurationError UInt32 := do
  .failIf (schedule.initialUnits = 0 ∨ schedule.maxUnits < schedule.initialUnits)
    .invalidRequestPolicy
  match schedule.kind with
  | .fixed => do
    .failIf (schedule.maxUnits ≠ schedule.initialUnits ∨ schedule.growth ≠ 0)
      .invalidRequestPolicy
    pure schedule.initialUnits
  | .linear => do
    .failIf (schedule.growth = 0) .invalidRequestPolicy
    let room := schedule.maxUnits - schedule.initialUnits
    if round > room / schedule.growth then pure schedule.maxUnits
    else pure (schedule.initialUnits + round * schedule.growth)
  | .exponential => do
    .failIf (schedule.growth < 2) .invalidRequestPolicy
    pure (exponentialLoop schedule.maxUnits schedule.growth round.toNat schedule.initialUnits)

/-- The length of a round as a number; a malformed schedule has none. -/
def gapUnits (schedule : Schedule) (round : ℕ) : ℕ :=
  match schedule.units (UInt32.ofNat round) with
  | .ok units => units.toNat
  | _ => 0

theorem gapUnits_of_ok {schedule : Schedule} {round : ℕ} {units : UInt32}
    (h : schedule.units (UInt32.ofNat round) = .ok units) :
    schedule.gapUnits round = units.toNat := by simp [gapUnits, h]

end Schedule

structure RequestPolicy where
  unitMs : UInt64
  replayCount : UInt32
  replayGap : Schedule
  finalReceiveUnits : UInt32
  completionDelivery : Bool
  deriving DecidableEq, Repr

namespace RequestPolicy

/-- `impl Default for RequestPolicy`. -/
def default : RequestPolicy where
  unitMs := 20
  replayCount := 1
  replayGap := .fixed 1
  finalReceiveUnits := 1
  completionDelivery := true

/-- The rounds `0..=replay_count`. -/
def rounds (policy : RequestPolicy) : List ℕ := List.range (policy.replayCount.toNat + 1)

/-- The summation loop of `horizon_ms`. -/
def totalUnits (replayGap : Schedule) : List ℕ → UInt64 → Outcome ConfigurationError UInt64
  | [], total => pure total
  | round :: rounds, total => do
    let units ← replayGap.units (UInt32.ofNat round)
    let total ← .okOr .invalidRequestPolicy (checkedAdd64 total units.toUInt64)
    totalUnits replayGap rounds total

def horizonMs (policy : RequestPolicy) (dedupTtlMsMax : UInt32) :
    Outcome ConfigurationError UInt32 := do
  .failIf (policy.unitMs = 0 ∨ policy.replayCount > maxReplayCount ∨ dedupTtlMsMax = 0)
    .invalidRequestPolicy
  let totalUnits ← totalUnits policy.replayGap policy.rounds policy.finalReceiveUnits.toUInt64
  let horizon ← .okOr .invalidRequestPolicy (checkedMul64 totalUnits policy.unitMs)
  .failIf (totalUnits = 0 ∨ horizon > UInt64.ofNat (2 ^ 32 - 1)) .invalidRequestPolicy
  .failIf (horizon > dedupTtlMsMax.toUInt64) .requestPolicyExceedsApiKey
  pure horizon.toUInt32

/-- `unit_ms.saturating_mul(units)`, the length of a round or of the final receive phase. -/
def phaseMs (policy : RequestPolicy) (units : UInt32) : UInt64 :=
  saturatingMul64 policy.unitMs units.toUInt64

theorem totalUnits_spec {replayGap : Schedule} {rounds : List ℕ} {start total : UInt64}
    (h : totalUnits replayGap rounds start = .ok total) :
    (∀ round ∈ rounds, ∃ units, replayGap.units (UInt32.ofNat round) = .ok units) ∧
      total.toNat = start.toNat + (rounds.map replayGap.gapUnits).sum := by
  induction rounds generalizing start with
  | nil =>
    cases h
    simp
  | cons round rounds ih =>
    simp only [totalUnits, Outcome.bind_eq_ok_iff, Outcome.okOr_eq_ok_iff,
      checkedAdd64_eq_some_iff] at h
    obtain ⟨units, hu, next, hn, h⟩ := h
    obtain ⟨hall, hsum⟩ := ih h
    refine ⟨?_, ?_⟩
    · simpa [hu] using hall
    · rw [hsum, hn, List.map_cons, List.sum_cons, Schedule.gapUnits_of_ok hu]
      simp
      omega

/-- `U × (B(0) + ... + B(n - 1))`, in milliseconds. -/
def elapsedMs (policy : RequestPolicy) (n : ℕ) : ℕ :=
  policy.unitMs.toNat * ((List.range n).map policy.replayGap.gapUnits).sum

theorem elapsedMs_succ (policy : RequestPolicy) (n : ℕ) :
    policy.elapsedMs (n + 1) =
      policy.elapsedMs n + policy.unitMs.toNat * policy.replayGap.gapUnits n := by
  simp [elapsedMs, List.range_succ, Nat.mul_add]

/-- What an accepted policy guarantees to the request loop. -/
structure Accepted (policy : RequestPolicy) (horizon : ℕ) : Prop where
  unit_pos : 0 < policy.unitMs.toNat
  replayCount_le : policy.replayCount.toNat ≤ 65535
  units_ok : ∀ k ≤ policy.replayCount.toNat,
    ∃ units, policy.replayGap.units (UInt32.ofNat k) = .ok units
  horizon_eq : horizon = policy.elapsedMs (policy.replayCount.toNat + 1) +
    policy.unitMs.toNat * policy.finalReceiveUnits.toNat
  horizon_lt : horizon < 2 ^ 32

theorem accepted_of_horizonMs {policy : RequestPolicy} {limit horizon : UInt32}
    (h : policy.horizonMs limit = .ok horizon) : policy.Accepted horizon.toNat := by
  simp only [horizonMs, Outcome.bind_eq_ok_iff, Outcome.failIf_eq_ok_iff, Outcome.okOr_eq_ok_iff,
    checkedMul64_eq_some_iff, Outcome.pure_eq, Outcome.ok.injEq, not_or] at h
  obtain ⟨-, ⟨hunit, hcount, -⟩, total, htotal, product, hproduct, -, ⟨-, hmax⟩, -, -, rfl⟩ := h
  obtain ⟨hall, hsum⟩ := totalUnits_spec htotal
  have hlt : product.toNat < 2 ^ 32 := by
    simp only [gt_iff_lt, UInt64.lt_iff_toNat_lt, not_lt] at hmax
    exact Nat.lt_of_le_of_lt hmax (by decide)
  have heq : product.toUInt32.toNat = product.toNat := by
    rw [UInt64.toNat_toUInt32, Nat.mod_eq_of_lt hlt]
  refine ⟨?_, ?_, ?_, ?_, heq ▸ hlt⟩
  · exact Nat.pos_of_ne_zero fun h0 => hunit (UInt64.toNat_inj.mp h0)
  · simpa [maxReplayCount, UInt32.lt_iff_toNat_lt] using hcount
  · intro k hk
    exact hall k (by simp [rounds]; omega)
  · rw [heq, hproduct, hsum, elapsedMs, rounds, UInt32.toNat_toUInt64]
    ring

end RequestPolicy

end Ratelimitly
