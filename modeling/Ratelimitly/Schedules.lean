import Mathlib.Tactic
import Ratelimitly.RequestPolicy

/-! Schedules in closed form. -/
namespace Ratelimitly

open Lib

namespace Schedule

variable {schedule : Schedule} {maxUnits growth value : UInt32} {round round' : UInt32} {n : ℕ}

/-- What `units` asks of a schedule of its kind. -/
def KindWellFormed (schedule : Schedule) : Prop :=
  match schedule.kind with
  | .fixed => schedule.maxUnits = schedule.initialUnits ∧ schedule.growth = 0
  | .linear => schedule.growth ≠ 0
  | .exponential => 2 ≤ schedule.growth

structure WellFormed (schedule : Schedule) : Prop where
  initial_ne : schedule.initialUnits ≠ 0
  initial_le : schedule.initialUnits ≤ schedule.maxUnits
  kind : schedule.KindWellFormed

theorem wellFormed_fixed {units : UInt32} : (fixed units).WellFormed ↔ units ≠ 0 :=
  ⟨fun h => h.initial_ne, fun h => ⟨h, UInt32.le_refl _, rfl, rfl⟩⟩

theorem wellFormed_linear {initial step max : UInt32} :
    (linear initial step max).WellFormed ↔ initial ≠ 0 ∧ initial ≤ max ∧ step ≠ 0 :=
  ⟨fun h => ⟨h.initial_ne, h.initial_le, h.kind⟩, fun h => ⟨h.1, h.2.1, h.2.2⟩⟩

theorem wellFormed_exponential {initial factor max : UInt32} :
    (exponential initial factor max).WellFormed ↔ initial ≠ 0 ∧ initial ≤ max ∧ 2 ≤ factor :=
  ⟨fun h => ⟨h.initial_ne, h.initial_le, h.kind⟩, fun h => ⟨h.1, h.2.1, h.2.2⟩⟩

/-- The length of a round in unbounded integers. -/
def closedForm (schedule : Schedule) (round : ℕ) : ℕ :=
  match schedule.kind with
  | .fixed => schedule.initialUnits.toNat
  | .linear =>
    min schedule.maxUnits.toNat (schedule.initialUnits.toNat + round * schedule.growth.toNat)
  | .exponential =>
    min schedule.maxUnits.toNat (schedule.initialUnits.toNat * schedule.growth.toNat ^ round)

/-! ### Operators that panic on overflow -/

/-- The exponential loop with operators that panic. -/
def exponentialLoopChecked (maxUnits growth : UInt32) :
    ℕ → UInt32 → Outcome ConfigurationError UInt32
  | 0, value => .ok (min value maxUnits)
  | rounds + 1, value =>
    if value ≥ maxUnits then .ok maxUnits
    else do
      let quotient ← div32 maxUnits growth
      if value > quotient then .ok maxUnits
      else do
        let value ← mul32 value growth
        exponentialLoopChecked maxUnits growth rounds value

/-- `units` with operators that panic. -/
def unitsChecked (schedule : Schedule) (round : UInt32) : Outcome ConfigurationError UInt32 := do
  .failIf (schedule.initialUnits = 0 ∨ schedule.maxUnits < schedule.initialUnits)
    .invalidRequestPolicy
  match schedule.kind with
  | .fixed => do
    .failIf (schedule.maxUnits ≠ schedule.initialUnits ∨ schedule.growth ≠ 0)
      .invalidRequestPolicy
    pure schedule.initialUnits
  | .linear => do
    .failIf (schedule.growth = 0) .invalidRequestPolicy
    let room ← sub32 schedule.maxUnits schedule.initialUnits
    let quotient ← div32 room schedule.growth
    if round > quotient then pure schedule.maxUnits
    else do
      let grown ← mul32 round schedule.growth
      add32 schedule.initialUnits grown
  | .exponential => do
    .failIf (schedule.growth < 2) .invalidRequestPolicy
    exponentialLoopChecked schedule.maxUnits schedule.growth round.toNat schedule.initialUnits

/-! ### The exponential loop -/

theorem not_gt_div_iff (hgrowth : 2 ≤ growth) :
    ¬ value > maxUnits / growth ↔ value.toNat * growth.toNat ≤ maxUnits.toNat := by
  have hpos : 0 < growth.toNat := by
    have := UInt32.le_iff_toNat_le.mp hgrowth
    simp only [UInt32.reduceToNat] at this
    omega
  rw [gt_iff_lt, UInt32.lt_iff_toNat_lt, not_lt, UInt32.toNat_div, Nat.le_div_iff_mul_le hpos]

/-- A value that may still grow does so without wrapping. -/
theorem toNat_mul_of_le (h : value.toNat * growth.toNat ≤ maxUnits.toNat) :
    (value * growth).toNat = value.toNat * growth.toNat := by
  rw [UInt32.toNat_mul, Nat.mod_eq_of_lt (Nat.lt_of_le_of_lt h maxUnits.toNat_lt)]

theorem min_eq_max_of_le {m a : ℕ} (h : m ≤ a) (hgrowth : 2 ≤ growth) :
    min m (a * growth.toNat ^ n) = m := by
  have hpos : 0 < growth.toNat ^ n := by
    have hle := UInt32.le_iff_toNat_le.mp hgrowth
    simp only [UInt32.reduceToNat] at hle
    exact Nat.pow_pos (by omega)
  exact min_eq_left (h.trans (Nat.le_mul_of_pos_right a hpos))

theorem exponentialLoop_eq (hgrowth : 2 ≤ growth) (hle : value ≤ maxUnits) :
    (exponentialLoop maxUnits growth n value).toNat =
      min maxUnits.toNat (value.toNat * growth.toNat ^ n) ∧
    exponentialLoopChecked maxUnits growth n value =
      .ok (exponentialLoop maxUnits growth n value) := by
  induction n generalizing value with
  | zero =>
    have hnat := UInt32.le_iff_toNat_le.mp hle
    have hmin : min value maxUnits = value := if_pos hle
    refine ⟨?_, rfl⟩
    rw [exponentialLoop, hmin, Nat.pow_zero, Nat.mul_one, min_eq_right hnat]
  | succ n ih =>
    have hne : growth ≠ 0 := by
      rintro rfl
      exact absurd hgrowth (by decide)
    rw [exponentialLoop, exponentialLoopChecked, div32_of_ne hne]
    by_cases hmax : value ≥ maxUnits
    · rw [if_pos (.inl hmax), if_pos hmax]
      refine ⟨(min_eq_max_of_le (UInt32.le_iff_toNat_le.mp hmax) hgrowth).symm, rfl⟩
    by_cases hquotient : value > maxUnits / growth
    · rw [if_pos (.inr hquotient), if_neg hmax, Outcome.ok_bind, if_pos hquotient]
      refine ⟨?_, rfl⟩
      have hover : maxUnits.toNat ≤ value.toNat * growth.toNat := by
        by_contra hlt
        exact (not_gt_div_iff hgrowth).mpr (Nat.le_of_not_le hlt) hquotient
      rw [Nat.pow_succ', ← Nat.mul_assoc, min_eq_max_of_le hover hgrowth]
    · have hfits := (not_gt_div_iff hgrowth).mp hquotient
      have hmul := toNat_mul_of_le hfits
      have hnext : value * growth ≤ maxUnits := by
        rw [UInt32.le_iff_toNat_le, hmul]
        exact hfits
      rw [if_neg (by simp [hmax, hquotient]), if_neg hmax, Outcome.ok_bind, if_neg hquotient,
        mul32_of_lt (Nat.lt_of_le_of_lt hfits maxUnits.toNat_lt), Outcome.ok_bind]
      obtain ⟨heq, hchecked⟩ := ih hnext
      refine ⟨?_, hchecked⟩
      rw [heq, hmul, Nat.pow_succ', ← Nat.mul_assoc]

/-! ### All kinds -/

/-- The two ways of the linear case. -/
theorem linear_cases (round : UInt32) {initial : UInt32} (hle : initial ≤ maxUnits)
    (hgrowth : growth ≠ 0) :
    (round > (maxUnits - initial) / growth ∧
      maxUnits.toNat ≤ initial.toNat + round.toNat * growth.toNat) ∨
    ¬ round > (maxUnits - initial) / growth ∧
      initial.toNat + round.toNat * growth.toNat ≤ maxUnits.toNat := by
  have hnat := UInt32.le_iff_toNat_le.mp hle
  have hpos : 0 < growth.toNat := Nat.pos_of_ne_zero fun h => hgrowth (UInt32.toNat_inj.mp h)
  have hiff : round > (maxUnits - initial) / growth ↔
      maxUnits.toNat - initial.toNat < round.toNat * growth.toNat := by
    rw [gt_iff_lt, UInt32.lt_iff_toNat_lt, UInt32.toNat_div, UInt32.toNat_sub_of_le _ _ hle,
      Nat.div_lt_iff_lt_mul hpos]
  by_cases hround : round > (maxUnits - initial) / growth
  · have hover := hiff.mp hround
    exact .inl ⟨hround, by omega⟩
  · have hfits : ¬ maxUnits.toNat - initial.toNat < round.toNat * growth.toNat :=
      fun h => hround (hiff.mpr h)
    exact .inr ⟨hround, by omega⟩

theorem units_of_wellFormed (h : schedule.WellFormed) (round : UInt32) : ∃ value,
    schedule.units round = .ok value ∧ schedule.unitsChecked round = .ok value ∧
      value.toNat = schedule.closedForm round.toNat := by
  obtain ⟨kind, initial, maxUnits, growth⟩ := schedule
  obtain ⟨hne, hle, hkind⟩ := h
  replace hle : initial ≤ maxUnits := hle
  have hfirst : ¬ (initial = 0 ∨ maxUnits < initial) := by
    rintro (hzero | hlt)
    · exact hne hzero
    · exact absurd hle (UInt32.not_le.mpr hlt)
  unfold units unitsChecked closedForm
  rw [Outcome.failIf_neg hfirst, Outcome.ok_bind, Outcome.ok_bind]
  cases kind with
  | fixed =>
    obtain ⟨hmax, hgrowth⟩ := hkind
    have hsecond : ¬ (maxUnits ≠ initial ∨ growth ≠ 0) := by simp_all
    exact ⟨initial, by rw [Outcome.failIf_neg hsecond]; rfl,
      by rw [Outcome.failIf_neg hsecond]; rfl, rfl⟩
  | linear =>
    have hgrowth : ¬ growth = 0 := hkind
    rw [Outcome.failIf_neg hgrowth, Outcome.ok_bind, Outcome.ok_bind]
    dsimp only
    rw [sub32_of_le hle, Outcome.ok_bind, div32_of_ne hgrowth, Outcome.ok_bind]
    rcases linear_cases round hle hgrowth with ⟨hround, hover⟩ | ⟨hround, hfits⟩
    · rw [if_pos hround, if_pos hround]
      exact ⟨maxUnits, rfl, rfl, (min_eq_left hover).symm⟩
    · have hlt := maxUnits.toNat_lt
      have hmul : (round * growth).toNat = round.toNat * growth.toNat := by
        rw [UInt32.toNat_mul, Nat.mod_eq_of_lt (by omega)]
      rw [if_neg hround, if_neg hround, mul32_of_lt (by omega), Outcome.ok_bind,
        add32_of_lt (by rw [hmul]; omega)]
      refine ⟨initial + round * growth, rfl, rfl, ?_⟩
      rw [UInt32.toNat_add, hmul, Nat.mod_eq_of_lt (by omega), min_eq_right hfits]
  | exponential =>
    have hgrowth : 2 ≤ growth := hkind
    rw [Outcome.failIf_neg (UInt32.not_lt.mpr hgrowth), Outcome.ok_bind, Outcome.ok_bind]
    obtain ⟨heq, hchecked⟩ := exponentialLoop_eq (n := round.toNat) hgrowth hle
    exact ⟨_, rfl, hchecked, heq⟩

theorem units_of_not_wellFormed (h : ¬ schedule.WellFormed) (round : UInt32) :
    schedule.units round = .err .invalidRequestPolicy ∧
      schedule.unitsChecked round = .err .invalidRequestPolicy := by
  obtain ⟨kind, initial, maxUnits, growth⟩ := schedule
  unfold units unitsChecked
  dsimp only
  by_cases hfirst : initial = 0 ∨ maxUnits < initial
  · rw [Outcome.failIf_pos hfirst]
    exact ⟨rfl, rfl⟩
  rw [Outcome.failIf_neg hfirst, Outcome.ok_bind, Outcome.ok_bind]
  obtain ⟨hne, hle⟩ := not_or.mp hfirst
  have hkind (hwell : KindWellFormed ⟨kind, initial, maxUnits, growth⟩) : False :=
    h ⟨hne, UInt32.not_lt.mp hle, hwell⟩
  cases kind with
  | fixed =>
    have hsecond : maxUnits ≠ initial ∨ growth ≠ 0 := by
      by_contra hnone
      obtain ⟨hmax, hgrowth⟩ := not_or.mp hnone
      exact hkind ⟨not_not.mp hmax, not_not.mp hgrowth⟩
    rw [Outcome.failIf_pos hsecond]
    exact ⟨rfl, rfl⟩
  | linear =>
    have hzero : growth = 0 := by
      by_contra hgrowth
      exact hkind hgrowth
    rw [Outcome.failIf_pos hzero]
    exact ⟨rfl, rfl⟩
  | exponential =>
    have hsmall : growth < 2 := by
      by_contra hgrowth
      exact hkind (UInt32.not_lt.mp hgrowth)
    rw [Outcome.failIf_pos hsmall]
    exact ⟨rfl, rfl⟩

/-- Rounds get no shorter, from the initial length to the longest. -/
theorem closedForm_mono (h : schedule.WellFormed) {m n : ℕ} (hmn : m ≤ n) :
    schedule.initialUnits.toNat ≤ schedule.closedForm m ∧
      schedule.closedForm m ≤ schedule.closedForm n ∧
      schedule.closedForm n ≤ schedule.maxUnits.toNat := by
  obtain ⟨kind, initial, maxUnits, growth⟩ := schedule
  obtain ⟨hne, hle, hkind⟩ := h
  have hnat := UInt32.le_iff_toNat_le.mp hle
  dsimp only at hnat
  unfold closedForm
  cases kind with
  | fixed => exact ⟨le_rfl, le_rfl, hnat⟩
  | linear =>
    have hmul := Nat.mul_le_mul_right growth.toNat hmn
    exact ⟨le_min hnat (Nat.le_add_right _ _), min_le_min_left _ (Nat.add_le_add_left hmul _),
      min_le_left _ _⟩
  | exponential =>
    have hpos : 0 < growth.toNat := by
      have hgrowth := UInt32.le_iff_toNat_le.mp (show 2 ≤ growth from hkind)
      simp only [UInt32.reduceToNat] at hgrowth
      omega
    have hpow := Nat.pow_le_pow_right hpos hmn
    exact ⟨le_min hnat (Nat.le_mul_of_pos_right _ (Nat.pow_pos hpos)),
      min_le_min_left _ (Nat.mul_le_mul_left _ hpow), min_le_left _ _⟩

/-- A well-formed schedule has the values of its closed form, which lie between its bounds and do not
decrease, and no operation wraps; any other schedule is an error in every round. -/
theorem units_closed_form (schedule : Schedule) (round : UInt32) :
    (schedule.WellFormed → ∃ value, schedule.units round = .ok value ∧
      schedule.unitsChecked round = .ok value ∧ value.toNat = schedule.closedForm round.toNat ∧
      schedule.initialUnits ≤ value ∧ value ≤ schedule.maxUnits ∧
      ∀ later laterValue, round ≤ later → schedule.units later = .ok laterValue →
        value ≤ laterValue) ∧
    (¬ schedule.WellFormed → schedule.units round = .err .invalidRequestPolicy) := by
  refine ⟨fun h => ?_, fun h => (units_of_not_wellFormed h round).1⟩
  obtain ⟨value, hunits, hchecked, heq⟩ := units_of_wellFormed h round
  obtain ⟨hinitial, -, hmax⟩ := closedForm_mono h (le_refl round.toNat)
  refine ⟨value, hunits, hchecked, heq, ?_, ?_, fun later laterValue hlater hlaterUnits => ?_⟩
  · rwa [UInt32.le_iff_toNat_le, heq]
  · rwa [UInt32.le_iff_toNat_le, heq]
  · obtain ⟨value', hunits', -, heq'⟩ := units_of_wellFormed h later
    obtain rfl := Outcome.ok.inj (hunits'.symm.trans hlaterUnits)
    rw [UInt32.le_iff_toNat_le, heq, heq']
    exact (closedForm_mono h (UInt32.le_iff_toNat_le.mp hlater)).2.1

end Schedule

end Ratelimitly
