import AssuranceLayer.Binary64
import AssuranceLayer.StepIntegral
import Mathlib.Topology.Instances.Rat

set_option autoImplicit false

/-!
The transfer fee of a schedule whose rate changes after each threshold: the area under the rate,
rounded. Decimals are taken as exact.
-/
namespace AssuranceLayer.Fee
open StepIntegral

/-- To so many decimal places, the even last digit at a midpoint. -/
def roundDp (places : ℕ) (x : ℚ) : ℚ := Binary64.roundEven (x * 10 ^ places) / 10 ^ places

structure AmuletFeeSchedule where
  createFeeUsd : ℚ
  holdingFeeUsdPerRound : ℚ
  lockHolderFeeUsd : ℚ
  /-- The rate of the first step. -/
  transferFeeInitialRate : ℚ
  /-- Thresholds, and the rate of what is above them up to the next one. -/
  transferFeeSteps : List (ℚ × ℚ)
  source : String
  deriving DecidableEq

def AmuletFeeSchedule.spliceDefaults : AmuletFeeSchedule where
  createFeeUsd := 3 / 100
  holdingFeeUsdPerRound := 190259 / 10 ^ 10
  lockHolderFeeUsd := 5 / 1000
  transferFeeInitialRate := 1 / 100
  transferFeeSteps := [(100, 1 / 1000), (1000, 1 / 10000), (1000000, 1 / 100000)]
  source := "splice-defaults"

/-- The loop over the steps, which returns at the first threshold that is not passed. -/
def feeLoop (amountUsd : ℚ) : ℚ → ℚ → ℚ → List (ℚ × ℚ) → ℚ
  | fee, lower, rate, [] => fee + (amountUsd - lower) * rate
  | fee, lower, rate, (threshold, nextRate) :: steps =>
    if amountUsd ≤ threshold then fee + (amountUsd - lower) * rate
    else feeLoop amountUsd (fee + (threshold - lower) * rate) threshold nextRate steps

namespace AmuletFeeSchedule

def transferFeeUsd (s : AmuletFeeSchedule) (amountUsd : ℚ) : ℚ :=
  if amountUsd ≤ 0 then 0
  else roundDp 10 (feeLoop amountUsd 0 0 s.transferFeeInitialRate s.transferFeeSteps)

/-- The fee before it is rounded. -/
def unroundedFee (s : AmuletFeeSchedule) (amountUsd : ℚ) : ℚ :=
  if amountUsd ≤ 0 then 0 else feeLoop amountUsd 0 0 s.transferFeeInitialRate s.transferFeeSteps

structure WellFormed (s : AmuletFeeSchedule) : Prop where
  increasing : (s.transferFeeSteps.map Prod.fst).Pairwise (· < ·)
  positive : ∀ threshold ∈ s.transferFeeSteps.map Prod.fst, 0 < threshold
  initialRate : 0 ≤ s.transferFeeInitialRate
  rates : ∀ rate ∈ s.transferFeeSteps.map Prod.snd, 0 ≤ rate

/-- The rate at an amount. -/
noncomputable def rateAt (s : AmuletFeeSchedule) : ℝ → ℝ :=
  stepAt (s.transferFeeInitialRate : ℝ) (s.transferFeeSteps.map (Prod.map Rat.cast Rat.cast))

end AmuletFeeSchedule

/-! ## Rounding -/

theorem roundDp_zero (places : ℕ) : roundDp places 0 = 0 := by
  have hzero := Binary64.roundEven_intCast 0
  rw [Int.cast_zero] at hzero
  rw [roundDp, zero_mul, hzero, Int.cast_zero, zero_div]

theorem roundDp_mono (places : ℕ) : Monotone (roundDp places) := by
  intro x y hxy
  have hscale : (0 : ℚ) < 10 ^ places := by positivity
  have hround := Binary64.roundEven_mono (mul_le_mul_of_nonneg_right hxy hscale.le)
  exact div_le_div_of_nonneg_right (Int.cast_le.mpr hround) hscale.le

/-! ## The fee as an area -/

/-- What the loop adds from `lower` on is the area from there under the rates that are left. -/
theorem feeLoop_eq {amountUsd lower : ℚ} (fee rate : ℚ) {steps : List (ℚ × ℚ)} (hlower : lower ≤ amountUsd)
    (hsteps : (lower :: steps.map Prod.fst).Pairwise (· < ·)) :
    (feeLoop amountUsd fee lower rate steps : ℝ) = fee +
      ∫ t in (lower : ℝ)..amountUsd, stepAt (rate : ℝ) (steps.map (Prod.map Rat.cast Rat.cast)) t := by
  induction steps generalizing fee lower rate with
  | nil =>
    rw [List.map_nil, integral_stepAt_nil, feeLoop]
    push_cast
    rfl
  | cons step steps ih =>
    obtain ⟨threshold, nextRate⟩ := step
    rw [List.map_cons, List.pairwise_cons] at hsteps
    obtain ⟨hfirst, hrest⟩ := hsteps
    have hthreshold : lower < threshold := hfirst _ List.mem_cons_self
    rw [feeLoop, List.map_cons, Prod.map_apply]
    split_ifs with hamount
    · rw [integral_stepAt_of_le (Rat.cast_le.mpr hlower) (Rat.cast_le.mpr hamount)]
      push_cast
      rfl
    · have hpassed : threshold ≤ amountUsd := (not_le.mp hamount).le
      rw [ih (fee + (threshold - lower) * rate) nextRate hpassed hrest,
        integral_stepAt_of_ge (Rat.cast_le.mpr hthreshold.le) (Rat.cast_le.mpr hpassed)]
      push_cast
      ring

namespace AmuletFeeSchedule
variable (s : AmuletFeeSchedule)

theorem transferFeeUsd_eq (amountUsd : ℚ) : s.transferFeeUsd amountUsd = roundDp 10 (s.unroundedFee amountUsd) := by
  rw [transferFeeUsd, unroundedFee]
  split_ifs
  · exact (roundDp_zero 10).symm
  · rfl

variable {s} (hs : s.WellFormed)
include hs

theorem unroundedFee_integral (amountUsd : ℚ) :
    (s.unroundedFee amountUsd : ℝ) = ∫ t in (0 : ℝ)..max (amountUsd : ℝ) 0, s.rateAt t := by
  rw [unroundedFee]
  split_ifs with hamount
  · rw [max_eq_right (by exact_mod_cast hamount), intervalIntegral.integral_same, Rat.cast_zero]
  · have hpos : 0 < amountUsd := not_le.mp hamount
    have hloop := feeLoop_eq 0 s.transferFeeInitialRate hpos.le (List.pairwise_cons.mpr ⟨hs.positive, hs.increasing⟩)
    rw [max_eq_left (by exact_mod_cast hpos.le), rateAt, hloop, Rat.cast_zero, zero_add]

theorem rate_nonneg : ∀ rate ∈ (s.transferFeeInitialRate : ℝ) ::
    (s.transferFeeSteps.map (Prod.map ((↑) : ℚ → ℝ) ((↑) : ℚ → ℝ))).map Prod.snd, 0 ≤ rate := by
  intro rate hrate
  obtain rfl | hrate := List.mem_cons.mp hrate
  · exact_mod_cast hs.initialRate
  · simp only [List.map_map, List.mem_map, Function.comp, Prod.map_snd] at hrate
    obtain ⟨step, hstep, rfl⟩ := hrate
    exact_mod_cast hs.rates _ (List.mem_map_of_mem hstep)

theorem unroundedFee_mono : Monotone s.unroundedFee := by
  intro x y hxy
  rw [← Rat.cast_le (K := ℝ), unroundedFee_integral hs, unroundedFee_integral hs]
  exact integral_stepAt_mono (rate_nonneg hs) (max_le_max_right 0 (Rat.cast_le.mpr hxy))

theorem unroundedFee_continuous : Continuous s.unroundedFee := by
  rw [Rat.isEmbedding_coe_real.continuous_iff]
  have harea : ((↑) : ℚ → ℝ) ∘ s.unroundedFee = fun x : ℚ => ∫ t in (0 : ℝ)..max (x : ℝ) 0, s.rateAt t :=
    funext fun x => unroundedFee_integral hs x
  rw [harea]
  exact (continuous_integral_stepAt _ _ 0).comp (Rat.continuous_coe_real.max continuous_const)

omit hs in
theorem transferFeeUsd_of_nonpos {amountUsd : ℚ} (h : amountUsd ≤ 0) : s.transferFeeUsd amountUsd = 0 := if_pos h

theorem transferFeeUsd_mono : Monotone s.transferFeeUsd := by
  intro x y hxy
  rw [transferFeeUsd_eq, transferFeeUsd_eq]
  exact roundDp_mono 10 (unroundedFee_mono hs hxy)

theorem transferFeeUsd_nonneg (amountUsd : ℚ) : 0 ≤ s.transferFeeUsd amountUsd := by
  obtain hamount | hamount := le_total amountUsd 0
  · rw [transferFeeUsd_of_nonpos hamount]
  · calc 0 = s.transferFeeUsd 0 := (transferFeeUsd_of_nonpos le_rfl).symm
      _ ≤ s.transferFeeUsd amountUsd := transferFeeUsd_mono hs hamount

/-- The fee is the area under the rate up to the amount, rounded to ten places. -/
theorem transfer_fee_is_area :
    (∀ x : ℚ, s.transferFeeUsd x = roundDp 10 (s.unroundedFee x) ∧
      (s.unroundedFee x : ℝ) = ∫ t in (0 : ℝ)..max (x : ℝ) 0, s.rateAt t) ∧
    (∀ x, 0 ≤ s.transferFeeUsd x) ∧ (∀ x ≤ 0, s.transferFeeUsd x = 0) ∧
    Monotone s.transferFeeUsd ∧ Continuous s.unroundedFee :=
  ⟨fun x => ⟨transferFeeUsd_eq s x, unroundedFee_integral hs x⟩, transferFeeUsd_nonneg hs,
    fun _ => transferFeeUsd_of_nonpos, transferFeeUsd_mono hs, unroundedFee_continuous hs⟩

omit hs in
theorem spliceDefaults_wellFormed : spliceDefaults.WellFormed := by
  constructor <;> decide +kernel

omit hs in
theorem transfer_fee_is_area_defaults :
    (∀ x : ℚ, spliceDefaults.transferFeeUsd x = roundDp 10 (spliceDefaults.unroundedFee x) ∧
      (spliceDefaults.unroundedFee x : ℝ) = ∫ t in (0 : ℝ)..max (x : ℝ) 0, spliceDefaults.rateAt t) ∧
    (∀ x, 0 ≤ spliceDefaults.transferFeeUsd x) ∧ (∀ x ≤ 0, spliceDefaults.transferFeeUsd x = 0) ∧
    Monotone spliceDefaults.transferFeeUsd ∧ Continuous spliceDefaults.unroundedFee :=
  transfer_fee_is_area spliceDefaults_wellFormed

example : spliceDefaults.transferFeeUsd 1000000 = 1018 / 10 := by decide +kernel

end AmuletFeeSchedule
end AssuranceLayer.Fee
