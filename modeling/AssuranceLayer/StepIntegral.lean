import Mathlib.MeasureTheory.Integral.DominatedConvergence

set_option autoImplicit false

/-!
Functions that are constant between thresholds, and their integrals.
-/
namespace AssuranceLayer.StepIntegral
open MeasureTheory

section
variable {α β : Type} [LinearOrder α]

/-- The first value up to the first threshold, then the value that stands with the last threshold passed. -/
def stepAt : β → List (α × β) → α → β
  | value, [], _ => value
  | value, (threshold, next) :: steps, t => if t ≤ threshold then value else stepAt next steps t

theorem stepAt_of_le {value next : β} {threshold t : α} {steps : List (α × β)} (h : t ≤ threshold) :
    stepAt value ((threshold, next) :: steps) t = value := if_pos h

theorem stepAt_of_lt {value next : β} {threshold t : α} {steps : List (α × β)} (h : threshold < t) :
    stepAt value ((threshold, next) :: steps) t = stepAt next steps t := if_neg (not_le.mpr h)

theorem stepAt_mem (value : β) (steps : List (α × β)) (t : α) :
    stepAt value steps t ∈ value :: steps.map Prod.snd := by
  induction steps generalizing value with
  | nil => exact List.mem_singleton_self value
  | cons step steps ih =>
    rw [stepAt]
    split_ifs
    · exact List.mem_cons_self
    · exact List.mem_cons_of_mem _ (ih step.2)

end

section
variable {value next threshold lower x : ℝ} {steps : List (ℝ × ℝ)}

theorem stepAt_intervalIntegrable (value : ℝ) (steps : List (ℝ × ℝ)) (a b : ℝ) :
    IntervalIntegrable (stepAt value steps) volume a b := by
  induction steps generalizing value with
  | nil => exact intervalIntegrable_const
  | cons step steps ih =>
    have hconst : IntervalIntegrable (fun _ => value) volume a b := intervalIntegrable_const
    rw [intervalIntegrable_iff] at hconst ⊢
    exact Integrable.piecewise (s := Set.Iic step.1) measurableSet_Iic hconst.integrableOn
      (intervalIntegrable_iff.mp (ih step.2)).integrableOn

theorem integral_stepAt_nil : ∫ t in lower..x, stepAt value [] t = (x - lower) * value :=
  intervalIntegral.integral_const value

/-- Up to the first threshold. -/
theorem integral_stepAt_of_le (hlower : lower ≤ x) (hx : x ≤ threshold) :
    ∫ t in lower..x, stepAt value ((threshold, next) :: steps) t = (x - lower) * value := by
  have hconst : Set.EqOn (stepAt value ((threshold, next) :: steps)) (fun _ => value) (Set.uIcc lower x) := by
    intro t ht
    rw [Set.uIcc_of_le hlower] at ht
    exact stepAt_of_le (ht.2.trans hx)
  rw [intervalIntegral.integral_congr hconst, intervalIntegral.integral_const, smul_eq_mul]

/-- Past the first threshold, where what is left is the function of the other steps. -/
theorem integral_stepAt_of_ge (hlower : lower ≤ threshold) (hx : threshold ≤ x) :
    ∫ t in lower..x, stepAt value ((threshold, next) :: steps) t =
      (threshold - lower) * value + ∫ t in threshold..x, stepAt next steps t := by
  have hrest : Set.EqOn (stepAt value ((threshold, next) :: steps)) (stepAt next steps) (Set.Ioo threshold x) :=
    fun t ht => stepAt_of_lt ht.1
  rw [← intervalIntegral.integral_add_adjacent_intervals (stepAt_intervalIntegrable _ _ lower threshold)
    (stepAt_intervalIntegrable _ _ threshold x), integral_stepAt_of_le hlower le_rfl,
    intervalIntegral.integral_congr_Ioo_of_le hx hrest]

theorem continuous_integral_stepAt (value : ℝ) (steps : List (ℝ × ℝ)) (a : ℝ) :
    Continuous fun x => ∫ t in a..x, stepAt value steps t :=
  intervalIntegral.continuous_primitive (stepAt_intervalIntegrable value steps) a

/-- With values that are not negative more of the function is no less. -/
theorem integral_stepAt_mono (hvalues : ∀ v ∈ value :: steps.map Prod.snd, 0 ≤ v) {y : ℝ} (hxy : x ≤ y) :
    ∫ t in lower..x, stepAt value steps t ≤ ∫ t in lower..y, stepAt value steps t := by
  have hnonneg : ∀ t, 0 ≤ stepAt value steps t := fun t => hvalues _ (stepAt_mem value steps t)
  have hmore : 0 ≤ ∫ t in x..y, stepAt value steps t :=
    intervalIntegral.integral_nonneg hxy fun t _ => hnonneg t
  rw [← intervalIntegral.integral_add_adjacent_intervals (stepAt_intervalIntegrable _ _ lower x)
    (stepAt_intervalIntegrable _ _ x y)]
  exact le_add_of_nonneg_right hmore

end
end AssuranceLayer.StepIntegral
