import Mathlib.Analysis.SpecialFunctions.Gaussian.GaussianIntegral

/-!
# The error function and GELU

`erf x = 2 / √π * ∫ t in 0..x, exp (-t ^ 2)` and
`gelu y = 1 / 2 * y * (1 + erf (y / √2))` on the real numbers.

Results:
1. `erf_neg`, `erf_strictMono`, `tendsto_erf_atTop`: it is odd, strictly increasing,
   and tends to 1.
2. `erf_scaled_iff`: a multiple of a rescaled error function is half the error function
   only for the two obvious choices of the factors.
3. `scaled_gelu_iff`: which constants of an expanded GELU make it the function.
-/

namespace AmdGpuEp

open MeasureTheory Filter Topology

noncomputable def erf (x : ℝ) : ℝ :=
  2 / √Real.pi * ∫ t in (0 : ℝ)..x, Real.exp (-t ^ 2)

theorem intervalIntegrable_exp_neg_sq (a b : ℝ) :
    IntervalIntegrable (fun t : ℝ => Real.exp (-t ^ 2)) volume a b :=
  Continuous.intervalIntegrable (by fun_prop) a b

theorem erf_coeff_pos : 0 < 2 / √Real.pi :=
  div_pos two_pos (Real.sqrt_pos.2 Real.pi_pos)

@[simp] theorem erf_zero : erf 0 = 0 := by
  simp [erf]

theorem erf_neg (x : ℝ) : erf (-x) = -erf x := by
  have h := intervalIntegral.integral_comp_neg (a := 0) (b := x) fun t : ℝ => Real.exp (-t ^ 2)
  simp only [neg_sq, neg_zero] at h
  rw [erf, intervalIntegral.integral_symm, ← h, erf, mul_neg]

theorem erf_strictMono : StrictMono erf := by
  intro a b hab
  refine mul_lt_mul_of_pos_left ?_ erf_coeff_pos
  have hsplit := intervalIntegral.integral_add_adjacent_intervals
    (intervalIntegrable_exp_neg_sq 0 a) (intervalIntegrable_exp_neg_sq a b)
  have hpos : 0 < ∫ t in a..b, Real.exp (-t ^ 2) :=
    intervalIntegral.intervalIntegral_pos_of_pos (intervalIntegrable_exp_neg_sq a b)
      (fun t => Real.exp_pos _) hab
  rw [← hsplit]
  exact lt_add_of_pos_right _ hpos

theorem tendsto_erf_atTop : Tendsto erf atTop (𝓝 1) := by
  have hint : IntegrableOn (fun t : ℝ => Real.exp (-t ^ 2)) (Set.Ioi 0) := by
    simpa using (integrable_exp_neg_mul_sq one_pos).integrableOn
  have hlim := intervalIntegral_tendsto_integral_Ioi 0 hint tendsto_id
  have hvalue : ∫ t in Set.Ioi (0 : ℝ), Real.exp (-t ^ 2) = √Real.pi / 2 := by
    simpa using integral_gaussian_Ioi 1
  rw [hvalue] at hlim
  have hone : 2 / √Real.pi * (√Real.pi / 2) = 1 := by
    have hpi : √Real.pi ≠ 0 := (Real.sqrt_pos.2 Real.pi_pos).ne'
    field_simp
  rw [← hone]
  exact hlim.const_mul _

theorem tendsto_erf_div {c : ℝ} (hc : 0 < c) : Tendsto (fun y => erf (y / c)) atTop (𝓝 1) :=
  tendsto_erf_atTop.comp (tendsto_id.atTop_div_const hc)

/-- The limit fixes the outer factor, and then injectivity the inner one. -/
theorem erf_scaled_of_pos {h c r d : ℝ} (hc : 0 < c) (hr : 0 < r) (hd : 0 < d)
    (heq : ∀ y, h * erf (y / c) = r * erf (y / d)) : h = r ∧ c = d := by
  have hlimit : Tendsto (fun y => r * erf (y / d)) atTop (𝓝 (h * 1)) := by
    simpa only [heq] using (tendsto_erf_div hc).const_mul h
  have hr' : h = r := by
    simpa using tendsto_nhds_unique hlimit ((tendsto_erf_div hd).const_mul r)
  refine ⟨hr', ?_⟩
  have hone := heq 1
  rw [hr', mul_right_inj' hr.ne'] at hone
  simpa using erf_strictMono.injective hone

theorem erf_scaled_iff {h c r d : ℝ} (hr : 0 < r) (hd : 0 < d) :
    (∀ y, h * erf (y / c) = r * erf (y / d)) ↔ (h = r ∧ c = d) ∨ (h = -r ∧ c = -d) := by
  constructor
  · intro heq
    rcases lt_trichotomy c 0 with hc | rfl | hc
    · have hneg : ∀ y, -h * erf (y / -c) = r * erf (y / d) := by
        intro y
        rw [div_neg, erf_neg, neg_mul_neg, heq]
      obtain ⟨hh, hcd⟩ := erf_scaled_of_pos (neg_pos.2 hc) hr hd hneg
      exact Or.inr ⟨neg_eq_iff_eq_neg.1 hh, neg_eq_iff_eq_neg.1 hcd⟩
    · -- the left side is constant, the right side is not
      have hone : 0 < erf (1 / d) := erf_zero ▸ erf_strictMono (one_div_pos.2 hd)
      have hzero := heq 1
      rw [div_zero, erf_zero, mul_zero] at hzero
      exact absurd hzero (mul_pos hr hone).ne
    · exact Or.inl (erf_scaled_of_pos hc hr hd heq)
  · rintro (⟨rfl, rfl⟩ | ⟨rfl, rfl⟩) y
    · rfl
    · rw [div_neg, erf_neg, neg_mul_neg]

noncomputable def gelu (y : ℝ) : ℝ :=
  1 / 2 * y * (1 + erf (y / √2))

/-- The odd part of `gelu` fixes the constant, the even part the error function. -/
theorem scaled_gelu_iff {h a c : ℝ} :
    (∀ y, h * (y * (a + erf (y / c))) = gelu y) ↔
      (h = 1 / 2 ∧ a = 1 ∧ c = √2) ∨ (h = -(1 / 2) ∧ a = -1 ∧ c = -√2) := by
  have htwo : (0 : ℝ) < √2 := Real.sqrt_pos.2 two_pos
  constructor
  · intro heq
    have hsplit : ∀ y, y ≠ 0 →
        h * a = 1 / 2 ∧ h * erf (y / c) = 1 / 2 * erf (y / √2) := by
      intro y hy
      have hpos := heq y
      have hneg := heq (-y)
      simp only [gelu, neg_div, erf_neg] at hpos hneg
      constructor
      · refine mul_left_cancel₀ (mul_ne_zero two_ne_zero hy) ?_
        linear_combination hpos - hneg
      · refine mul_left_cancel₀ (mul_ne_zero two_ne_zero hy) ?_
        linear_combination hpos + hneg
    have herf : ∀ y, h * erf (y / c) = 1 / 2 * erf (y / √2) := by
      intro y
      rcases eq_or_ne y 0 with rfl | hy
      · simp
      · exact (hsplit y hy).2
    have hprod := (hsplit 1 one_ne_zero).1
    rcases (erf_scaled_iff one_half_pos htwo).1 herf with ⟨rfl, hc⟩ | ⟨rfl, hc⟩
    · exact Or.inl ⟨rfl, by linarith, hc⟩
    · exact Or.inr ⟨rfl, by linarith, hc⟩
  · rintro (⟨rfl, rfl, rfl⟩ | ⟨rfl, rfl, rfl⟩) y
    · rw [gelu]
      ring
    · rw [gelu, div_neg, erf_neg]
      ring

end AmdGpuEp
