import Mathlib

/-!
# Rates of change along a path

The rates the exact-arithmetic statements about motion are built from: along a differentiable
path `s ↦ u s` of vectors, the rate of an inner product, of a cross product, of the length and
of the unit vector. Each is assembled from Mathlib's rules for products, square roots and
inverses and brought to a closed form by `HasDerivAt.congr_deriv`.
-/

namespace Spacecraft

namespace Motion

open Matrix

variable {n : ℕ} {u w : ℝ → Fin n → ℝ} {u' w' : Fin n → ℝ} {t : ℝ}

/-- The product rule for the inner product of two paths. -/
theorem hasDerivAt_dotProduct (hu : HasDerivAt u u' t) (hw : HasDerivAt w w' t) :
    HasDerivAt (fun s => u s ⬝ᵥ w s) (u' ⬝ᵥ w t + u t ⬝ᵥ w') t := by
  have h := HasDerivAt.fun_sum fun i (_ : i ∈ Finset.univ) =>
    (hasDerivAt_pi.mp hu i).mul (hasDerivAt_pi.mp hw i)
  refine h.congr_deriv ?_
  simp only [dotProduct, Finset.sum_add_distrib]

/-- The product rule for the cross product of two paths. -/
theorem hasDerivAt_cross {u w : ℝ → Fin 3 → ℝ} {u' w' : Fin 3 → ℝ} (hu : HasDerivAt u u' t)
    (hw : HasDerivAt w w' t) :
    HasDerivAt (fun s => u s ⨯₃ w s) (u' ⨯₃ w t + u t ⨯₃ w') t := by
  have hu' := hasDerivAt_pi.mp hu
  have hw' := hasDerivAt_pi.mp hw
  refine hasDerivAt_pi.mpr fun i => ?_
  simp only [cross_apply, Pi.add_apply]
  -- each component is a difference of two products of components
  fin_cases i
  · exact (((hu' 1).mul (hw' 2)).sub ((hu' 2).mul (hw' 1))).congr_deriv (by simp; ring)
  · exact (((hu' 2).mul (hw' 0)).sub ((hu' 0).mul (hw' 2))).congr_deriv (by simp; ring)
  · exact (((hu' 0).mul (hw' 1)).sub ((hu' 1).mul (hw' 0))).congr_deriv (by simp; ring)

/-- The rate of the length of a path that does not pass through zero. -/
theorem hasDerivAt_length (hu : HasDerivAt u u' t) (h0 : u t ≠ 0) :
    HasDerivAt (fun s => √(u s ⬝ᵥ u s)) ((u t ⬝ᵥ u') / √(u t ⬝ᵥ u t)) t := by
  have hsq : u t ⬝ᵥ u t ≠ 0 := fun h => h0 (dotProduct_self_eq_zero.mp h)
  refine ((hasDerivAt_dotProduct hu hu).sqrt hsq).congr_deriv ?_
  rw [dotProduct_comm u' (u t)]
  field_simp
  ring

/-- The rate of the unit vector along a path that does not pass through zero: the rate of the
path less its component along the path, over the length. -/
theorem hasDerivAt_unit (hu : HasDerivAt u u' t) (h0 : u t ≠ 0) :
    HasDerivAt (fun s => (√(u s ⬝ᵥ u s))⁻¹ • u s)
      ((√(u t ⬝ᵥ u t))⁻¹ • (u' - ((u t ⬝ᵥ u') / (u t ⬝ᵥ u t)) • u t)) t := by
  have hpos : 0 < u t ⬝ᵥ u t :=
    lt_of_le_of_ne (Finset.sum_nonneg fun i _ => mul_self_nonneg (u t i))
      (Ne.symm fun h => h0 (dotProduct_self_eq_zero.mp h))
  have hn : √(u t ⬝ᵥ u t) ≠ 0 := (Real.sqrt_pos.mpr hpos).ne'
  have hsq : √(u t ⬝ᵥ u t) ^ 2 = u t ⬝ᵥ u t := Real.sq_sqrt hpos.le
  refine (((hasDerivAt_length hu h0).inv hn).smul hu).congr_deriv ?_
  rw [Pi.inv_apply, smul_sub, smul_smul, sub_eq_add_neg, ← neg_smul]
  congr 2
  field_simp
  rw [hsq]

end Motion

end Spacecraft
