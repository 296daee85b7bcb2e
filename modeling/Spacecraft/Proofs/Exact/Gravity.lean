import Mathlib
import Spacecraft.Environment.Gravity
import Spacecraft.Proofs.Exact.Reading
import Spacecraft.Proofs.Exact.Motion
import Spacecraft.Proofs.Dynamics.Diagnostics

/-!
# The gravity series in exact arithmetic

The zonal series is written over any `Scalar`; read over the real numbers each kernel is the
exact field. Away from the centre every divisor of the kernels is positive, so none of them
refuses.
-/

namespace Spacecraft

open Matrix

theorem checkedDiv_real (f : Fault) (a : ℝ) {b : ℝ} (hb : b ≠ 0) :
    checkedDiv f a b = .ok (a / b) := by
  simp [checkedDiv, hb]

namespace ZonalSeries

section Kernels

variable {x y z ρ : ℝ}

/-- A field of the form `α r + β ẑ`: a multiple of the position plus a push along the pole. -/
def axialField (α β x y z : ℝ) : ℝ × ℝ × ℝ := (α * x, α * y, α * z + β)

theorem add3_axialField (α β α' β' : ℝ) :
    add3 (axialField α β x y z) (axialField α' β' x y z) = axialField (α + α') (β + β') x y z := by
  simp only [add3, axialField, Scalar.real_add, Prod.mk.injEq]
  refine ⟨?_, ?_, ?_⟩ <;> ring

theorem sum_sq_eq (hρ : √(x * x + y * y + z * z) = ρ) : x * x + y * y + z * z = ρ ^ 2 := by
  rw [← hρ, Real.sq_sqrt (add_nonneg (add_nonneg (mul_self_nonneg x) (mul_self_nonneg y))
    (mul_self_nonneg z))]

theorem length_real (x y z : ℝ) : length x y z = √(x * x + y * y + z * z) := by
  have h0 : (0.0 : ℝ) = 0 := by norm_num
  simp only [length, Scalar.real_sqrt, Scalar.real_fma, h0]
  ring_nf

theorem real_pow_two (a : ℝ) : Scalar.pow a 2.0 = a ^ 2 := by
  rw [Scalar.real_pow, show (2.0 : ℝ) = ((2 : ℕ) : ℝ) by norm_num, Real.rpow_natCast]

theorem real_pow_three (a : ℝ) : Scalar.pow a 3.0 = a ^ 3 := by
  rw [Scalar.real_pow, show (3.0 : ℝ) = ((3 : ℕ) : ℝ) by norm_num, Real.rpow_natCast]

theorem real_pow_four (a : ℝ) : Scalar.pow a 4.0 = a ^ 4 := by
  rw [Scalar.real_pow, show (4.0 : ℝ) = ((4 : ℕ) : ℝ) by norm_num, Real.rpow_natCast]

section Nonzero

variable (hρ : √(x * x + y * y + z * z) = ρ) (h0 : ρ ≠ 0)
include hρ h0

theorem pointMass_eq (mu : ℝ) : pointMass mu x y z = .ok (axialField (-(mu / ρ ^ 3)) 0 x y z) := by
  have hρ0 : 0 ≤ ρ := hρ ▸ Real.sqrt_nonneg _
  have h3 : ρ ^ 2 * ρ ≠ 0 := mul_ne_zero (pow_ne_zero 2 h0) h0
  simp only [pointMass, Scalar.real_add, Scalar.real_mul, Scalar.real_sqrt, Scalar.real_neg,
    sum_sq_eq hρ, Real.sqrt_sq hρ0, checkedDiv_real _ _ h3]
  show Except.ok _ = Except.ok _
  simp only [axialField, Except.ok.injEq, Prod.mk.injEq, add_zero]
  refine ⟨?_, ?_, ?_⟩ <;> ring

/-- The J2 kernel: `α = -(3/2) J μ R² (1 - 5 z²/ρ²)/ρ⁵`, `β = -3 J μ R² z/ρ⁵`. -/
theorem j2Term_eq (mu R J : ℝ) :
    j2Term mu R J x y z = .ok (axialField
      (-(3 / 2) * (J * mu * R ^ 2) / ρ ^ 5 * (1 - 5 * z ^ 2 / ρ ^ 2))
      (-3 * (J * mu * R ^ 2) / ρ ^ 5 * z) x y z) := by
  have hρ0 : 0 ≤ ρ := hρ ▸ Real.sqrt_nonneg _
  have h2 : ρ ^ 2 ≠ 0 := pow_ne_zero 2 h0
  have h5 : ρ ^ 2 * ρ ^ 2 * ρ ≠ 0 := mul_ne_zero (mul_ne_zero h2 h2) h0
  simp only [j2Term, Scalar.real_add, Scalar.real_mul, Scalar.real_sqrt, Scalar.real_sub,
    Scalar.real_neg, sum_sq_eq hρ, Real.sqrt_sq hρ0, checkedDiv_real _ _ h2,
    checkedDiv_real _ _ h5]
  show Except.ok _ = Except.ok _
  simp only [axialField, Except.ok.injEq, Prod.mk.injEq]
  norm_num
  refine ⟨by field_simp, by field_simp, by field_simp; ring⟩

/-- The J3 kernel: `α = -(5/2) J μ R³ (3z - 7z³/ρ²)/ρ⁷`, `β = -(5/2) J μ R³ (3z² - 3ρ²/5)/ρ⁷`. -/
theorem j3Term_eq (mu R J : ℝ) :
    j3Term mu R J x y z = .ok (axialField
      (-(5 / 2) * (J * mu * R ^ 3) / ρ ^ 7 * (3 * z - 7 * z ^ 3 / ρ ^ 2))
      (-(5 / 2) * (J * mu * R ^ 3) / ρ ^ 7 * (3 * z ^ 2 - 3 / 5 * ρ ^ 2)) x y z) := by
  have hρ0 : 0 ≤ ρ := hρ ▸ Real.sqrt_nonneg _
  have h2 : ρ ^ 2 ≠ 0 := pow_ne_zero 2 h0
  have h7 : ρ ^ 2 * ρ ^ 2 * ρ ^ 2 * ρ ≠ 0 := mul_ne_zero (mul_ne_zero (mul_ne_zero h2 h2) h2) h0
  simp only [j3Term, Scalar.real_add, Scalar.real_mul, Scalar.real_sqrt, Scalar.real_sub,
    Scalar.real_neg, sum_sq_eq hρ, Real.sqrt_sq hρ0, checkedDiv_real _ _ h2,
    checkedDiv_real _ _ h7]
  show Except.ok _ = Except.ok _
  simp only [axialField, Except.ok.injEq, Prod.mk.injEq]
  norm_num
  refine ⟨by field_simp, by field_simp, by field_simp; ring⟩

/-- The J4 kernel: `α = (15/8) J μ R⁴ (1 - 14 z²/ρ² + 21 z⁴/ρ⁴)/ρ⁷`,
`β = (15/8) J μ R⁴ z (4 - 28 z²/(3ρ²))/ρ⁷`. -/
theorem j4Term_eq (mu R J : ℝ) :
    j4Term mu R J x y z = .ok (axialField
      (15 / 8 * (J * mu * R ^ 4) / ρ ^ 7 * (1 - 14 * z ^ 2 / ρ ^ 2 + 21 * z ^ 4 / ρ ^ 4))
      (15 / 8 * (J * mu * R ^ 4) / ρ ^ 7 * z * (4 - 28 * z ^ 2 / (3 * ρ ^ 2))) x y z) := by
  have hρ0 : 0 ≤ ρ := hρ ▸ Real.sqrt_nonneg _
  have h2 : ρ ^ 2 ≠ 0 := pow_ne_zero 2 h0
  have h7 : ρ ^ 2 * ρ ^ 2 * ρ ^ 2 * ρ ≠ 0 := mul_ne_zero (mul_ne_zero (mul_ne_zero h2 h2) h2) h0
  simp only [j4Term, Scalar.real_add, Scalar.real_mul, Scalar.real_sqrt, Scalar.real_sub,
    sum_sq_eq hρ, Real.sqrt_sq hρ0, checkedDiv_real _ _ h2,
    checkedDiv_real _ _ h7]
  show Except.ok _ = Except.ok _
  simp only [axialField, Except.ok.injEq, Prod.mk.injEq]
  norm_num
  refine ⟨by field_simp, by field_simp, by field_simp; ring⟩

end Nonzero


theorem length_eq_sqrt (u : Fin 3 → ℝ) : √(u 0 * u 0 + u 1 * u 1 + u 2 * u 2) = √(u ⬝ᵥ u) := by
  simp only [dotProduct, Fin.sum_univ_three]

theorem length_ne_zero {u : Fin 3 → ℝ} (hu : u ≠ 0) : √(u ⬝ᵥ u) ≠ 0 :=
  (Real.sqrt_pos.mpr (lt_of_le_of_ne (Finset.sum_nonneg fun i _ => mul_self_nonneg (u i))
    (Ne.symm fun h => hu (dotProduct_self_eq_zero.mp h)))).ne'

theorem eq_of_triple_eq {a b : Fin 3 → ℝ} (h : (a 0, a 1, a 2) = (b 0, b 1, b 2)) : a = b := by
  simp only [Prod.mk.injEq] at h
  funext i
  fin_cases i
  exacts [h.1, h.2.1, h.2.2]

/-- Away from the centre the point-mass kernel is `-μ r / |r|³`. -/
theorem pointMass_real (mu : ℝ) {r : Fin 3 → ℝ} (hr : r ≠ 0) :
    pointMass mu (r 0) (r 1) (r 2) =
      .ok (-(mu / √(r ⬝ᵥ r) ^ 3) * r 0, -(mu / √(r ⬝ᵥ r) ^ 3) * r 1,
        -(mu / √(r ⬝ᵥ r) ^ 3) * r 2) := by
  rw [pointMass_eq (length_eq_sqrt r) (length_ne_zero hr), axialField, add_zero]

/-- Away from the centre the point-mass kernel gives exactly the acceleration `-μ r / |r|³`. -/
theorem pointMass_eq_ok_iff (mu : ℝ) {r a : Fin 3 → ℝ} (hr : r ≠ 0) :
    pointMass mu (r 0) (r 1) (r 2) = .ok (a 0, a 1, a 2) ↔ a = -(mu / √(r ⬝ᵥ r) ^ 3) • r := by
  rw [pointMass_real mu hr, Except.ok.injEq]
  constructor
  · intro h
    exact (eq_of_triple_eq h).symm
  · rintro rfl
    rfl

/-- A zonal coefficient where the series reaches its degree, zero beyond it. -/
def effective (S : ZonalSeries ℝ) (k : ℕ) (J : ℝ) : ℝ := if k ≤ S.degree then J else 0

section Series

variable (S : ZonalSeries ℝ) (hρ : √(x * x + y * y + z * z) = ρ) (h0 : ρ ≠ 0)
include hρ h0

/-- Away from the centre the potential is the point-mass term plus one Legendre term for each
zonal degree the series reaches. -/
theorem potential_eq :
    S.potential (x, y, z) = .ok (-S.mu / ρ +
      effective S 2 S.j2 * S.mu * S.radius ^ 2 / 2 * (3 * z ^ 2 / ρ ^ 5 - 1 / ρ ^ 3) +
      effective S 3 S.j3 * S.mu * S.radius ^ 3 / 2 * (5 * z ^ 3 / ρ ^ 7 - 3 * z / ρ ^ 5) +
      effective S 4 S.j4 * S.mu * S.radius ^ 4 / 8 *
        (35 * z ^ 4 / ρ ^ 9 - 30 * z ^ 2 / ρ ^ 7 + 3 / ρ ^ 5)) := by
  simp only [potential, length_real, hρ, checkedDiv_real _ _ h0, Scalar.real_add,
    Scalar.real_sub, Scalar.real_mul, Scalar.real_neg, real_pow_two, real_pow_three,
    real_pow_four, effective, ge_iff_le]
  show Except.ok _ = Except.ok _
  rw [Except.ok.injEq]
  norm_num
  split_ifs <;> field_simp <;> ring

/-- Away from the centre the field is every zonal kernel evaluated, those beyond the series'
degree with a zero coefficient. -/
theorem acceleration_eq_kernels :
    S.acceleration (x, y, z) = (do
      let a ← pointMass S.mu x y z
      let b ← j2Term S.mu S.radius (effective S 2 S.j2) x y z
      let c ← j3Term S.mu S.radius (effective S 3 S.j3) x y z
      let d ← j4Term S.mu S.radius (effective S 4 S.j4) x y z
      pure (add3 (add3 (add3 a b) c) d)) := by
  simp only [acceleration, effective, ge_iff_le, pointMass_eq hρ h0, j2Term_eq hρ h0,
    j3Term_eq hρ h0, j4Term_eq hρ h0]
  split_ifs <;> simp [bind, Except.bind, pure, Except.pure, Functor.map, Except.map, axialField,
    add3]

end Series

end Kernels

/-- The potential at a point where the series gives one; zero at the centre. -/
noncomputable def potentialAt (S : ZonalSeries ℝ) (r : Fin 3 → ℝ) : ℝ :=
  ((S.potential (r 0, r 1, r 2)).toOption).getD 0

section Paths

open Motion Filter Topology

variable {r : ℝ → Fin 3 → ℝ} {v : Fin 3 → ℝ} {t : ℝ}

theorem dotProduct_axialField (α β : ℝ) (u v : Fin 3 → ℝ) :
    ![α * u 0, α * u 1, α * u 2 + β] ⬝ᵥ v = α * (u ⬝ᵥ v) + β * v 2 := by
  simp only [dotProduct, Fin.sum_univ_three, Matrix.cons_val_zero, Matrix.cons_val_one,
    Matrix.cons_val_two, Matrix.head_cons, Matrix.tail_cons]
  ring

section Legendre

variable (hr : HasDerivAt r v t) (h0 : r t ≠ 0)
include hr h0

/-- The point-mass potential `-μ/ρ` changes along a path by minus the work of `-μ r/ρ³`. -/
theorem hasDerivAt_pointMassPotential (mu : ℝ) :
    HasDerivAt (fun s => -mu / √(r s ⬝ᵥ r s))
      (-(-(mu / √(r t ⬝ᵥ r t) ^ 3) * (r t ⬝ᵥ v) + 0 * v 2)) t := by
  have hρ0 := length_ne_zero h0
  refine ((hasDerivAt_const t (-mu)).fun_div (hasDerivAt_length hr h0) hρ0).congr_deriv ?_
  field_simp
  ring

/-- The J2 term of the potential changes along a path by minus the work of the J2 kernel. -/
theorem hasDerivAt_j2Potential (c : ℝ) :
    HasDerivAt (fun s => c / 2 * (3 * r s 2 ^ 2 / √(r s ⬝ᵥ r s) ^ 5 - 1 / √(r s ⬝ᵥ r s) ^ 3))
      (-(-(3 / 2) * c / √(r t ⬝ᵥ r t) ^ 5 * (1 - 5 * r t 2 ^ 2 / √(r t ⬝ᵥ r t) ^ 2) *
          (r t ⬝ᵥ v) + -3 * c / √(r t ⬝ᵥ r t) ^ 5 * r t 2 * v 2)) t := by
  have hρ0 := length_ne_zero h0
  have hρ := hasDerivAt_length hr h0
  have hz := hasDerivAt_pi.mp hr 2
  have h := ((((hz.fun_pow 2).const_mul 3).fun_div (hρ.fun_pow 5) (pow_ne_zero 5 hρ0)).sub
    ((hasDerivAt_const t 1).fun_div (hρ.fun_pow 3) (pow_ne_zero 3 hρ0))).const_mul (c / 2)
  refine h.congr_deriv ?_
  field_simp
  ring

/-- The J3 term of the potential changes along a path by minus the work of the J3 kernel. -/
theorem hasDerivAt_j3Potential (c : ℝ) :
    HasDerivAt (fun s => c / 2 * (5 * r s 2 ^ 3 / √(r s ⬝ᵥ r s) ^ 7 -
        3 * r s 2 / √(r s ⬝ᵥ r s) ^ 5))
      (-(-(5 / 2) * c / √(r t ⬝ᵥ r t) ^ 7 * (3 * r t 2 - 7 * r t 2 ^ 3 / √(r t ⬝ᵥ r t) ^ 2) *
          (r t ⬝ᵥ v) +
        -(5 / 2) * c / √(r t ⬝ᵥ r t) ^ 7 * (3 * r t 2 ^ 2 - 3 / 5 * √(r t ⬝ᵥ r t) ^ 2) * v 2)) t := by
  have hρ0 := length_ne_zero h0
  have hρ := hasDerivAt_length hr h0
  have hz := hasDerivAt_pi.mp hr 2
  have h := ((((hz.fun_pow 3).const_mul 5).fun_div (hρ.fun_pow 7) (pow_ne_zero 7 hρ0)).sub
    ((hz.const_mul 3).fun_div (hρ.fun_pow 5) (pow_ne_zero 5 hρ0))).const_mul (c / 2)
  refine h.congr_deriv ?_
  field_simp
  ring

/-- The J4 term of the potential changes along a path by minus the work of the J4 kernel. -/
theorem hasDerivAt_j4Potential (c : ℝ) :
    HasDerivAt (fun s => c / 8 * (35 * r s 2 ^ 4 / √(r s ⬝ᵥ r s) ^ 9 -
        30 * r s 2 ^ 2 / √(r s ⬝ᵥ r s) ^ 7 + 3 / √(r s ⬝ᵥ r s) ^ 5))
      (-(15 / 8 * c / √(r t ⬝ᵥ r t) ^ 7 *
          (1 - 14 * r t 2 ^ 2 / √(r t ⬝ᵥ r t) ^ 2 + 21 * r t 2 ^ 4 / √(r t ⬝ᵥ r t) ^ 4) *
          (r t ⬝ᵥ v) +
        15 / 8 * c / √(r t ⬝ᵥ r t) ^ 7 * r t 2 *
          (4 - 28 * r t 2 ^ 2 / (3 * √(r t ⬝ᵥ r t) ^ 2)) * v 2)) t := by
  have hρ0 := length_ne_zero h0
  have hρ := hasDerivAt_length hr h0
  have hz := hasDerivAt_pi.mp hr 2
  have h := (((((hz.fun_pow 4).const_mul 35).fun_div (hρ.fun_pow 9) (pow_ne_zero 9 hρ0)).sub
    (((hz.fun_pow 2).const_mul 30).fun_div (hρ.fun_pow 7) (pow_ne_zero 7 hρ0))).add
    ((hasDerivAt_const t 3).fun_div (hρ.fun_pow 5) (pow_ne_zero 5 hρ0))).const_mul (c / 8)
  refine h.congr_deriv ?_
  field_simp
  ring

end Legendre

/-- Away from the centre the field is the negative gradient of the potential, and it is axial:
along every path the potential changes by minus the work the field does on the velocity, and
the field has no moment about the pole. -/
theorem hasDerivAt_potentialAt (S : ZonalSeries ℝ) (hr : HasDerivAt r v t) (h0 : r t ≠ 0) :
    ∃ a : Fin 3 → ℝ, S.acceleration (r t 0, r t 1, r t 2) = .ok (a 0, a 1, a 2) ∧
      r t 0 * a 1 - r t 1 * a 0 = 0 ∧
      HasDerivAt (fun s => S.potentialAt (r s)) (-(a ⬝ᵥ v)) t := by
  have hρ := length_eq_sqrt (r t)
  have hρ0 := length_ne_zero h0
  -- the potential is its closed form near `t`, where the path stays off the centre
  have hF : HasDerivAt (fun s => S.potentialAt (r s)) _ t :=
    ((((hasDerivAt_pointMassPotential hr h0 S.mu).fun_add
    (hasDerivAt_j2Potential hr h0 (effective S 2 S.j2 * S.mu * S.radius ^ 2))).fun_add
    (hasDerivAt_j3Potential hr h0 (effective S 3 S.j3 * S.mu * S.radius ^ 3))).fun_add
    (hasDerivAt_j4Potential hr h0 (effective S 4 S.j4 * S.mu * S.radius ^ 4))).congr_of_eventuallyEq
    ((hr.continuousAt.eventually_ne h0).mono fun s hs => ?_)
  swap
  · dsimp only
    rw [potentialAt, potential_eq S (length_eq_sqrt (r s)) (length_ne_zero hs)]
    rfl
  -- the field is the sum of the kernels, each a multiple of the position plus a polar push
  have hacc := acceleration_eq_kernels S hρ hρ0
  rw [pointMass_eq hρ hρ0, j2Term_eq hρ hρ0, j3Term_eq hρ hρ0, j4Term_eq hρ hρ0] at hacc
  simp only [Bind.bind, Except.bind, Pure.pure, Except.pure, add3_axialField] at hacc
  obtain ⟨α, β, hacc, hF⟩ : ∃ α β, S.acceleration (r t 0, r t 1, r t 2) =
      .ok (axialField α β (r t 0) (r t 1) (r t 2)) ∧
      HasDerivAt (fun s => S.potentialAt (r s)) (-(α * (r t ⬝ᵥ v) + β * v 2)) t :=
    ⟨_, _, hacc, hF.congr_deriv (by ring)⟩
  refine ⟨![α * r t 0, α * r t 1, α * r t 2 + β], by rw [hacc]; rfl, by simp; ring, ?_⟩
  rwa [dotProduct_axialField]

end Paths

/-- A series that stops at the point mass pulls straight at the centre: its field has no moment
about it. -/
theorem cross_acceleration_eq_zero (S : ZonalSeries ℝ) (hS : S.degree < 2) {u a : Fin 3 → ℝ}
    (hu : u ≠ 0) (ha : S.acceleration (u 0, u 1, u 2) = .ok (a 0, a 1, a 2)) : u ⨯₃ a = 0 := by
  have hpm : S.acceleration (u 0, u 1, u 2) = pointMass S.mu (u 0) (u 1) (u 2) := by
    simp [acceleration, show ¬ 2 ≤ S.degree by omega, show ¬ 3 ≤ S.degree by omega,
      show ¬ 4 ≤ S.degree by omega]
  rw [hpm, pointMass_eq_ok_iff S.mu hu] at ha
  rw [ha, map_smul, cross_self, smul_zero]

section Trajectories

open Motion

variable {r w : ℝ → Fin 3 → ℝ} {a : Fin 3 → ℝ} {t : ℝ}

/-- Along a trajectory of the field the energy `|w|²/2 + U(r)` and the polar angular momentum
`x w_y - y w_x` are constant. -/
theorem hasDerivAt_energy_polarMomentum (S : ZonalSeries ℝ) (hr : HasDerivAt r (w t) t)
    (hw : HasDerivAt w a t) (h0 : r t ≠ 0)
    (ha : S.acceleration (r t 0, r t 1, r t 2) = .ok (a 0, a 1, a 2)) :
    HasDerivAt (fun s => w s ⬝ᵥ w s / 2 + S.potentialAt (r s)) 0 t ∧
      HasDerivAt (fun s => r s 0 * w s 1 - r s 1 * w s 0) 0 t := by
  obtain ⟨a', ha', haxial, hU⟩ := hasDerivAt_potentialAt S hr h0
  -- the trajectory follows the very field the gradient lemma names
  obtain rfl : a' = a := eq_of_triple_eq (Except.ok.inj (ha'.symm.trans ha))
  constructor
  · refine (((hasDerivAt_dotProduct hw hw).div_const 2).fun_add hU).congr_deriv ?_
    rw [dotProduct_comm (w t) a']
    ring
  · refine (((hasDerivAt_pi.mp hr 0).mul (hasDerivAt_pi.mp hw 1)).sub
      ((hasDerivAt_pi.mp hr 1).mul (hasDerivAt_pi.mp hw 0))).congr_deriv ?_
    linear_combination haxial

end Trajectories

/-- The velocity rate of a body of mass `m` under the series alone, as a state derivative forms
it: the force `m a` added to a zero total, then divided by the mass. -/
def velocityRate {K : Type} [Scalar K] (S : ZonalSeries K) (m : K) (p : K × K × K) :
    Outcome (K × K × K) := do
  let a ← S.acceleration p
  pure ((0.0 + m * a.1) / m, (0.0 + m * a.2.1) / m, (0.0 + m * a.2.2) / m)

/-- Over the real numbers the mass a body's force is formed with and divided by cancels. -/
theorem velocityRate_real (S : ZonalSeries ℝ) {m : ℝ} (hm : m ≠ 0) (p : ℝ × ℝ × ℝ) :
    S.velocityRate m p = S.acceleration p := by
  unfold velocityRate
  rcases S.acceleration p with e | ⟨a₁, a₂, a₃⟩
  · rfl
  · have h0 : (0.0 : ℝ) = 0 := by norm_num
    simp only [bind, Except.bind, pure, Except.pure, Scalar.real_mul, h0, zero_add,
      mul_div_cancel_left₀ _ hm]

end ZonalSeries

namespace GravityField

/-- A field value that is not refused is the acceleration of the series. -/
theorem acceleration_of_field_eq_ok {g : GravityField} {t : Float} {p a : Vec3}
    (h : g.field t p = .ok a) : g.acceleration p = .ok a := by
  unfold field at h
  by_cases hr : p.norm < g.minRadius
  · simp only [hr, if_true] at h
    cases h
  · simpa only [hr, if_false] using h

end GravityField

namespace DynamicsModel

/-- A contribution that passes its check keeps the vector it was given. -/
theorem vector_of_checked_eq_ok {source : String} {t : Float} {v : Vec3} {c : Contribution}
    (h : checked source t v.toList = .ok c) : c.vector = v := by
  dsimp only [checked, Vec3.toList] at h
  split at h
  · cases h
    rfl
  · cases h


/-- Evaluating a single model goes without the pool. -/
theorem evaluate_singleton {α β : Type} (m : DynamicsModel) (f : α → Outcome β) (a : α) :
    m.evaluate f [a] = [a].mapM f := by
  unfold evaluate
  split <;> simp

/-- A completed derivative of a model whose only force is a gravity field moves the velocity at
the series' velocity rate, read at binary64. -/
theorem derivative_velocity_gravity {d : DynamicsModel} {g : GravityField}
    (hf : d.forces = [.gravity g]) {t : Float} {s : SatState} {c : LawState} {rate : StateRate}
    (h : d.derivative t s c = .ok rate) :
    g.series.velocityRate s.mass s.position.toTriple = .ok rate.velocity.toTriple := by
  obtain ⟨F, T, hol, -, hv, -⟩ := derivative_eq_ok h
  unfold openLoop at hol
  rw [hf, evaluate_singleton] at hol
  obtain ⟨vs, hvs, hol⟩ := Outcome.bind_eq_ok hol
  -- the one force value is the mass times the field, which passed its domain check
  obtain ⟨v, hforce, rfl⟩ : ∃ v, (ForceModel.gravity g).force t s d.body = .ok v ∧ vs = [v] := by
    rcases hx : (ForceModel.gravity g).force t s d.body with e | v
    · simp [hx] at hvs
    · simp only [List.mapM_cons, List.mapM_nil, hx] at hvs
      exact ⟨v, rfl, (Except.ok.inj hvs).symm⟩
  obtain ⟨a, hfield, rfl⟩ := Outcome.map_eq_ok hforce
  obtain ⟨trip, hacc, rfl⟩ := Outcome.map_eq_ok (GravityField.acceleration_of_field_eq_ok hfield)
  -- the checked force is that value, and the torques leave it alone
  obtain ⟨G, hG, hol⟩ := Outcome.bind_eq_ok hol
  obtain ⟨_, _, hol⟩ := Outcome.bind_eq_ok hol
  obtain ⟨_, _, hol⟩ := Outcome.bind_eq_ok hol
  obtain ⟨rfl, -⟩ := Prod.mk.inj (Except.ok.inj hol)
  simp only [List.zip_cons_cons, List.zip_nil_right, List.mapM_cons, List.mapM_nil] at hG
  obtain ⟨c, hc, hG⟩ := Outcome.bind_eq_ok hG
  obtain rfl : G = [c] := (Except.ok.inj hG).symm
  have hvec := vector_of_checked_eq_ok hc
  rw [hv, ZonalSeries.velocityRate, hacc]
  simp only [Contribution.total, List.foldl_cons, List.foldl_nil, hvec]
  rfl

end DynamicsModel

/-- The zonal field is conservative and axial: away from the centre it is the negative gradient
of the series' potential, it has no moment about the pole (none about the centre for the point
mass), and along the exact flow of a body's state derivative under this field alone energy and
polar angular momentum are constant. That derivative moves the velocity at the series' velocity
rate, the force over the mass, as the model's derivative does at binary64. -/
theorem zonal_field_conservative (S : ZonalSeries ℝ) :
    (∀ (r : ℝ → Fin 3 → ℝ) (v : Fin 3 → ℝ) (t : ℝ), HasDerivAt r v t → r t ≠ 0 →
      ∃ a : Fin 3 → ℝ, S.acceleration (r t 0, r t 1, r t 2) = .ok (a 0, a 1, a 2) ∧
        r t 0 * a 1 - r t 1 * a 0 = 0 ∧
        HasDerivAt (fun s => S.potentialAt (r s)) (-(a ⬝ᵥ v)) t) ∧
    (S.degree < 2 → ∀ u a : Fin 3 → ℝ, u ≠ 0 →
      S.acceleration (u 0, u 1, u 2) = .ok (a 0, a 1, a 2) → u ⨯₃ a = 0) ∧
    (∀ (m : ℝ) (r w : ℝ → Fin 3 → ℝ) (a : Fin 3 → ℝ) (t : ℝ), m ≠ 0 → HasDerivAt r (w t) t →
      HasDerivAt w a t → r t ≠ 0 → S.velocityRate m (r t 0, r t 1, r t 2) = .ok (a 0, a 1, a 2) →
      HasDerivAt (fun s => w s ⬝ᵥ w s / 2 + S.potentialAt (r s)) 0 t ∧
        HasDerivAt (fun s => r s 0 * w s 1 - r s 1 * w s 0) 0 t) ∧
    (∀ (d : DynamicsModel) (g : GravityField) (t : Float) (s : SatState) (c : LawState)
      (rate : StateRate), d.forces = [.gravity g] → d.derivative t s c = .ok rate →
      g.series.velocityRate s.mass s.position.toTriple = .ok rate.velocity.toTriple) :=
  ⟨fun _ _ _ hr h0 => S.hasDerivAt_potentialAt hr h0,
    fun hS _ _ hu ha => S.cross_acceleration_eq_zero hS hu ha,
    fun _ _ _ _ _ hm hr hw h0 ha =>
      S.hasDerivAt_energy_polarMomentum hr hw h0 ((S.velocityRate_real hm _).symm.trans ha),
    fun _ _ _ _ _ _ hf h => DynamicsModel.derivative_velocity_gravity hf h⟩

/-- The unit circular orbit about a unit point mass, at time zero. -/
theorem circular_orbit_conserved :
    let S : ZonalSeries ℝ := ⟨0, 1, 1, 0, 0, 0⟩
    let r : ℝ → Fin 3 → ℝ := fun s => ![Real.cos s, Real.sin s, 0]
    let w : ℝ → Fin 3 → ℝ := fun s => ![-Real.sin s, Real.cos s, 0]
    (∃ a : Fin 3 → ℝ, S.acceleration (r 0 0, r 0 1, r 0 2) = .ok (a 0, a 1, a 2) ∧
        r 0 0 * a 1 - r 0 1 * a 0 = 0 ∧
        HasDerivAt (fun s => S.potentialAt (r s)) (-(a ⬝ᵥ w 0)) 0) ∧
      r 0 ⨯₃ ![-1, 0, 0] = 0 ∧
      HasDerivAt (fun s => w s ⬝ᵥ w s / 2 + S.potentialAt (r s)) 0 0 ∧
        HasDerivAt (fun s => r s 0 * w s 1 - r s 1 * w s 0) 0 0 := by
  intro S r w
  have hr : HasDerivAt r (w 0) 0 := by
    refine hasDerivAt_pi.mpr fun i => ?_
    fin_cases i
    exacts [Real.hasDerivAt_cos 0, Real.hasDerivAt_sin 0, hasDerivAt_const 0 0]
  have hw : HasDerivAt w ![-1, 0, 0] 0 := by
    refine hasDerivAt_pi.mpr fun i => ?_
    fin_cases i
    · exact (Real.hasDerivAt_sin 0).neg.congr_deriv (by simp)
    · exact (Real.hasDerivAt_cos 0).congr_deriv (by simp)
    · exact hasDerivAt_const 0 0
  have h0 : r 0 ≠ 0 := fun h => by simpa [r] using congrFun h 0
  have ha : S.acceleration (r 0 0, r 0 1, r 0 2) = .ok (![-1, 0, 0] 0, ![-1, 0, 0] 1, ![-1, 0, 0] 2) := by
    simp [S, r, ZonalSeries.acceleration, ZonalSeries.pointMass, checkedDiv]
  have H := zonal_field_conservative S
  exact ⟨H.1 r (w 0) 0 hr h0, H.2.1 (by decide) (r 0) _ h0 ha,
    H.2.2.1 1 r w _ 0 one_ne_zero hr hw h0 ((S.velocityRate_real one_ne_zero _).trans ha)⟩

end Spacecraft
