import Mathlib
import Spacecraft.Environment.Geomagnetic
import Spacecraft.Proofs.Exact.Gravity
import Spacecraft.Proofs.Exact.Orbits

/-!
# The dipole field in exact arithmetic

The geomagnetic field is written here once more over any `Scalar` with the elementary
functions, in the code's order of operations: the Earth-fixed field of the dipole `g` at `p` is
`(R/|p|)³ (3 (g·p̂) p̂ - g)`, refused at the centre, and the inertial field turns the position
into the Earth-fixed frame by the rotation about the pole through the sidereal angle and turns
the field back by the transpose. At `Float` this is the model's field (`Dipole.field_toFun`).

Over the real numbers the rotation is proper and keeps the pole, and the inertial field is the
field of the dipole `Cᵀ g` seen in the inertial frame. Its strength lies between `(R/|p|)³ |g|`
on the magnetic equator and twice that on the axis, it falls as the inverse cube of the
distance, and it is the gradient of `-R³ (g·p)/|p|³`: along every path the potential changes by
the field's work on the velocity. Its rate along a direction is symmetric and traceless, so the
field is free of curl and of divergence off the centre.
-/

namespace Spacecraft

namespace Dipole

open Matrix

section Formulas

variable {K : Type} [Scalar K] [LT K] [DecidableLT K] [Elementary K]

/-- The rotation taking inertial components to Earth-fixed ones when the Earth has turned
through `θ`. -/
def rotation (θ : K) : Matrix (Fin 3) (Fin 3) K :=
  Pointing.rows ![Elementary.cos θ, Elementary.sin θ, 0.0]
    ![-Elementary.sin θ, Elementary.cos θ, 0.0]
    ![0.0, 0.0, 1.0]

/-- The product `mᵀ v`: each entry fused in index order from zero, then added to zero. -/
def tmulVec (m : Matrix (Fin 3) (Fin 3) K) (v : Fin 3 → K) : Fin 3 → K :=
  fun j => 0.0 + Scalar.fma (m 2 j) (v 2) (Scalar.fma (m 1 j) (v 1) (Scalar.fma (m 0 j) (v 0) 0.0))

/-- The Earth-fixed field at `p` of the dipole `g` with reference radius `R`, as computed once the
centre is excluded. -/
def fixedFieldAt (R : K) (g p : Fin 3 → K) : Fin 3 → K :=
  let r := Scalar.sqrt (Pointing.dot p p)
  let unit : Fin 3 → K := fun i => p i / r
  fun i => Scalar.pow (R / r) 3.0 * (3.0 * Pointing.dot g unit * unit i - g i)

/-- The Earth-fixed field; the centre itself is a division by zero. -/
def fixedField (R : K) (g p : Fin 3 → K) : Outcome (Fin 3 → K) :=
  if Scalar.isZero (Scalar.sqrt (Pointing.dot p p)) then .error Fault.floatDivision
  else .ok (fixedFieldAt R g p)

/-- The inertial field when the Earth has turned through `θ`. -/
def inertialField (R θ : K) (g p : Fin 3 → K) : Outcome (Fin 3 → K) :=
  (fixedField R g (Euler.mulVec (rotation θ) p)).map (tmulVec (rotation θ))

end Formulas

end Dipole

theorem Mat3.toFun_tmulVec (m : Mat3) (v : Vec3) :
    (m.tmulVec v).toFun = Dipole.tmulVec m.toMatrix v.toFun := by
  funext j
  fin_cases j <;> rfl

namespace Dipole

open Matrix

/-! ### The model's field at `Float` -/

theorem earthRotation_toMatrix (d : Dipole) (t : Float) :
    (d.earthRotation t).toMatrix = rotation (d.angle0 + earthRate * t) := by
  ext i j
  fin_cases i <;> fin_cases j <;> rfl

theorem fieldFixed_toFun (d : Dipole) (p : Vec3) :
    (d.fieldFixed p).map Vec3.toFun = fixedField d.referenceRadius d.moment.toFun p.toFun := by
  -- the length the code divides by is the one the reading tests
  have hr : p.norm = Scalar.sqrt (Pointing.dot p.toFun p.toFun) := rfl
  unfold fieldFixed fixedField divOrFault checkedDiv
  rw [hr]
  by_cases h0 : Scalar.isZero (Scalar.sqrt (Pointing.dot p.toFun p.toFun))
  · simp only [h0, if_true]
    rfl
  · simp only [h0, Bool.false_eq_true, if_false]
    refine congrArg Except.ok (funext fun i => ?_)
    fin_cases i <;> rfl

theorem field_toFun (d : Dipole) (t : Float) (p : Vec3) :
    (d.field t p).map Vec3.toFun =
      inertialField d.referenceRadius (d.angle0 + earthRate * t) d.moment.toFun p.toFun := by
  unfold field inertialField
  dsimp only
  rw [← earthRotation_toMatrix, ← Mat3.toFun_mulVec, ← fieldFixed_toFun]
  cases d.fieldFixed ((d.earthRotation t).mulVec p) with
  | error f => rfl
  | ok b => exact congrArg Except.ok (Mat3.toFun_tmulVec _ b)

/-! ### The field over the real numbers -/

section Real

theorem rotation_real (θ : ℝ) : rotation θ = Kepler.rotZ (-θ) := by
  rw [Kepler.rotZ_real]
  norm_num [rotation]

/-- The Earth's rotation is proper. -/
theorem rotation_mem (θ : ℝ) : rotation θ ∈ specialOrthogonalGroup (Fin 3) ℝ := by
  rw [rotation_real]
  exact Kepler.rotZ_mem (-θ)

/-- The Earth's rotation keeps the pole. -/
theorem rotation_mulVec_pole (θ : ℝ) : rotation θ *ᵥ ![0, 0, 1] = ![0, 0, 1] := by
  rw [rotation_real, Kepler.rotZ_real, Pointing.rows_mulVec]
  simp [dotProduct, Fin.sum_univ_three]

theorem tmulVec_real (m : Matrix (Fin 3) (Fin 3) ℝ) (v : Fin 3 → ℝ) : tmulVec m v = mᵀ *ᵥ v := by
  have h0 : (0.0 : ℝ) = 0 := by norm_num
  funext j
  simp only [tmulVec, Scalar.real_fma, Scalar.real_add, Scalar.real_mul, h0, Matrix.mulVec,
    dotProduct, Fin.sum_univ_three, transpose_apply]
  ring

theorem dotProduct_self_nonneg (v : Fin 3 → ℝ) : 0 ≤ v ⬝ᵥ v :=
  Finset.sum_nonneg fun i _ => mul_self_nonneg (v i)

theorem mul_self_length (p : Fin 3 → ℝ) : √(p ⬝ᵥ p) * √(p ⬝ᵥ p) = p ⬝ᵥ p :=
  Real.mul_self_sqrt (dotProduct_self_nonneg p)

/-- The Earth-fixed field in closed form: `(R/|p|)³ (3 (g·p)/|p|² p - g)`, zero at the centre. -/
theorem fixedFieldAt_real (R : ℝ) (g p : Fin 3 → ℝ) :
    fixedFieldAt R g p = (R / √(p ⬝ᵥ p)) ^ 3 • ((3 * (g ⬝ᵥ p) / (p ⬝ᵥ p)) • p - g) := by
  have h3 : (3.0 : ℝ) = 3 := by norm_num
  -- the inner product with the unit vector is the inner product with `p` over the length
  have hunit : (g ⬝ᵥ fun i => p i / √(p ⬝ᵥ p)) = (g ⬝ᵥ p) / √(p ⬝ᵥ p) := by
    simp only [dotProduct, Finset.sum_div, mul_div_assoc]
  funext i
  simp only [fixedFieldAt, Pointing.dot_real, Scalar.real_sqrt, Scalar.real_mul, Scalar.real_sub,
    ZonalSeries.real_pow_three, Pi.smul_apply, Pi.sub_apply, smul_eq_mul]
  rw [h3, hunit]
  have hss := mul_self_length p
  set s := √(p ⬝ᵥ p)
  rw [← hss]
  ring

/-- The same field as powers of the length: `R³ (3 (g·p) p / |p|⁵ - g / |p|³)`. -/
theorem fixedFieldAt_eq_pow (R : ℝ) (g p : Fin 3 → ℝ) :
    fixedFieldAt R g p = fun i =>
      R ^ 3 * (3 * (g ⬝ᵥ p) * p i / √(p ⬝ᵥ p) ^ 5 - g i / √(p ⬝ᵥ p) ^ 3) := by
  rw [fixedFieldAt_real]
  funext i
  simp only [Pi.smul_apply, Pi.sub_apply, smul_eq_mul]
  have hss := mul_self_length p
  set s := √(p ⬝ᵥ p)
  rw [← hss]
  ring

/-- A rotation of the frame turns the field with it: seen through an orthogonal `C`, the field
of `g` at `C p` is the field of `Cᵀ g` at `p`. -/
theorem transpose_mulVec_fixedFieldAt {C : Matrix (Fin 3) (Fin 3) ℝ}
    (hC : C ∈ orthogonalGroup (Fin 3) ℝ) (R : ℝ) (g p : Fin 3 → ℝ) :
    Cᵀ *ᵥ fixedFieldAt R g (C *ᵥ p) = fixedFieldAt R (Cᵀ *ᵥ g) p := by
  have hgp : g ⬝ᵥ C *ᵥ p = Cᵀ *ᵥ g ⬝ᵥ p := by rw [dotProduct_mulVec, mulVec_transpose]
  rw [fixedFieldAt_real, fixedFieldAt_real, mulVec_smul, mulVec_sub, mulVec_smul, mulVec_mulVec,
    Kepler.transpose_mul_self hC, one_mulVec, Kepler.dotProduct_mulVec_mulVec hC, hgp]

/-- Off the centre the inertial field is the Earth-fixed field at the turned position turned
back, which is the field of the dipole turned into the inertial frame. -/
theorem inertialField_real (R θ : ℝ) (g : Fin 3 → ℝ) {p : Fin 3 → ℝ} (hp : p ≠ 0) :
    inertialField R θ g p = .ok ((rotation θ)ᵀ *ᵥ fixedFieldAt R g (rotation θ *ᵥ p)) ∧
      inertialField R θ g p = .ok (fixedFieldAt R ((rotation θ)ᵀ *ᵥ g) p) := by
  have hO := (mem_specialOrthogonalGroup_iff.mp (rotation_mem θ)).1
  -- the turned position has the length of the position, so it is not refused
  have hlen : √(rotation θ *ᵥ p ⬝ᵥ rotation θ *ᵥ p) ≠ 0 := by
    rw [Kepler.dotProduct_mulVec_mulVec hO]
    exact ZonalSeries.length_ne_zero hp
  have hturned :
      inertialField R θ g p = .ok ((rotation θ)ᵀ *ᵥ fixedFieldAt R g (rotation θ *ᵥ p)) := by
    simp only [inertialField, fixedField, Euler.mulVec_real, Pointing.dot_real, Scalar.real_sqrt,
      Scalar.real_isZero, hlen, decide_false, Bool.false_eq_true, if_false]
    exact congrArg Except.ok (tmulVec_real _ _)
  exact ⟨hturned, by rw [hturned, transpose_mulVec_fixedFieldAt hO]⟩

/-- The squared strength of the field at `p`: `(R/|p|)⁶ (3 (g·p)²/|p|² + |g|²)`. -/
theorem fixedFieldAt_dotProduct_self (R : ℝ) (g : Fin 3 → ℝ) {p : Fin 3 → ℝ} (hp : p ≠ 0) :
    fixedFieldAt R g p ⬝ᵥ fixedFieldAt R g p =
      ((R / √(p ⬝ᵥ p)) ^ 3) ^ 2 * (3 * (g ⬝ᵥ p) ^ 2 / (p ⬝ᵥ p) + g ⬝ᵥ g) := by
  have hpp : p ⬝ᵥ p ≠ 0 := fun h => hp (dotProduct_self_eq_zero.mp h)
  rw [fixedFieldAt_real]
  simp only [dotProduct_smul, smul_dotProduct, dotProduct_sub, sub_dotProduct, smul_eq_mul]
  rw [dotProduct_comm p g]
  field_simp
  ring

/-- The inner product of two vectors is at most the product of their lengths, squared. -/
theorem dotProduct_sq_le (g p : Fin 3 → ℝ) : (g ⬝ᵥ p) ^ 2 ≤ (g ⬝ᵥ g) * (p ⬝ᵥ p) := by
  have h := dotProduct_self_nonneg (g ⨯₃ p)
  rw [cross_dot_cross, dotProduct_comm p g] at h
  nlinarith

/-- The strength of the field at `p` lies between `(|R|/|p|)³ |g|`, reached where `p` is
orthogonal to the dipole, and twice that, reached on its axis. -/
theorem length_fixedFieldAt (R : ℝ) (g : Fin 3 → ℝ) {p : Fin 3 → ℝ} (hp : p ≠ 0) :
    |R / √(p ⬝ᵥ p)| ^ 3 * √(g ⬝ᵥ g) ≤ √(fixedFieldAt R g p ⬝ᵥ fixedFieldAt R g p) ∧
      √(fixedFieldAt R g p ⬝ᵥ fixedFieldAt R g p) ≤ 2 * |R / √(p ⬝ᵥ p)| ^ 3 * √(g ⬝ᵥ g) := by
  have hpp : 0 < p ⬝ᵥ p := Pointing.dotProduct_self_pos hp
  have hgg := dotProduct_self_nonneg g
  -- the axial part `3 (g·p)²/|p|²` lies between zero and `3 |g|²`
  have hlo : 0 ≤ 3 * (g ⬝ᵥ p) ^ 2 / (p ⬝ᵥ p) := by positivity
  have hhi : 3 * (g ⬝ᵥ p) ^ 2 / (p ⬝ᵥ p) ≤ 3 * (g ⬝ᵥ g) := by
    rw [div_le_iff₀ hpp]
    nlinarith [dotProduct_sq_le g p]
  have hlen : √(fixedFieldAt R g p ⬝ᵥ fixedFieldAt R g p) =
      |R / √(p ⬝ᵥ p)| ^ 3 * √(3 * (g ⬝ᵥ p) ^ 2 / (p ⬝ᵥ p) + g ⬝ᵥ g) := by
    rw [fixedFieldAt_dotProduct_self R g hp, Real.sqrt_mul (sq_nonneg _), Real.sqrt_sq_eq_abs,
      abs_pow]
  have hfour : √(4 * (g ⬝ᵥ g)) = 2 * √(g ⬝ᵥ g) := by
    rw [Real.sqrt_mul (by norm_num), show (4 : ℝ) = 2 ^ 2 by norm_num,
      Real.sqrt_sq (by norm_num)]
  rw [hlen, mul_assoc 2, mul_left_comm 2, ← hfour]
  constructor
  · exact mul_le_mul_of_nonneg_left (Real.sqrt_le_sqrt (by linarith)) (by positivity)
  · exact mul_le_mul_of_nonneg_left (Real.sqrt_le_sqrt (by linarith)) (by positivity)

/-- The strength of the inertial field lies between `(|R|/|p|)³ |g|` and twice that, for every
orientation of the dipole: the turn back into the inertial frame keeps lengths. -/
theorem length_inertialField (R θ : ℝ) (g : Fin 3 → ℝ) {p : Fin 3 → ℝ} (hp : p ≠ 0) :
    ∃ B, inertialField R θ g p = .ok B ∧
      |R / √(p ⬝ᵥ p)| ^ 3 * √(g ⬝ᵥ g) ≤ √(B ⬝ᵥ B) ∧
        √(B ⬝ᵥ B) ≤ 2 * |R / √(p ⬝ᵥ p)| ^ 3 * √(g ⬝ᵥ g) := by
  have hO := (mem_specialOrthogonalGroup_iff.mp (rotation_mem θ)).1
  have hg : (rotation θ)ᵀ *ᵥ g ⬝ᵥ (rotation θ)ᵀ *ᵥ g = g ⬝ᵥ g := by
    rw [dotProduct_mulVec, vecMul_transpose, mulVec_mulVec, Kepler.mul_transpose_self hO,
      one_mulVec]
  refine ⟨_, (inertialField_real R θ g hp).2, ?_⟩
  rw [← hg]
  exact length_fixedFieldAt R _ hp

/-- The field falls as the inverse cube of the distance along every ray. -/
theorem fixedFieldAt_smul (R : ℝ) (g : Fin 3 → ℝ) {c : ℝ} (hc : 0 < c) (p : Fin 3 → ℝ) :
    fixedFieldAt R g (c • p) = (c ^ 3)⁻¹ • fixedFieldAt R g p := by
  have hlen : √(c • p ⬝ᵥ c • p) = c * √(p ⬝ᵥ p) := by
    rw [dotProduct_smul, smul_dotProduct, smul_eq_mul, smul_eq_mul, ← mul_assoc,
      Real.sqrt_mul (mul_self_nonneg c), Real.sqrt_mul_self hc.le]
  rw [fixedFieldAt_real, fixedFieldAt_real, hlen]
  by_cases hpp : p ⬝ᵥ p = 0
  · simp [hpp]
  · funext i
    simp only [Pi.smul_apply, Pi.sub_apply, smul_eq_mul, dotProduct_smul, smul_dotProduct]
    field_simp

/-- The inertial field, too, falls as the inverse cube of the distance. -/
theorem inertialField_smul (R θ : ℝ) (g : Fin 3 → ℝ) {c : ℝ} (hc : 0 < c) {p : Fin 3 → ℝ}
    (hp : p ≠ 0) : inertialField R θ g (c • p) = (inertialField R θ g p).map ((c ^ 3)⁻¹ • ·) := by
  have hcp : c • p ≠ 0 := smul_ne_zero hc.ne' hp
  rw [(inertialField_real R θ g hcp).2, (inertialField_real R θ g hp).2, fixedFieldAt_smul R _ hc]
  rfl

/-- The field's inner product with a vector `v`, in powers of the length. -/
theorem fixedFieldAt_dotProduct (R : ℝ) (g p v : Fin 3 → ℝ) :
    fixedFieldAt R g p ⬝ᵥ v =
      R ^ 3 * (3 * (g ⬝ᵥ p) * (p ⬝ᵥ v) / √(p ⬝ᵥ p) ^ 5 - (g ⬝ᵥ v) / √(p ⬝ᵥ p) ^ 3) := by
  rw [fixedFieldAt_eq_pow]
  simp only [dotProduct, Fin.sum_univ_three]
  ring

/-- The rate of the field at `p` along a direction `v`, its Jacobian applied to `v`:
`3 R³/|p|⁵ ((g·v) p + (g·p) v + (p·v) g - 5 (g·p)(p·v)/|p|² p)`. -/
noncomputable def fieldRate (R : ℝ) (g p v : Fin 3 → ℝ) : Fin 3 → ℝ :=
  (3 • R ^ 3 / √(p ⬝ᵥ p) ^ 5) • ((g ⬝ᵥ v) • p + (g ⬝ᵥ p) • v + (p ⬝ᵥ v) • g -
    (5 • ((g ⬝ᵥ p) * (p ⬝ᵥ v) / (p ⬝ᵥ p))) • p)

section Paths

variable {r : ℝ → Fin 3 → ℝ} {v : Fin 3 → ℝ} {t : ℝ} (hr : HasDerivAt r v t) (h0 : r t ≠ 0)
include hr h0

/-- The field is the gradient of `-R³ (g·p)/|p|³`: along every path off the centre the
potential changes by the field's work on the velocity. -/
theorem hasDerivAt_potential (R : ℝ) (g : Fin 3 → ℝ) :
    HasDerivAt (fun s => -R ^ 3 * (g ⬝ᵥ r s / √(r s ⬝ᵥ r s) ^ 3))
      (fixedFieldAt R g (r t) ⬝ᵥ v) t := by
  have hρ0 := ZonalSeries.length_ne_zero h0
  have hρ := Motion.hasDerivAt_length hr h0
  have hgr := Motion.hasDerivAt_dotProduct (hasDerivAt_const t g) hr
  refine ((hgr.fun_div (hρ.fun_pow 3) (pow_ne_zero 3 hρ0)).const_mul (-R ^ 3)).congr_deriv ?_
  rw [fixedFieldAt_dotProduct, zero_dotProduct, zero_add]
  field_simp
  ring

/-- The inertial field is `-R³` times the gradient of `gᵢ·p/|p|³`, where `gᵢ = Cᵀ g` is the
dipole seen in the inertial frame. -/
theorem hasDerivAt_inertialPotential (R θ : ℝ) (g : Fin 3 → ℝ) :
    ∃ B, inertialField R θ g (r t) = .ok B ∧
      HasDerivAt (fun s => -R ^ 3 * ((rotation θ)ᵀ *ᵥ g ⬝ᵥ r s / √(r s ⬝ᵥ r s) ^ 3)) (B ⬝ᵥ v) t :=
  ⟨_, (inertialField_real R θ g h0).2, hasDerivAt_potential hr h0 R _⟩

/-- Along every path off the centre the field changes at the rate `fieldRate` of the velocity. -/
theorem hasDerivAt_fixedFieldAt (R : ℝ) (g : Fin 3 → ℝ) :
    HasDerivAt (fun s => fixedFieldAt R g (r s)) (fieldRate R g (r t) v) t := by
  have hρ0 := ZonalSeries.length_ne_zero h0
  have hρ := Motion.hasDerivAt_length hr h0
  have hgr := Motion.hasDerivAt_dotProduct (hasDerivAt_const t g) hr
  simp only [fixedFieldAt_eq_pow]
  refine hasDerivAt_pi.mpr fun i => ?_
  -- each component is `R³ (3 (g·r) rᵢ / |r|⁵ - gᵢ / |r|³)`
  have hri := hasDerivAt_pi.mp hr i
  refine (((((hgr.const_mul 3).mul hri).fun_div (hρ.fun_pow 5) (pow_ne_zero 5 hρ0)).sub
    ((hasDerivAt_const t (g i)).fun_div (hρ.fun_pow 3) (pow_ne_zero 3 hρ0))).const_mul
      (R ^ 3)).congr_deriv ?_
  have hss := mul_self_length (r t)
  simp only [fieldRate, zero_dotProduct, zero_add, Pi.mul_apply, Pi.smul_apply, Pi.sub_apply,
    Pi.add_apply, smul_eq_mul, nsmul_eq_mul, Nat.cast_ofNat]
  set ρ := √(r t ⬝ᵥ r t)
  rw [← hss]
  field_simp
  ring

end Paths

/-- The rate of the field is symmetric, so the field has no curl. -/
theorem dotProduct_fieldRate_comm (R : ℝ) (g p u v : Fin 3 → ℝ) :
    u ⬝ᵥ fieldRate R g p v = v ⬝ᵥ fieldRate R g p u := by
  simp only [fieldRate, dotProduct_smul, dotProduct_sub, dotProduct_add, smul_eq_mul]
  rw [dotProduct_comm u p, dotProduct_comm v p, dotProduct_comm u g, dotProduct_comm v g,
    dotProduct_comm u v]
  ring

/-- The rate of the field has no trace, so off the centre the field has no divergence. -/
theorem trace_fieldRate (R : ℝ) (g : Fin 3 → ℝ) {p : Fin 3 → ℝ} (hp : p ≠ 0) :
    ∑ i, fieldRate R g p (Pi.single i 1) i = 0 := by
  have hpp : p ⬝ᵥ p * (p ⬝ᵥ p)⁻¹ = 1 :=
    mul_inv_cancel₀ fun h => hp (dotProduct_self_eq_zero.mp h)
  have hgp : g 0 * p 0 + g 1 * p 1 + g 2 * p 2 = g ⬝ᵥ p := by
    simp only [dotProduct, Fin.sum_univ_three]
  have hpp' : p 0 * p 0 + p 1 * p 1 + p 2 * p 2 = p ⬝ᵥ p := by
    simp only [dotProduct, Fin.sum_univ_three]
  simp only [fieldRate, Fin.sum_univ_three, Pi.smul_apply, Pi.sub_apply, Pi.add_apply,
    smul_eq_mul, dotProduct_single, mul_one, Pi.single_eq_same, nsmul_eq_mul, Nat.cast_ofNat]
  -- the diagonal brackets sum to `2 (g·p) + 3 (g·p) - 5 (g·p) |p|²/|p|²`
  linear_combination 2 * (3 * R ^ 3 / √(p ⬝ᵥ p) ^ 5) * hgp -
    5 * (3 * R ^ 3 / √(p ⬝ᵥ p) ^ 5) * (g ⬝ᵥ p) * (p ⬝ᵥ p)⁻¹ * hpp' -
    5 * (3 * R ^ 3 / √(p ⬝ᵥ p) ^ 5) * (g ⬝ᵥ p) * hpp

end Real

/-- The dipole field in exact arithmetic. The model's field is the generic one at `Float`.
Over the reals the Earth's rotation is proper and keeps the pole, and off the centre the
inertial field is the Earth-fixed field at the turned position turned back, which is the field
of the turned dipole `Cᵀ g`. Its strength lies between `(|R|/|p|)³ |g|` and twice that, and it
falls as the inverse cube of the distance. It is `-R³` times the gradient of `Cᵀ g·p/|p|³`, and
its rate along a direction is symmetric and traceless: no curl, no divergence. -/
theorem dipole_field_laws :
    (∀ (d : Dipole) (t : Float) (p : Vec3), (d.field t p).map Vec3.toFun =
      inertialField d.referenceRadius (d.angle0 + earthRate * t) d.moment.toFun p.toFun) ∧
    (∀ θ : ℝ, rotation θ ∈ specialOrthogonalGroup (Fin 3) ℝ ∧
      rotation θ *ᵥ ![0, 0, 1] = ![0, 0, 1]) ∧
    (∀ (R θ : ℝ) (g p : Fin 3 → ℝ), p ≠ 0 →
      inertialField R θ g p = .ok ((rotation θ)ᵀ *ᵥ fixedFieldAt R g (rotation θ *ᵥ p)) ∧
        inertialField R θ g p = .ok (fixedFieldAt R ((rotation θ)ᵀ *ᵥ g) p)) ∧
    (∀ (R θ : ℝ) (g p : Fin 3 → ℝ), p ≠ 0 → ∃ B, inertialField R θ g p = .ok B ∧
      |R / √(p ⬝ᵥ p)| ^ 3 * √(g ⬝ᵥ g) ≤ √(B ⬝ᵥ B) ∧
        √(B ⬝ᵥ B) ≤ 2 * |R / √(p ⬝ᵥ p)| ^ 3 * √(g ⬝ᵥ g)) ∧
    (∀ (R θ c : ℝ) (g p : Fin 3 → ℝ), 0 < c → p ≠ 0 →
      inertialField R θ g (c • p) = (inertialField R θ g p).map ((c ^ 3)⁻¹ • ·)) ∧
    (∀ (R θ t : ℝ) (g v : Fin 3 → ℝ) (r : ℝ → Fin 3 → ℝ), HasDerivAt r v t → r t ≠ 0 →
      ∃ B, inertialField R θ g (r t) = .ok B ∧
        HasDerivAt (fun s => -R ^ 3 * ((rotation θ)ᵀ *ᵥ g ⬝ᵥ r s / √(r s ⬝ᵥ r s) ^ 3))
          (B ⬝ᵥ v) t) ∧
    (∀ (R t : ℝ) (g v : Fin 3 → ℝ) (r : ℝ → Fin 3 → ℝ), HasDerivAt r v t → r t ≠ 0 →
      HasDerivAt (fun s => fixedFieldAt R g (r s)) (fieldRate R g (r t) v) t) ∧
    (∀ (R : ℝ) (g p u v : Fin 3 → ℝ), u ⬝ᵥ fieldRate R g p v = v ⬝ᵥ fieldRate R g p u) ∧
    (∀ (R : ℝ) (g p : Fin 3 → ℝ), p ≠ 0 → ∑ i, fieldRate R g p (Pi.single i 1) i = 0) :=
  ⟨field_toFun, fun θ => ⟨rotation_mem θ, rotation_mulVec_pole θ⟩,
    fun R θ g _ hp => inertialField_real R θ g hp,
    fun R θ g _ hp => length_inertialField R θ g hp,
    fun R θ _ g _ hc hp => inertialField_smul R θ g hc hp,
    fun R θ _ g _ _ hr h0 => hasDerivAt_inertialPotential hr h0 R θ g,
    fun R _ g _ _ hr h0 => hasDerivAt_fixedFieldAt hr h0 R g,
    dotProduct_fieldRate_comm, fun R g _ hp => trace_fieldRate R g hp⟩

/-- On the magnetic equator at twice the reference radius, a unit dipole along the pole gives a
field of strength between an eighth and a quarter. -/
theorem equatorial_dipole_strength :
    ∃ B, inertialField (1 : ℝ) 0 ![0, 0, 1] ![2, 0, 0] = .ok B ∧
      1 / 8 ≤ √(B ⬝ᵥ B) ∧ √(B ⬝ᵥ B) ≤ 1 / 4 := by
  have hp : (![2, 0, 0] : Fin 3 → ℝ) ≠ 0 := fun h => by simpa using congrFun h 0
  obtain ⟨B, hB, hlo, hhi⟩ := dipole_field_laws.2.2.2.1 1 0 ![0, 0, 1] ![2, 0, 0] hp
  have hpp : √((![2, 0, 0] : Fin 3 → ℝ) ⬝ᵥ ![2, 0, 0]) = 2 := by
    rw [show (![2, 0, 0] : Fin 3 → ℝ) ⬝ᵥ ![2, 0, 0] = 2 ^ 2 by
      simp [dotProduct, Fin.sum_univ_three]; norm_num]
    exact Real.sqrt_sq (by norm_num)
  have hgg : √((![0, 0, 1] : Fin 3 → ℝ) ⬝ᵥ ![0, 0, 1]) = 1 := by
    simp [dotProduct, Fin.sum_univ_three]
  rw [hpp, hgg] at hlo hhi
  refine ⟨B, hB, ?_, ?_⟩ <;> norm_num at hlo hhi ⊢ <;> linarith

end Dipole

end Spacecraft
