import Mathlib
import Spacecraft.Dynamics.Orbit
import Spacecraft.Proofs.Binary64.Symmetry
import Spacecraft.Proofs.Exact.Elementary
import Spacecraft.Proofs.Exact.Gravity
import Spacecraft.Proofs.Exact.Pointing

/-!
# Orbits from elements

The two builders of an initial orbit: a circular orbit of a given altitude above the equatorial
radius, and a closed Keplerian orbit of a semi-major axis and eccentricity. Both place the
satellite in the orbit plane and rotate the plane into the inertial frame by the node rotation
about the pole, then the inclination rotation about the line of nodes, and for elements the
perigee rotation within the plane. The formulas are written here once over any `Scalar` with
the elementary functions; at `Float` they are the model's builders, its specific orbital energy
and its orbital angular momentum.

In exact arithmetic the rotations are proper rotations, so they keep lengths and inner
products and commute with the cross product. A circular orbit of positive radius
`R + altitude` then has that radius, the circular speed `√(μ/r)` and its velocity normal to its
position. A closed orbit with `a > 0`, `0 ≤ e < 1` and `μ > 0` has the radius
`a(1 - e²)/(1 + e cos ν)` of the conic, the energy `-μ/(2a)` and the angular momentum
`√(μ a (1 - e²))` along the orbit normal `(sin i sin Ω, -sin i cos Ω, cos i)`; with `e = 0` it is
the circular orbit of altitude `a - R` and argument of latitude `ω + ν`, because a rotation
within the plane adds its angle to the anomaly.

Below the centre of the Earth the circular builder still succeeds: an altitude under `-R`
gives a negative `R + altitude`, which the radius, a square root, never equals.
-/

namespace Spacecraft

namespace Kepler

open Matrix

section Formulas

variable {K : Type} [Scalar K] [LT K] [DecidableLT K] [Elementary K]

/-- Rotation about the third axis by an angle in radians. -/
def rotZ (a : K) : Matrix (Fin 3) (Fin 3) K :=
  Pointing.rows ![Elementary.cos a, -Elementary.sin a, 0.0] ![Elementary.sin a, Elementary.cos a, 0.0]
    ![0.0, 0.0, 1.0]

/-- Rotation about the first axis by an angle in radians. -/
def rotX (a : K) : Matrix (Fin 3) (Fin 3) K :=
  Pointing.rows ![1.0, 0.0, 0.0] ![0.0, Elementary.cos a, -Elementary.sin a]
    ![0.0, Elementary.sin a, Elementary.cos a]

/-- The matrix product, each entry accumulated by fused multiply-add from zero in index order
and added to zero. -/
def mul (a b : Matrix (Fin 3) (Fin 3) K) : Matrix (Fin 3) (Fin 3) K :=
  Matrix.of fun i j => 0.0 + Pointing.dot (a i) fun k => b k j

/-- The vector `s (x, y, 0)` of the orbit plane. -/
def planar (s x y : K) : Fin 3 → K := ![s * x, s * y, s * 0.0]

/-- The equatorial radius of the Earth [m]. -/
def equatorialRadius : K := 6378137.0

/-- Position and velocity on a circular orbit; refused when the radius is zero. -/
def circular (altitude inclination raan argLatitude mu : K) :
    Outcome ((Fin 3 → K) × (Fin 3 → K)) := do
  let r := equatorialRadius + altitude
  let v := Scalar.sqrt (← checkedDiv Fault.floatDivision mu r)
  let u := Elementary.radians argLatitude
  let m := mul (rotZ (Elementary.radians raan)) (rotX (Elementary.radians inclination))
  pure (Euler.mulVec m (planar r (Elementary.cos u) (Elementary.sin u)),
    Euler.mulVec m (planar v (-Elementary.sin u) (Elementary.cos u)))

/-- Position and velocity from Keplerian elements that describe a closed orbit; refused when the
semi-latus rectum `a (1 - e²)` is zero. -/
def ofElements (a e inclination raan argPerigee trueAnomaly mu : K) :
    Outcome ((Fin 3 → K) × (Fin 3 → K)) := do
  let p := a * (1.0 - Scalar.pow e 2.0)
  let nu := Elementary.radians trueAnomaly
  let r := p / (1.0 + e * Elementary.cos nu)
  let w := Scalar.sqrt (← checkedDiv Fault.floatDivision mu p)
  let m := mul (mul (rotZ (Elementary.radians raan)) (rotX (Elementary.radians inclination)))
    (rotZ (Elementary.radians argPerigee))
  pure (Euler.mulVec m (planar r (Elementary.cos nu) (Elementary.sin nu)),
    Euler.mulVec m (planar w (-Elementary.sin nu) (e + Elementary.cos nu)))

/-- The two-body specific orbital energy `v²/2 - μ/r`; refused at the centre. -/
def energy (r v : Fin 3 → K) (mu : K) : Outcome K := do
  let q ← checkedDiv Fault.floatDivision mu (Scalar.sqrt (Pointing.dot r r))
  pure (0.5 * Scalar.pow (Scalar.sqrt (Pointing.dot v v)) 2.0 - q)

end Formulas

end Kepler

/-! ### The model's builders at `Float` -/

/-- The components of a position and a velocity. -/
def Vec3.pairToFun (p : Vec3 × Vec3) : (Fin 3 → Float) × (Fin 3 → Float) :=
  (p.1.toFun, p.2.toFun)

theorem Mat3.toMatrix_mul (a b : Mat3) : (a.mul b).toMatrix = Kepler.mul a.toMatrix b.toMatrix := by
  ext i j
  fin_cases i <;> fin_cases j <;> rfl

theorem Vec3.toFun_smul_planar (s x y : Float) :
    (Vec3.smul s ⟨x, y, 0.0⟩).toFun = Kepler.planar s x y := by
  funext i
  fin_cases i <;> rfl

namespace Orbit

theorem rotZ_toMatrix (a : Float) : (rotZ a).toMatrix = Kepler.rotZ a := by
  ext i j
  fin_cases i <;> fin_cases j <;> rfl

theorem rotX_toMatrix (a : Float) : (rotX a).toMatrix = Kepler.rotX a := by
  ext i j
  fin_cases i <;> fin_cases j <;> rfl

theorem circular_toFun (altitude inclination raan argLatitude mu : Float) :
    (circular altitude inclination raan argLatitude mu).map Vec3.pairToFun =
      Kepler.circular altitude inclination raan argLatitude mu := by
  have hq : divOrFault mu (earthRadius + altitude) =
      checkedDiv Fault.floatDivision mu (Kepler.equatorialRadius + altitude) := rfl
  unfold circular Kepler.circular
  dsimp only
  rw [hq]
  cases checkedDiv Fault.floatDivision mu (Kepler.equatorialRadius + altitude) with
  | error f => rfl
  | ok q =>
    show Except.ok _ = Except.ok _
    simp only [Vec3.pairToFun, Mat3.toFun_mulVec, Mat3.toMatrix_mul, rotZ_toMatrix, rotX_toMatrix,
      Vec3.toFun_smul_planar]
    rfl

/-- The elements of a closed orbit pass the builder's check, which leaves the formulas. -/
theorem ofElements_toFun {a e : Float} (ha : 0.0 < a) (he₀ : 0.0 ≤ e) (he₁ : e < 1.0)
    (inclination raan argPerigee trueAnomaly mu : Float) :
    (ofElements a e inclination raan argPerigee trueAnomaly mu).map Vec3.pairToFun =
      Kepler.ofElements a e inclination raan argPerigee trueAnomaly mu := by
  have hguard : (a ≤ 0.0 || !(0.0 ≤ e && e < 1.0)) = false := by
    have ha' : ¬ a ≤ 0.0 := fun h => Binary64.not_lt_of_float_le h ha
    simp [ha', he₀, he₁]
  have hq : divOrFault mu (a * (1.0 - Float.pow e 2.0)) =
      checkedDiv Fault.floatDivision mu (a * (1.0 - Scalar.pow e 2.0)) := rfl
  unfold ofElements Kepler.ofElements
  dsimp only
  rw [hguard, if_neg Bool.false_ne_true, hq]
  cases checkedDiv Fault.floatDivision mu (a * (1.0 - Scalar.pow e 2.0)) with
  | error f => rfl
  | ok q =>
    show Except.ok _ = Except.ok _
    simp only [Vec3.pairToFun, Mat3.toFun_mulVec, Mat3.toMatrix_mul, rotZ_toMatrix, rotX_toMatrix,
      Vec3.toFun_smul_planar]
    rfl

end Orbit

theorem SatState.orbitalEnergy_eq (s : SatState) (mu : Float) :
    s.orbitalEnergy mu = Kepler.energy s.position.toFun s.velocity.toFun mu := rfl

theorem SatState.orbitalMomentum_toFun (s : SatState) :
    s.orbitalMomentum.toFun = Euler.cross s.position.toFun s.velocity.toFun :=
  Vec3.toFun_cross _ _

/-! ### Proper rotations -/

namespace Kepler

open Matrix Real

section Rotations

theorem rotZ_real (a : ℝ) :
    rotZ a = Pointing.rows ![Real.cos a, -Real.sin a, 0] ![Real.sin a, Real.cos a, 0] ![0, 0, 1] := by
  norm_num [rotZ]

theorem rotX_real (a : ℝ) :
    rotX a = Pointing.rows ![1, 0, 0] ![0, Real.cos a, -Real.sin a] ![0, Real.sin a, Real.cos a] := by
  norm_num [rotX]

theorem mul_real (a b : Matrix (Fin 3) (Fin 3) ℝ) : mul a b = a * b := by
  ext i j
  norm_num [mul, Pointing.dot_real, Matrix.mul_apply, dotProduct]

theorem planar_real (s x y : ℝ) : planar s x y = s • ![x, y, 0] := by
  funext i
  fin_cases i <;> norm_num [planar]

theorem rotZ_mem (a : ℝ) : rotZ a ∈ specialOrthogonalGroup (Fin 3) ℝ := by
  have h : Real.cos a * Real.cos a + Real.sin a * Real.sin a = 1 := by
    rw [← Real.cos_sub, sub_self, Real.cos_zero]
  rw [rotZ_real]
  apply Pointing.RightHanded.mem
  constructor <;> simp [dotProduct, Fin.sum_univ_three, cross_apply, h, add_comm, mul_comm]

theorem rotX_mem (a : ℝ) : rotX a ∈ specialOrthogonalGroup (Fin 3) ℝ := by
  have h : Real.cos a * Real.cos a + Real.sin a * Real.sin a = 1 := by
    rw [← Real.cos_sub, sub_self, Real.cos_zero]
  rw [rotX_real]
  apply Pointing.RightHanded.mem
  constructor <;> simp [dotProduct, Fin.sum_univ_three, cross_apply, h, add_comm, mul_comm]

section Orthogonal

variable {M : Matrix (Fin 3) (Fin 3) ℝ}

theorem transpose_mul_self (hM : M ∈ orthogonalGroup (Fin 3) ℝ) : Mᵀ * M = 1 := by
  simpa using (mem_orthogonalGroup_iff' (Fin 3) ℝ).mp hM

theorem mul_transpose_self (hM : M ∈ orthogonalGroup (Fin 3) ℝ) : M * Mᵀ = 1 := by
  simpa using (mem_orthogonalGroup_iff (Fin 3) ℝ).mp hM

/-- An orthogonal matrix keeps inner products. -/
theorem dotProduct_mulVec_mulVec (hM : M ∈ orthogonalGroup (Fin 3) ℝ) (x y : Fin 3 → ℝ) :
    M *ᵥ x ⬝ᵥ M *ᵥ y = x ⬝ᵥ y := by
  rw [dotProduct_mulVec, ← vecMul_transpose, vecMul_vecMul, transpose_mul_self hM, vecMul_one]

/-- A proper rotation commutes with the cross product: the triple product of `w` with the
rotated vectors is the determinant of the rows `Mᵀ w`, `x`, `y` times `det M = 1`. -/
theorem cross_mulVec (hM : M ∈ specialOrthogonalGroup (Fin 3) ℝ) (x y : Fin 3 → ℝ) :
    (M *ᵥ x) ⨯₃ (M *ᵥ y) = M *ᵥ (x ⨯₃ y) := by
  obtain ⟨hO, hdet⟩ := (mem_specialOrthogonalGroup_iff).mp hM
  have hrows : ∀ w : Fin 3 → ℝ,
      Matrix.of ![w, M *ᵥ x, M *ᵥ y] = Matrix.of ![Mᵀ *ᵥ w, x, y] * Mᵀ := by
    intro w
    funext i
    rw [mul_apply_eq_vecMul, vecMul_transpose]
    fin_cases i
    · show w = M *ᵥ (Mᵀ *ᵥ w)
      rw [mulVec_mulVec, mul_transpose_self hO, one_mulVec]
    · rfl
    · rfl
  have hdot : ∀ w, w ⬝ᵥ ((M *ᵥ x) ⨯₃ (M *ᵥ y)) = w ⬝ᵥ (M *ᵥ (x ⨯₃ y)) := by
    intro w
    rw [triple_product_eq_det]
    change (Matrix.of ![w, M *ᵥ x, M *ᵥ y]).det = _
    rw [hrows, det_mul, det_transpose, hdet, mul_one]
    change Matrix.det ![Mᵀ *ᵥ w, x, y] = _
    rw [← triple_product_eq_det, dotProduct_mulVec, ← mulVec_transpose]
  funext i
  simpa using hdot (Pi.single i 1)

end Orthogonal

theorem rotation_mem (raan inclination : ℝ) :
    rotZ raan * rotX inclination ∈ specialOrthogonalGroup (Fin 3) ℝ :=
  mul_mem (rotZ_mem raan) (rotX_mem inclination)

theorem orthogonal_of_mem {M : Matrix (Fin 3) (Fin 3) ℝ} (hM : M ∈ specialOrthogonalGroup (Fin 3) ℝ) :
    M ∈ orthogonalGroup (Fin 3) ℝ :=
  (mem_specialOrthogonalGroup_iff.mp hM).1

end Rotations

/-! ### The builders in exact arithmetic -/

section Builders

@[simp] theorem equatorialRadius_real : (equatorialRadius : ℝ) = 6378137 := by
  norm_num [equatorialRadius]

/-- A circular orbit of non-zero radius, in closed form: the radial and transverse directions of
the argument of latitude, scaled by the radius and the circular speed, turned by the node and
inclination rotations. -/
theorem circular_real {altitude : ℝ} (h : 6378137 + altitude ≠ 0)
    (inclination raan argLatitude mu : ℝ) :
    circular altitude inclination raan argLatitude mu =
      .ok ((rotZ (raan * (π / 180)) * rotX (inclination * (π / 180))) *ᵥ
          ((6378137 + altitude) • ![cos (argLatitude * (π / 180)), sin (argLatitude * (π / 180)), 0]),
        (rotZ (raan * (π / 180)) * rotX (inclination * (π / 180))) *ᵥ
          (√(mu / (6378137 + altitude)) •
            ![-sin (argLatitude * (π / 180)), cos (argLatitude * (π / 180)), 0])) := by
  simp only [circular, equatorialRadius_real, checkedDiv_real _ _ h]
  simp only [Elementary.real_radians, Elementary.real_cos, Elementary.real_sin, Scalar.real_sqrt,
    Scalar.real_neg, mul_real, Euler.mulVec_real, planar_real]
  rfl

/-- A closed orbit of non-zero semi-latus rectum `p = a (1 - e²)`, in closed form: the point of
the conic at the true anomaly and its velocity in the perifocal frame, turned by the node,
inclination and perigee rotations. -/
theorem ofElements_real {a e : ℝ} (hp : a * (1 - e ^ 2) ≠ 0)
    (inclination raan argPerigee trueAnomaly mu : ℝ) :
    ofElements a e inclination raan argPerigee trueAnomaly mu =
      .ok ((rotZ (raan * (π / 180)) * rotX (inclination * (π / 180)) *
            rotZ (argPerigee * (π / 180))) *ᵥ
          ((a * (1 - e ^ 2) / (1 + e * cos (trueAnomaly * (π / 180)))) •
            ![cos (trueAnomaly * (π / 180)), sin (trueAnomaly * (π / 180)), 0]),
        (rotZ (raan * (π / 180)) * rotX (inclination * (π / 180)) *
            rotZ (argPerigee * (π / 180))) *ᵥ
          (√(mu / (a * (1 - e ^ 2))) •
            ![-sin (trueAnomaly * (π / 180)), e + cos (trueAnomaly * (π / 180)), 0])) := by
  have hpow : Scalar.pow e 2.0 = e ^ 2 := by norm_num [Scalar.real_pow]
  have h1 : (1.0 : ℝ) = 1 := by norm_num
  simp only [ofElements, hpow, h1, Scalar.real_sub, Scalar.real_mul, checkedDiv_real _ _ hp]
  simp only [Elementary.real_radians, Elementary.real_cos, Elementary.real_sin, Scalar.real_sqrt,
    Scalar.real_neg, Scalar.real_add, mul_real, Euler.mulVec_real, planar_real]
  rfl

/-- A rotation within the orbit plane adds its angle to the anomaly of a radial vector. -/
theorem rotZ_mulVec_radial (ω θ s : ℝ) :
    rotZ ω *ᵥ (s • ![cos θ, sin θ, 0]) = s • ![cos (ω + θ), sin (ω + θ), 0] := by
  rw [rotZ_real, mulVec_smul, Pointing.rows_mulVec, cos_add, sin_add]
  congr 1
  funext i
  fin_cases i
  · simp [dotProduct, Fin.sum_univ_three]
    ring
  · simp [dotProduct, Fin.sum_univ_three]
  · simp [dotProduct, Fin.sum_univ_three]

/-- … and of a transverse one. -/
theorem rotZ_mulVec_transverse (ω θ s : ℝ) :
    rotZ ω *ᵥ (s • ![-sin θ, cos θ, 0]) = s • ![-sin (ω + θ), cos (ω + θ), 0] := by
  rw [rotZ_real, mulVec_smul, Pointing.rows_mulVec, cos_add, sin_add]
  congr 1
  funext i
  fin_cases i
  · simp [dotProduct, Fin.sum_univ_three]
  · simp [dotProduct, Fin.sum_univ_three]
    ring
  · simp [dotProduct, Fin.sum_univ_three]

/-- A circular orbit from elements is the circular orbit of altitude `a - R` whose argument of
latitude is the argument of perigee plus the true anomaly. -/
theorem ofElements_circular {a : ℝ} (ha : a ≠ 0) (inclination raan argPerigee trueAnomaly mu : ℝ) :
    ofElements a 0 inclination raan argPerigee trueAnomaly mu =
      circular (a - 6378137) inclination raan (argPerigee + trueAnomaly) mu := by
  have hp : a * (1 - (0 : ℝ) ^ 2) ≠ 0 := by simpa using ha
  have hr : (6378137 : ℝ) + (a - 6378137) ≠ 0 := by simpa using ha
  rw [ofElements_real hp, circular_real hr]
  simp only [ne_eq, OfNat.ofNat_ne_zero, not_false_eq_true, zero_pow, sub_zero, mul_one, zero_mul,
    add_zero, div_one, zero_add, add_sub_cancel, ← mulVec_mulVec, rotZ_mulVec_radial,
    rotZ_mulVec_transverse, add_mul]

theorem radial_dotProduct_self (s θ : ℝ) :
    (s • ![cos θ, sin θ, 0]) ⬝ᵥ (s • ![cos θ, sin θ, 0]) = s ^ 2 := by
  simp [dotProduct, Fin.sum_univ_three]
  linear_combination s ^ 2 * cos_sq_add_sin_sq θ

theorem transverse_dotProduct_self (s e θ : ℝ) :
    (s • ![-sin θ, e + cos θ, 0]) ⬝ᵥ (s • ![-sin θ, e + cos θ, 0]) =
      s ^ 2 * (1 + 2 * e * cos θ + e ^ 2) := by
  simp [dotProduct, Fin.sum_univ_three]
  linear_combination s ^ 2 * sin_sq_add_cos_sq θ

theorem radial_dotProduct_transverse (s w θ : ℝ) :
    (s • ![cos θ, sin θ, 0]) ⬝ᵥ (w • ![-sin θ, cos θ, 0]) = 0 := by
  simp [dotProduct, Fin.sum_univ_three]
  ring

theorem radial_cross_transverse (s w e θ : ℝ) :
    (s • ![cos θ, sin θ, 0]) ⨯₃ (w • ![-sin θ, e + cos θ, 0]) =
      (s * w * (1 + e * cos θ)) • ![0, 0, 1] := by
  rw [cross_apply]
  ext i
  fin_cases i
  · simp
  · simp
  · simp
    linear_combination s * w * sin_sq_add_cos_sq θ

/-- The rotations of an orbit take the normal of the orbit plane to
`(sin i sin Ω, -sin i cos Ω, cos i)`; the perigee rotation keeps it. -/
theorem orbitNormal (raan inclination argPerigee : ℝ) :
    (rotZ raan * rotX inclination * rotZ argPerigee) *ᵥ ![0, 0, 1] =
      ![sin inclination * sin raan, -(sin inclination * cos raan), cos inclination] := by
  rw [← mulVec_mulVec, ← mulVec_mulVec, rotZ_real argPerigee, Pointing.rows_mulVec, rotX_real,
    Pointing.rows_mulVec, rotZ_real, Pointing.rows_mulVec]
  ext i
  fin_cases i <;> simp [dotProduct, Fin.sum_univ_three] <;> ring

section Conic

variable {M : Matrix (Fin 3) (Fin 3) ℝ} {p e ν mu : ℝ}

/-- A rotated radial vector of length `ρ ≥ 0` is at distance `ρ`. -/
theorem sqrt_radial (hM : M ∈ orthogonalGroup (Fin 3) ℝ) {ρ : ℝ} (hρ : 0 ≤ ρ) (θ : ℝ) :
    √((M *ᵥ (ρ • ![cos θ, sin θ, 0])) ⬝ᵥ (M *ᵥ (ρ • ![cos θ, sin θ, 0]))) = ρ := by
  rw [dotProduct_mulVec_mulVec hM, radial_dotProduct_self, Real.sqrt_sq hρ]

/-- The energy of a point of a conic of semi-latus rectum `p` with the velocity of the conic:
`v²/2 - μ/r = (μ/p)(1 + 2e cos ν + e²)/2 - (μ/p)(1 + e cos ν)`. -/
theorem energy_conic (hM : M ∈ orthogonalGroup (Fin 3) ℝ) (hp : 0 < p) (hd : 0 < 1 + e * cos ν)
    (hmu : 0 ≤ mu) :
    energy (M *ᵥ ((p / (1 + e * cos ν)) • ![cos ν, sin ν, 0]))
        (M *ᵥ (√(mu / p) • ![-sin ν, e + cos ν, 0])) mu = .ok (mu / p * (e ^ 2 - 1) / 2) := by
  have hv := transverse_dotProduct_self (√(mu / p)) e ν
  rw [Real.sq_sqrt (div_nonneg hmu hp.le)] at hv
  have hpow : Scalar.pow (√(mu / p * (1 + 2 * e * cos ν + e ^ 2))) 2.0 =
      mu / p * (1 + 2 * e * cos ν + e ^ 2) := by
    rw [Scalar.real_pow]
    norm_num
    have hnn : 0 ≤ 1 + 2 * e * cos ν + e ^ 2 := by
      nlinarith [sq_nonneg (e + cos ν), sq_nonneg (sin ν), sin_sq_add_cos_sq ν]
    exact Real.sq_sqrt (mul_nonneg (div_nonneg hmu hp.le) hnn)
  have hρ : 0 < p / (1 + e * cos ν) := div_pos hp hd
  simp only [energy, Pointing.dot_real, Scalar.real_sqrt]
  rw [sqrt_radial hM hρ.le, checkedDiv_real _ _ hρ.ne', dotProduct_mulVec_mulVec hM, hv, hpow]
  show Except.ok _ = Except.ok _
  congr 1
  field_simp
  ring

/-- The angular momentum of a point of a conic with the velocity of the conic is `√(μ p)` along
the rotated normal of its plane. -/
theorem cross_conic (hM : M ∈ specialOrthogonalGroup (Fin 3) ℝ) (hp : 0 < p)
    (hd : 0 < 1 + e * cos ν) (hmu : 0 ≤ mu) :
    (M *ᵥ ((p / (1 + e * cos ν)) • ![cos ν, sin ν, 0])) ⨯₃
        (M *ᵥ (√(mu / p) • ![-sin ν, e + cos ν, 0])) = √(mu * p) • (M *ᵥ ![0, 0, 1]) := by
  have hw : p / (1 + e * cos ν) * √(mu / p) * (1 + e * cos ν) = √(mu * p) :=
    calc p / (1 + e * cos ν) * √(mu / p) * (1 + e * cos ν)
        = √(mu / p) * √(p ^ 2) := by rw [Real.sqrt_sq hp.le]; field_simp
      _ = √(mu * p) := by
        rw [← Real.sqrt_mul (div_nonneg hmu hp.le)]
        congr 1
        field_simp
  rw [cross_mulVec hM, radial_cross_transverse, mulVec_smul, hw]

end Conic

/-- A circular orbit of positive radius has that radius, the circular speed and a velocity normal
to its position. -/
theorem circular_spec {altitude : ℝ} (h : 0 < 6378137 + altitude)
    (inclination raan argLatitude mu : ℝ) :
    ∃ r v, circular altitude inclination raan argLatitude mu = .ok (r, v) ∧
      √(r ⬝ᵥ r) = 6378137 + altitude ∧ √(v ⬝ᵥ v) = √(mu / √(r ⬝ᵥ r)) ∧ r ⬝ᵥ v = 0 := by
  have hm := orthogonal_of_mem (rotation_mem (raan * (π / 180)) (inclination * (π / 180)))
  have hv := transverse_dotProduct_self (√(mu / (6378137 + altitude))) 0 (argLatitude * (π / 180))
  simp only [zero_add, mul_zero, zero_mul, add_zero, zero_pow two_ne_zero, mul_one] at hv
  refine ⟨_, _, circular_real h.ne' inclination raan argLatitude mu, sqrt_radial hm h.le _, ?_, ?_⟩
  · rw [sqrt_radial hm h.le, dotProduct_mulVec_mulVec hm, hv, Real.sqrt_sq (Real.sqrt_nonneg _)]
  · rw [dotProduct_mulVec_mulVec hm, radial_dotProduct_transverse]

/-- A closed orbit has the radius of its conic at the true anomaly, the energy `-μ/(2a)` and the
angular momentum `√(μ a (1 - e²))` along the normal of its plane. -/
theorem ofElements_spec {a e mu : ℝ} (ha : 0 < a) (he₀ : 0 ≤ e) (he₁ : e < 1) (hmu : 0 < mu)
    (inclination raan argPerigee trueAnomaly : ℝ) :
    ∃ r v, ofElements a e inclination raan argPerigee trueAnomaly mu = .ok (r, v) ∧
      √(r ⬝ᵥ r) = a * (1 - e ^ 2) / (1 + e * cos (trueAnomaly * (π / 180))) ∧
      energy r v mu = .ok (-mu / (2 * a)) ∧
      r ⨯₃ v = √(mu * (a * (1 - e ^ 2))) •
        ![sin (inclination * (π / 180)) * sin (raan * (π / 180)),
          -(sin (inclination * (π / 180)) * cos (raan * (π / 180))), cos (inclination * (π / 180))] := by
  have he : 0 < 1 - e ^ 2 := by nlinarith
  have hp : 0 < a * (1 - e ^ 2) := mul_pos ha he
  have hd : 0 < 1 + e * cos (trueAnomaly * (π / 180)) := by
    nlinarith [neg_one_le_cos (trueAnomaly * (π / 180))]
  have hSO := mul_mem (rotation_mem (raan * (π / 180)) (inclination * (π / 180)))
    (rotZ_mem (argPerigee * (π / 180)))
  have hm := orthogonal_of_mem hSO
  have henergy : a * (1 - e ^ 2) ≠ 0 → mu / (a * (1 - e ^ 2)) * (e ^ 2 - 1) / 2 = -mu / (2 * a) := by
    intro _
    field_simp
    ring
  refine ⟨_, _, ofElements_real hp.ne' inclination raan argPerigee trueAnomaly mu,
    sqrt_radial hm (div_pos hp hd).le _, ?_, ?_⟩
  · rw [energy_conic hm hp hd hmu.le, henergy hp.ne']
  · rw [cross_conic hSO hp hd hmu.le, orbitNormal]

end Builders

end Kepler

/-! ### Below the centre of the Earth -/

namespace Binary64

open Float.Model UnpackedFloat

theorem view_sqrt (x : Float) :
    view x.sqrt = unpack .binary64 (pack .binary64 (UnpackedFloat.sqrt .binary64 (view x))) := by
  simp [view, Float.sqrt, Float.Model.sqrt, Float.Model.unpack, Float.Model.pack]

/-- A square root is NaN or at least zero: a negative operand gives NaN, a zero keeps its sign,
and a positive one rounds with a positive sign. -/
theorem sqrt_nonneg_or_isNaN (x : Float) : 0 ≤ x.sqrt ∨ x.sqrt.isNaN = true := by
  rw [isNaN_eq_true_iff]
  have h := view_sqrt x
  cases hx : view x with
  | notANumber => exact .inr (by rw [h, hx]; exact unpack_pack_nan)
  | infinity s =>
    cases s
    · exact .inr (by rw [h, hx]; exact unpack_pack_nan)
    · refine .inl (nonneg_of_sign (.inl ?_))
      rw [h, hx]
      show HasSign _ (unpack .binary64 (pack .binary64 (.infinity .positive)))
      rw [unpack_pack_infinity]
      rfl
  | zero s =>
    refine .inl (nonneg_of_sign ?_)
    rw [h, hx]
    show HasSign _ (unpack .binary64 (pack .binary64 (.zero s))) ∨
      unpack .binary64 (pack .binary64 (.zero s)) = .zero .negative
    rw [unpack_pack_zero]
    cases s
    · exact .inr rfl
    · exact .inl rfl
  | finite s m e hm =>
    cases s
    · exact .inr (by rw [h, hx]; exact unpack_pack_nan)
    · refine .inl (nonneg_of_sign (.inl ?_))
      rw [h, hx]
      exact hasSign_roundWithAccuracy _ _ _ _

end Binary64

open Binary64 in
/-- No length is negative: a length is a square root. -/
theorem Vec3.norm_ne_of_neg (v : Vec3) {c : Float} (hc : c < 0) : v.norm ≠ c := by
  intro h
  rcases sqrt_nonneg_or_isNaN (v.dot v) with h0 | hn
  · change 0 ≤ v.norm at h0
    rw [h] at h0
    exact not_lt_of_float_le h0 hc
  · change v.norm.isNaN = true at hn
    rw [h, isNaN_eq_true_iff] at hn
    exact ne_nan_of_lt_left hc hn

/-- An altitude of twice the Earth's radius below the surface still gives a circular orbit, on
the far side of the centre, whatever the angles and `μ`: its radius, a length, is not the
negative `R + altitude`. -/
theorem Orbit.circular_far_side (inclination raan argLatitude mu : Float) :
    ∃ r v, Orbit.circular (-12756274.0) inclination raan argLatitude mu = .ok (r, v) ∧
      r.norm ≠ earthRadius + -12756274.0 := by
  have hr : Scalar.isZero (earthRadius + -12756274.0 : Float) = false := by decide
  unfold Orbit.circular
  simp only [divOrFault, checkedDiv, hr, Bool.false_eq_true, if_false]
  exact ⟨_, _, rfl, Vec3.norm_ne_of_neg _ (by decide)⟩

/-- The equatorial orbit of altitude `-2R` with the Earth's `μ` has no radius `R + altitude`. -/
theorem Orbit.circular_below_centre :
    ∃ r v, Orbit.circular (-12756274.0) 0.0 0.0 0.0 muEarth = .ok (r, v) ∧
      r.norm ≠ earthRadius + -12756274.0 :=
  Orbit.circular_far_side 0.0 0.0 0.0 muEarth

/-! ### The builders -/

namespace Kepler

open Matrix Real

/-- The orbit builders. At `Float` the model's builders, energy and angular momentum are the
formulas above; in exact arithmetic a closed orbit (`a > 0`, `0 ≤ e < 1`, `μ > 0`) has the radius
of its conic, the energy `-μ/(2a)` and the angular momentum `√(μ a (1 - e²))` along
`(sin i sin Ω, -sin i cos Ω, cos i)`, with `e = 0` it is the circular orbit of altitude `a - R`
and argument of latitude `ω + ν`, and a circular orbit of positive radius `R + altitude` has that
radius, the circular speed and a velocity normal to its position. -/
theorem orbit_builders_exact :
    (∀ altitude inclination raan argLatitude mu : Float,
      (Orbit.circular altitude inclination raan argLatitude mu).map Vec3.pairToFun =
        circular altitude inclination raan argLatitude mu) ∧
    (∀ a e : Float, 0.0 < a → 0.0 ≤ e → e < 1.0 →
      ∀ inclination raan argPerigee trueAnomaly mu : Float,
        (Orbit.ofElements a e inclination raan argPerigee trueAnomaly mu).map Vec3.pairToFun =
          ofElements a e inclination raan argPerigee trueAnomaly mu) ∧
    (∀ (s : SatState) (mu : Float),
      s.orbitalEnergy mu = energy s.position.toFun s.velocity.toFun mu ∧
        s.orbitalMomentum.toFun = Euler.cross s.position.toFun s.velocity.toFun) ∧
    (∀ a e mu : ℝ, 0 < a → 0 ≤ e → e < 1 → 0 < mu →
      ∀ inclination raan argPerigee trueAnomaly : ℝ,
        ∃ r v, ofElements a e inclination raan argPerigee trueAnomaly mu = .ok (r, v) ∧
          √(r ⬝ᵥ r) = a * (1 - e ^ 2) / (1 + e * cos (trueAnomaly * (π / 180))) ∧
          energy r v mu = .ok (-mu / (2 * a)) ∧
          r ⨯₃ v = √(mu * (a * (1 - e ^ 2))) •
            ![sin (inclination * (π / 180)) * sin (raan * (π / 180)),
              -(sin (inclination * (π / 180)) * cos (raan * (π / 180))),
              cos (inclination * (π / 180))]) ∧
    (∀ a : ℝ, 0 < a → ∀ inclination raan argPerigee trueAnomaly mu : ℝ,
      ofElements a 0 inclination raan argPerigee trueAnomaly mu =
        circular (a - 6378137) inclination raan (argPerigee + trueAnomaly) mu) ∧
    (∀ altitude : ℝ, 0 < 6378137 + altitude → ∀ inclination raan argLatitude mu : ℝ,
      ∃ r v, circular altitude inclination raan argLatitude mu = .ok (r, v) ∧
        √(r ⬝ᵥ r) = 6378137 + altitude ∧ √(v ⬝ᵥ v) = √(mu / √(r ⬝ᵥ r)) ∧ r ⬝ᵥ v = 0) :=
  ⟨Orbit.circular_toFun, fun _ _ ha he₀ he₁ => Orbit.ofElements_toFun ha he₀ he₁,
    fun s mu => ⟨s.orbitalEnergy_eq mu, s.orbitalMomentum_toFun⟩,
    fun _ _ _ ha he₀ he₁ hmu => ofElements_spec ha he₀ he₁ hmu,
    fun _ ha => ofElements_circular ha.ne', fun _ h => circular_spec h⟩

/-- A circular orbit 500 km above the equator with `μ = 1`. -/
theorem low_orbit_circular :
    ∃ r v, circular (500000 : ℝ) 0 0 0 1 = .ok (r, v) ∧
      √(r ⬝ᵥ r) = 6378137 + 500000 ∧ √(v ⬝ᵥ v) = √(1 / √(r ⬝ᵥ r)) ∧ r ⬝ᵥ v = 0 :=
  orbit_builders_exact.2.2.2.2.2 500000 (by norm_num) 0 0 0 1

end Kepler

end Spacecraft
