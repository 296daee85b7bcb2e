import Mathlib
import Spacecraft.Attitude.Quaternion
import Spacecraft.Proofs.Exact.Reading

/-!
# Quaternions and direction cosine matrices in exact arithmetic

The attitude formulas of `Quat` over any ordered `Scalar`: normalization, the Hamilton
product, the direction cosine matrix and Shepperd's method. At `Float` they are the binary64
definitions (`Quat.normalize_toFun`, `Quat.toDcm_toMatrix`, `Quat.ofDcm_toFun`,
`Quat.mul_toFun`).

Over the real numbers a quaternion `q` of length at least `1e-12` has the rotation
`dcm(q / |q|)`, which is orthogonal with determinant one; the matrix of a product is the
product of the matrices in the other order; Shepperd's method gives back `±q / |q|`, the sign
being that of `q₀`, or making the component of the selected branch positive when `q₀ = 0`; and
the matrix of the quaternion it finds for a proper rotation is that rotation.

Each identity goes through the *scaled* matrix `scaledDcm q`, the rotation of `q / |q|` times
`|q|²`, whose entries are quadratic forms in `q`: it is multiplicative, its transpose is its
inverse up to `|q|⁴`, and it agrees with the code's matrix on unit quaternions. The inverse
direction rests on four identities per branch of Shepperd's method, consequences of
`C Cᵀ = 1`, `Cᵀ C = 1` and `adj C = Cᵀ` for a proper rotation `C`.
-/

namespace Spacecraft

namespace Attitude

open Matrix

section Formulas

variable {K : Type} [Scalar K] [LT K] [DecidableLT K]

/-- The squared length of a quaternion, its squares accumulated by fused multiply-add from zero
in index order. -/
def normSq (q : Fin 4 → K) : K :=
  Scalar.fma (q 3) (q 3) (Scalar.fma (q 2) (q 2) (Scalar.fma (q 1) (q 1) (Scalar.fma (q 0) (q 0) 0.0)))

/-- A quaternion scaled to unit length; lengths below `1e-12` are refused. -/
def normalize (q : Fin 4 → K) : Outcome (Fin 4 → K) :=
  let n := Scalar.sqrt (normSq q)
  if n < 1e-12 then .error (.invalidArgument "Cannot normalize a zero-length quaternion")
  else .ok fun i => q i / n

/-- The Hamilton product `p ⊗ q`. -/
def mul (p q : Fin 4 → K) : Fin 4 → K :=
  ![p 0 * q 0 - p 1 * q 1 - p 2 * q 2 - p 3 * q 3,
    p 0 * q 1 + p 1 * q 0 + p 2 * q 3 - p 3 * q 2,
    p 0 * q 2 - p 1 * q 3 + p 2 * q 0 + p 3 * q 1,
    p 0 * q 3 + p 1 * q 2 - p 2 * q 1 + p 3 * q 0]

/-- The direction cosine matrix of a unit quaternion's components. -/
def dcmOfUnit (q : Fin 4 → K) : Matrix (Fin 3) (Fin 3) K :=
  !![1.0 - 2.0 * (q 2 * q 2 + q 3 * q 3), 2.0 * (q 1 * q 2 + q 0 * q 3),
      2.0 * (q 1 * q 3 - q 0 * q 2);
    2.0 * (q 1 * q 2 - q 0 * q 3), 1.0 - 2.0 * (q 1 * q 1 + q 3 * q 3),
      2.0 * (q 2 * q 3 + q 0 * q 1);
    2.0 * (q 1 * q 3 + q 0 * q 2), 2.0 * (q 2 * q 3 - q 0 * q 1),
      1.0 - 2.0 * (q 1 * q 1 + q 2 * q 2)]

/-- The direction cosine matrix of a quaternion, normalized first. -/
def toDcm (q : Fin 4 → K) : Outcome (Matrix (Fin 3) (Fin 3) K) := (normalize q).map dcmOfUnit

/-- The quaternion Shepperd's method reads off a matrix, before its sign is fixed: the branch
follows the trace and then the largest diagonal entry. -/
def shepperd (m : Matrix (Fin 3) (Fin 3) K) : Fin 4 → K :=
  let trace := m 0 0 + m 1 1 + m 2 2
  if trace > 0.0 then
    let s := 2.0 * Scalar.sqrt (trace + 1.0)
    ![0.25 * s, (m 1 2 - m 2 1) / s, (m 2 0 - m 0 2) / s, (m 0 1 - m 1 0) / s]
  else if m 0 0 > m 1 1 && m 0 0 > m 2 2 then
    let s := 2.0 * Scalar.sqrt (1.0 + m 0 0 - m 1 1 - m 2 2)
    ![(m 1 2 - m 2 1) / s, 0.25 * s, (m 0 1 + m 1 0) / s, (m 0 2 + m 2 0) / s]
  else if m 1 1 > m 2 2 then
    let s := 2.0 * Scalar.sqrt (1.0 + m 1 1 - m 0 0 - m 2 2)
    ![(m 2 0 - m 0 2) / s, (m 0 1 + m 1 0) / s, 0.25 * s, (m 1 2 + m 2 1) / s]
  else
    let s := 2.0 * Scalar.sqrt (1.0 + m 2 2 - m 0 0 - m 1 1)
    ![(m 0 1 - m 1 0) / s, (m 0 2 + m 2 0) / s, (m 1 2 + m 2 1) / s, 0.25 * s]

/-- The branch of Shepperd's method a matrix selects, as the index of the component it reads
off the square root. -/
def branch (m : Matrix (Fin 3) (Fin 3) K) : Fin 4 :=
  if m 0 0 + m 1 1 + m 2 2 > 0.0 then 0
  else if m 0 0 > m 1 1 && m 0 0 > m 2 2 then 1
  else if m 1 1 > m 2 2 then 2
  else 3

/-- The quaternion of a direction cosine matrix: Shepperd's method, the sign made to give a
non-negative scalar part, normalized. -/
def ofDcm (m : Matrix (Fin 3) (Fin 3) K) : Outcome (Fin 4 → K) :=
  let q := shepperd m
  normalize (if q 0 < 0.0 then fun i => -q i else q)

end Formulas

end Attitude

/-- The components of a quaternion, scalar part first. -/
def Quat.toFun (q : Quat) : Fin 4 → Float := ![q.w, q.x, q.y, q.z]

namespace Quat

theorem normalize_toFun (q : Quat) : q.normalize.map toFun = Attitude.normalize q.toFun := by
  have hn : normList q.toList = Scalar.sqrt (Attitude.normSq q.toFun) := rfl
  unfold normalize normalizeList Attitude.normalize
  dsimp only
  rw [hn]
  split
  · rfl
  · show Except.ok _ = Except.ok _
    congr 1
    funext i
    fin_cases i <;> rfl

theorem toDcm_eq_map (q : Quat) : q.toDcm = q.normalize.map dcmOfUnit := by
  unfold toDcm toDcmList normalize
  cases normalizeList q.toList with
  | error f => rfl
  | ok cs => cases ofList cs <;> rfl

theorem dcmOfUnit_toMatrix (q : Quat) : q.dcmOfUnit.toMatrix = Attitude.dcmOfUnit q.toFun := by
  ext i j
  fin_cases i <;> fin_cases j <;> rfl

theorem toDcm_toMatrix (q : Quat) : q.toDcm.map Mat3.toMatrix = Attitude.toDcm q.toFun := by
  rw [toDcm_eq_map, Attitude.toDcm, ← normalize_toFun]
  cases q.normalize with
  | error f => rfl
  | ok r => exact congrArg Except.ok (dcmOfUnit_toMatrix r)

theorem negate_toFun (q : Quat) : q.negate.toFun = fun i => -q.toFun i := by
  funext i
  fin_cases i <;> rfl

theorem ofDcm_toFun (m : Mat3) : (ofDcm m).map toFun = Attitude.ofDcm m.toMatrix := by
  unfold ofDcm Attitude.ofDcm Attitude.shepperd
  simp only [Mat3.toMatrix, Matrix.of_apply, Mat3.get, Mat3.row, Vec3.get, Fin.isValue,
    Fin.val_zero, Fin.val_one, Fin.val_two, Scalar.float_sqrt]
  -- both sides test the same conditions; the pairs of tests that disagree contradict
  split_ifs <;> simp only [Matrix.cons_val_zero] at * <;>
    first
    | contradiction
    | rw [normalize_toFun]
      congr 1 <;> funext i <;> fin_cases i <;> rfl

theorem mul_toFun (p q : Quat) : (p.mul q).toFun = Attitude.mul p.toFun q.toFun := by
  funext i
  fin_cases i <;> rfl

end Quat

namespace Attitude

open Matrix

section Real

variable (p q : Fin 4 → ℝ)

theorem normSq_real : normSq q = q ⬝ᵥ q := by
  norm_num [normSq, dotProduct, Fin.sum_univ_four]
  ring

theorem normalize_real : normalize q =
    if √(q ⬝ᵥ q) < 1e-12 then .error (.invalidArgument "Cannot normalize a zero-length quaternion")
    else .ok ((√(q ⬝ᵥ q))⁻¹ • q) := by
  simp only [normalize, Scalar.real_sqrt, normSq_real]
  split_ifs
  · rfl
  · congr 1
    funext i
    simp [div_eq_inv_mul]

/-- The rotation of `q / |q|` scaled by `|q|²`; its entries are quadratic forms in `q`. -/
noncomputable def scaledDcm : Matrix (Fin 3) (Fin 3) ℝ :=
  !![q 0 ^ 2 + q 1 ^ 2 - q 2 ^ 2 - q 3 ^ 2, 2 * (q 1 * q 2 + q 0 * q 3), 2 * (q 1 * q 3 - q 0 * q 2);
    2 * (q 1 * q 2 - q 0 * q 3), q 0 ^ 2 - q 1 ^ 2 + q 2 ^ 2 - q 3 ^ 2, 2 * (q 2 * q 3 + q 0 * q 1);
    2 * (q 1 * q 3 + q 0 * q 2), 2 * (q 2 * q 3 - q 0 * q 1), q 0 ^ 2 - q 1 ^ 2 - q 2 ^ 2 + q 3 ^ 2]

theorem dcmOfUnit_eq_scaledDcm {q : Fin 4 → ℝ} (hq : q ⬝ᵥ q = 1) : dcmOfUnit q = scaledDcm q := by
  simp only [dotProduct, Fin.sum_univ_four] at hq
  ext i j
  fin_cases i <;> fin_cases j <;> norm_num [dcmOfUnit, scaledDcm] <;> linear_combination -hq

theorem scaledDcm_smul (c : ℝ) : scaledDcm (c • q) = c ^ 2 • scaledDcm q := by
  ext i j
  fin_cases i <;> fin_cases j <;> simp [scaledDcm] <;> ring

theorem scaledDcm_mul : scaledDcm (mul p q) = scaledDcm q * scaledDcm p := by
  ext i j
  fin_cases i <;> fin_cases j <;> simp [scaledDcm, mul, Matrix.mul_apply, Fin.sum_univ_three] <;> ring

theorem transpose_scaledDcm_mul : (scaledDcm q)ᵀ * scaledDcm q = (q ⬝ᵥ q) ^ 2 • 1 := by
  ext i j
  fin_cases i <;> fin_cases j <;>
    simp [scaledDcm, Matrix.mul_apply, Fin.sum_univ_three, dotProduct, Fin.sum_univ_four] <;> ring

theorem det_scaledDcm : (scaledDcm q).det = (q ⬝ᵥ q) ^ 3 := by
  simp [scaledDcm, Matrix.det_fin_three, dotProduct, Fin.sum_univ_four]
  ring

theorem mul_dotProduct_mul : mul p q ⬝ᵥ mul p q = (p ⬝ᵥ p) * (q ⬝ᵥ q) := by
  simp [mul, dotProduct, Fin.sum_univ_four]
  ring

theorem mul_smul_smul (a b : ℝ) : mul (a • p) (b • q) = (a * b) • mul p q := by
  funext i
  fin_cases i <;> simp [mul] <;> ring

/-- The quaternion scaled to unit length, `q / |q|`. -/
noncomputable def unit : Fin 4 → ℝ := (√(q ⬝ᵥ q))⁻¹ • q

variable {p q}

theorem unit_dotProduct_unit (hq : 0 < √(q ⬝ᵥ q)) : unit q ⬝ᵥ unit q = 1 := by
  have h0 : 0 < q ⬝ᵥ q := Real.sqrt_pos.mp hq
  simp only [unit, smul_dotProduct, dotProduct_smul, smul_eq_mul]
  field_simp
  rw [Real.sq_sqrt h0.le]

/-- Normalizing a quaternion of length at least `1e-12` gives `q / |q|`. -/
theorem normalize_of_le (hq : 1e-12 ≤ √(q ⬝ᵥ q)) : normalize q = .ok (unit q) := by
  rw [normalize_real, if_neg (not_lt.mpr hq)]
  rfl

/-- A unit quaternion is its own normalization. -/
theorem normalize_of_unit (hq : q ⬝ᵥ q = 1) : normalize q = .ok q := by
  have hn : √(q ⬝ᵥ q) = 1 := by rw [hq, Real.sqrt_one]
  rw [normalize_of_le (by rw [hn]; norm_num), unit, hn, inv_one, one_smul]

theorem dcmOfUnit_mem (hq : q ⬝ᵥ q = 1) : dcmOfUnit q ∈ specialOrthogonalGroup (Fin 3) ℝ := by
  rw [dcmOfUnit_eq_scaledDcm hq, mem_specialOrthogonalGroup_iff, mem_orthogonalGroup_iff',
    transpose_scaledDcm_mul, det_scaledDcm, hq]
  norm_num

/-- The direction cosine matrix of a quaternion of length at least `1e-12` is the rotation of
`q / |q|`, proper and orthogonal. -/
theorem toDcm_of_le (hq : 1e-12 ≤ √(q ⬝ᵥ q)) :
    toDcm q = .ok (scaledDcm (unit q)) ∧ scaledDcm (unit q) ∈ specialOrthogonalGroup (Fin 3) ℝ := by
  have hu := unit_dotProduct_unit (lt_of_lt_of_le (by norm_num) hq)
  refine ⟨?_, dcmOfUnit_eq_scaledDcm hu ▸ dcmOfUnit_mem hu⟩
  rw [toDcm, normalize_of_le hq]
  exact congrArg Except.ok (dcmOfUnit_eq_scaledDcm hu)

theorem dotProduct_self_nonneg (v : Fin 4 → ℝ) : 0 ≤ v ⬝ᵥ v :=
  Finset.sum_nonneg fun i _ => mul_self_nonneg (v i)

/-- The unit quaternion of a product is the product of the unit quaternions. -/
theorem unit_mul : unit (mul p q) = mul (unit p) (unit q) := by
  rw [unit, unit, unit, mul_smul_smul, mul_dotProduct_mul,
    Real.sqrt_mul (dotProduct_self_nonneg p), mul_inv]

/-- The matrix of a product is the product of the matrices in the other order. -/
theorem toDcm_mul (hp : 1e-12 ≤ √(p ⬝ᵥ p)) (hq : 1e-12 ≤ √(q ⬝ᵥ q))
    (hpq : 1e-12 ≤ √(p ⬝ᵥ p) * √(q ⬝ᵥ q)) :
    ∃ Cp Cq, toDcm p = .ok Cp ∧ toDcm q = .ok Cq ∧ toDcm (mul p q) = .ok (Cq * Cp) := by
  have hpq' : 1e-12 ≤ √(mul p q ⬝ᵥ mul p q) := by
    rwa [mul_dotProduct_mul, Real.sqrt_mul (dotProduct_self_nonneg p)]
  refine ⟨_, _, (toDcm_of_le hp).1, (toDcm_of_le hq).1, ?_⟩
  rw [(toDcm_of_le hpq').1, unit_mul, scaledDcm_mul]

/-- A unit quaternion's matrix is its scaled one. -/
theorem toDcm_of_unit (hq : q ⬝ᵥ q = 1) : toDcm q = .ok (scaledDcm q) := by
  rw [toDcm, normalize_of_unit hq]
  exact congrArg Except.ok (dcmOfUnit_eq_scaledDcm hq)

theorem unit_pos_iff (hq : 0 < √(q ⬝ᵥ q)) (i : Fin 4) : 0 < unit q i ↔ 0 < q i := by
  rw [unit, Pi.smul_apply]
  exact smul_pos_iff_of_pos_left (inv_pos.mpr hq)

theorem unit_neg_iff (hq : 0 < √(q ⬝ᵥ q)) (i : Fin 4) : unit q i < 0 ↔ q i < 0 := by
  rw [unit, Pi.smul_apply]
  exact smul_neg_iff_of_pos_left (inv_pos.mpr hq)

/-! ### Shepperd's method over the reals -/

/-- The vector the branch `k` of Shepperd's method divides by twice the square root of its
own component `k`. -/
def branchVector (m : Matrix (Fin 3) (Fin 3) ℝ) : Fin 4 → Fin 4 → ℝ
  | 0 => ![m 0 0 + m 1 1 + m 2 2 + 1, m 1 2 - m 2 1, m 2 0 - m 0 2, m 0 1 - m 1 0]
  | 1 => ![m 1 2 - m 2 1, 1 + m 0 0 - m 1 1 - m 2 2, m 0 1 + m 1 0, m 0 2 + m 2 0]
  | 2 => ![m 2 0 - m 0 2, m 0 1 + m 1 0, 1 + m 1 1 - m 0 0 - m 2 2, m 1 2 + m 2 1]
  | 3 => ![m 0 1 - m 1 0, m 0 2 + m 2 0, m 1 2 + m 2 1, 1 + m 2 2 - m 0 0 - m 1 1]

/-- The quantity under the square root of the selected branch is at least one: the four
quantities add up to four, the trace's is at most one off the first branch, and each later
branch is taken only when its own is the largest. -/
theorem one_le_branchVector (m : Matrix (Fin 3) (Fin 3) ℝ) :
    1 ≤ branchVector m (branch m) (branch m) := by
  unfold branch
  split_ifs with h0 h1 h2
  · norm_num at h0
    simp [branchVector]
    linarith
  · norm_num at h0 h1
    simp [branchVector]
    linarith [h1.1, h1.2]
  · -- the first diagonal entry is not the largest, so the second is
    norm_num at h0 h1 h2
    have h : m 0 0 ≤ m 1 1 := by
      by_contra h
      linarith [h1 (lt_of_not_ge h)]
    simp [branchVector]
    linarith
  · -- neither of the first two diagonal entries is the largest, so the third is
    norm_num at h0 h1 h2
    have h : m 0 0 ≤ m 2 2 := by
      by_contra h
      linarith [h1 (by linarith)]
    simp [branchVector]
    linarith

/-- Over the reals, Shepperd's method divides the vector of the selected branch by twice the
square root of its own component. -/
theorem shepperd_real (m : Matrix (Fin 3) (Fin 3) ℝ) :
    shepperd m = (2 * √(branchVector m (branch m) (branch m)))⁻¹ • branchVector m (branch m) := by
  have hd := one_le_branchVector m
  have hsq := Real.mul_self_sqrt (zero_le_one.trans hd)
  have hs := Real.sqrt_pos.mpr (zero_lt_one.trans_le hd)
  unfold shepperd
  unfold branch at hd hsq hs ⊢
  dsimp only
  split_ifs at hd hsq hs ⊢ <;> ext i <;> fin_cases i <;>
    simp [branchVector, div_eq_inv_mul] at hd hsq hs ⊢ <;> norm_num
  all_goals
    field_simp
    linarith

/-- On the rotation of a unit quaternion `u`, the vector of each branch is `4 u_k u`. -/
theorem branchVector_scaledDcm {u : Fin 4 → ℝ} (hu : u ⬝ᵥ u = 1) (k : Fin 4) :
    branchVector (scaledDcm u) k = (4 * u k) • u := by
  simp only [dotProduct, Fin.sum_univ_four] at hu
  funext i
  fin_cases k <;> fin_cases i <;> simp [branchVector, scaledDcm] <;> grind

/-- Shepperd's method reads a unit quaternion off its rotation up to sign, the sign that makes
the component of the selected branch positive. -/
theorem shepperd_scaledDcm {u : Fin 4 → ℝ} (hu : u ⬝ᵥ u = 1) :
    shepperd (scaledDcm u) = if 0 < u (branch (scaledDcm u)) then u else -u := by
  have hk := one_le_branchVector (scaledDcm u)
  rw [shepperd_real, branchVector_scaledDcm hu]
  rw [branchVector_scaledDcm hu] at hk
  simp only [Pi.smul_apply, smul_eq_mul, smul_smul] at hk ⊢
  set x := u (branch (scaledDcm u))
  have hs : √(4 * x * x) = 2 * |x| := by
    rw [show 4 * x * x = (2 * x) * (2 * x) by ring, Real.sqrt_mul_self_eq_abs, abs_mul, abs_two]
  rw [hs]
  split_ifs with h
  · have hc : (2 * (2 * |x|))⁻¹ * (4 * x) = 1 := by
      rw [abs_of_pos h]
      field_simp
      ring
    rw [hc, one_smul]
  · -- the component is not zero, as its square is at least a quarter
    have hx : x ≠ 0 := by
      intro h0
      rw [h0] at hk
      norm_num at hk
    have hneg : x < 0 := lt_of_le_of_ne (not_lt.mp h) hx
    have hc : (2 * (2 * |x|))⁻¹ * (4 * x) = -1 := by
      rw [abs_of_neg hneg]
      field_simp
      ring
    rw [hc, neg_one_smul]


theorem ofDcm_real (m : Matrix (Fin 3) (Fin 3) ℝ) :
    ofDcm m = normalize (if shepperd m 0 < 0 then -shepperd m else shepperd m) := by
  unfold ofDcm
  norm_num
  rfl

/-- Shepperd's method gives back a unit quaternion from its rotation: the quaternion itself when
its scalar part is positive, its negative when that part is negative, and when it is zero the one
of the two whose component of the selected branch is positive. -/
theorem ofDcm_scaledDcm {u : Fin 4 → ℝ} (hu : u ⬝ᵥ u = 1) :
    ofDcm (scaledDcm u) = .ok (if 0 < u 0 then u else if u 0 < 0 then -u
      else if 0 < u (branch (scaledDcm u)) then u else -u) := by
  have hneg : (-u) ⬝ᵥ (-u) = 1 := by simpa using hu
  rw [ofDcm_real, shepperd_scaledDcm hu]
  -- the sign fix undoes the branch's sign unless the scalar part is zero
  rcases lt_trichotomy (u 0) 0 with h0 | h0 | h0
  · by_cases hk : 0 < u (branch (scaledDcm u)) <;>
      simp [h0, lt_asymm h0, hk, normalize_of_unit hneg]
  · by_cases hk : 0 < u (branch (scaledDcm u)) <;>
      simp [h0, hk, normalize_of_unit hu, normalize_of_unit hneg]
  · by_cases hk : 0 < u (branch (scaledDcm u)) <;>
      simp [h0, lt_asymm h0, hk, normalize_of_unit hu]


/-! ### Proper rotations -/

/-- The polynomial relations among the entries of a proper rotation `C` that Shepperd's method
rests on: the rows and the columns are orthonormal, and each entry is its own cofactor, which
is `adj C = Cᵀ`. -/
structure RotationEntries (C : Matrix (Fin 3) (Fin 3) ℝ) : Prop where
  row00 : C 0 0 * C 0 0 + C 0 1 * C 0 1 + C 0 2 * C 0 2 = 1
  row01 : C 0 0 * C 1 0 + C 0 1 * C 1 1 + C 0 2 * C 1 2 = 0
  row02 : C 0 0 * C 2 0 + C 0 1 * C 2 1 + C 0 2 * C 2 2 = 0
  row11 : C 1 0 * C 1 0 + C 1 1 * C 1 1 + C 1 2 * C 1 2 = 1
  row12 : C 1 0 * C 2 0 + C 1 1 * C 2 1 + C 1 2 * C 2 2 = 0
  row22 : C 2 0 * C 2 0 + C 2 1 * C 2 1 + C 2 2 * C 2 2 = 1
  col00 : C 0 0 * C 0 0 + C 1 0 * C 1 0 + C 2 0 * C 2 0 = 1
  col01 : C 0 0 * C 0 1 + C 1 0 * C 1 1 + C 2 0 * C 2 1 = 0
  col02 : C 0 0 * C 0 2 + C 1 0 * C 1 2 + C 2 0 * C 2 2 = 0
  col11 : C 0 1 * C 0 1 + C 1 1 * C 1 1 + C 2 1 * C 2 1 = 1
  col12 : C 0 1 * C 0 2 + C 1 1 * C 1 2 + C 2 1 * C 2 2 = 0
  col22 : C 0 2 * C 0 2 + C 1 2 * C 1 2 + C 2 2 * C 2 2 = 1
  cof00 : C 1 1 * C 2 2 - C 1 2 * C 2 1 = C 0 0
  cof01 : -(C 0 1 * C 2 2) + C 0 2 * C 2 1 = C 1 0
  cof02 : C 0 1 * C 1 2 - C 0 2 * C 1 1 = C 2 0
  cof10 : -(C 1 0 * C 2 2) + C 1 2 * C 2 0 = C 0 1
  cof11 : C 0 0 * C 2 2 - C 0 2 * C 2 0 = C 1 1
  cof12 : -(C 0 0 * C 1 2) + C 0 2 * C 1 0 = C 2 1
  cof20 : C 1 0 * C 2 1 - C 1 1 * C 2 0 = C 0 2
  cof21 : -(C 0 0 * C 2 1) + C 0 1 * C 2 0 = C 1 2
  cof22 : C 0 0 * C 1 1 - C 0 1 * C 1 0 = C 2 2

theorem RotationEntries.of_mem {C : Matrix (Fin 3) (Fin 3) ℝ}
    (hC : C ∈ specialOrthogonalGroup (Fin 3) ℝ) : RotationEntries C := by
  obtain ⟨hO, hdet⟩ := mem_specialOrthogonalGroup_iff.mp hC
  have hrow := (mem_orthogonalGroup_iff (Fin 3) ℝ).mp hO
  have hcol := (mem_orthogonalGroup_iff' (Fin 3) ℝ).mp hO
  have hadj : adjugate C = Cᵀ :=
    calc adjugate C = (Cᵀ * C) * adjugate C := by rw [hcol, Matrix.one_mul]
      _ = Cᵀ * (C * adjugate C) := Matrix.mul_assoc _ _ _
      _ = Cᵀ := by rw [mul_adjugate, hdet, one_smul, Matrix.mul_one]
  have r := fun i j => congrFun (congrFun hrow i) j
  have c := fun i j => congrFun (congrFun hcol i) j
  have a := fun i j => congrFun (congrFun hadj i) j
  simp only [Matrix.mul_apply, Fin.sum_univ_three, Matrix.transpose_apply, Matrix.one_apply,
    Matrix.adjugate_fin_three] at r c a
  exact ⟨by simpa using r 0 0, by simpa using r 0 1, by simpa using r 0 2, by simpa using r 1 1,
    by simpa using r 1 2, by simpa using r 2 2, by simpa using c 0 0, by simpa using c 0 1,
    by simpa using c 0 2, by simpa using c 1 1, by simpa using c 1 2, by simpa using c 2 2,
    by simpa using a 0 0, by simpa using a 0 1, by simpa using a 0 2, by simpa using a 1 0,
    by simpa using a 1 1, by simpa using a 1 2, by simpa using a 2 0, by simpa using a 2 1,
    by simpa using a 2 2⟩

namespace RotationEntries

variable {C : Matrix (Fin 3) (Fin 3) ℝ}

/-- The squared length of each branch vector of a proper rotation is four times its own
component. -/
theorem branchVector_dotProduct (hR : RotationEntries C) (k : Fin 4) :
    branchVector C k ⬝ᵥ branchVector C k = 4 * branchVector C k k := by
  cases hR
  fin_cases k <;> simp [branchVector, dotProduct, Fin.sum_univ_four] <;> grind

/-- The scaled matrix of each branch vector of a proper rotation is the rotation, scaled by four
times the vector's own component. -/
theorem scaledDcm_branchVector (hR : RotationEntries C) (k : Fin 4) :
    scaledDcm (branchVector C k) = (4 * branchVector C k k) • C := by
  cases hR
  ext i j
  fin_cases k <;> fin_cases i <;> fin_cases j <;> simp [branchVector, scaledDcm] <;> grind

/-- A multiple `c • v` of a branch vector of a proper rotation with `4 c² v_k = 1` is a unit
quaternion whose scaled matrix is the rotation. -/
theorem unit_smul_branchVector (hR : RotationEntries C) {k : Fin 4} {c : ℝ}
    (hc : c ^ 2 * (4 * branchVector C k k) = 1) :
    (c • branchVector C k) ⬝ᵥ (c • branchVector C k) = 1 ∧ scaledDcm (c • branchVector C k) = C := by
  constructor
  · rw [smul_dotProduct, dotProduct_smul, hR.branchVector_dotProduct, smul_eq_mul, smul_eq_mul,
      ← mul_assoc, ← sq, hc]
  · rw [scaledDcm_smul, hR.scaledDcm_branchVector, smul_smul, hc, one_smul]

end RotationEntries

/-- For a proper rotation Shepperd's method finds a unit quaternion whose matrix is the
rotation: the selected branch divides its vector by `2√v_k`, so that `4 c² v_k = 1` whichever
sign the fix gives. -/
theorem ofDcm_of_mem {C : Matrix (Fin 3) (Fin 3) ℝ} (hC : C ∈ specialOrthogonalGroup (Fin 3) ℝ) :
    ∃ u, ofDcm C = .ok u ∧ u ⬝ᵥ u = 1 ∧ toDcm u = .ok C := by
  have hR := RotationEntries.of_mem hC
  have hd := one_le_branchVector C
  set v := branchVector C (branch C)
  set c := (2 * √(v (branch C)))⁻¹
  have hc : c ^ 2 * (4 * v (branch C)) = 1 := by
    rw [inv_pow, mul_pow, Real.sq_sqrt (by linarith)]
    field_simp
    norm_num
  obtain ⟨c', hc', hfix⟩ : ∃ c', c' ^ 2 = c ^ 2 ∧
      (if shepperd C 0 < 0 then -shepperd C else shepperd C) = c' • v := by
    rw [shepperd_real]
    split_ifs
    · exact ⟨-c, neg_sq c, (neg_smul c v).symm⟩
    · exact ⟨c, rfl, rfl⟩
  obtain ⟨hunit, hmat⟩ := hR.unit_smul_branchVector (hc' ▸ hc)
  refine ⟨c' • v, ?_, hunit, ?_⟩
  · rw [ofDcm_real, hfix, normalize_of_unit hunit]
  · rw [toDcm_of_unit hunit, hmat]

/-- The quaternion Shepperd's method reads off the matrix of a quaternion of length at least
`1e-12` is `q / |q|` when `q₀ > 0`, `-q / |q|` when `q₀ < 0`, and when `q₀ = 0` the one of the
two whose component of the selected branch is positive. -/
theorem toDcm_bind_ofDcm (hq : 1e-12 ≤ √(q ⬝ᵥ q)) :
    (toDcm q >>= ofDcm) = .ok (if 0 < q 0 then unit q else if q 0 < 0 then -unit q
      else if 0 < q (branch (scaledDcm (unit q))) then unit q else -unit q) := by
  have hpos : 0 < √(q ⬝ᵥ q) := lt_of_lt_of_le (by norm_num) hq
  rw [(toDcm_of_le hq).1]
  show ofDcm (scaledDcm (unit q)) = _
  rw [ofDcm_scaledDcm (unit_dotProduct_unit hpos)]
  simp only [unit_pos_iff hpos, unit_neg_iff hpos]

/-- Shepperd's method is a right inverse of the matrix of a quaternion on proper rotations. -/
theorem ofDcm_bind_toDcm {C : Matrix (Fin 3) (Fin 3) ℝ} (hC : C ∈ specialOrthogonalGroup (Fin 3) ℝ) :
    (ofDcm C >>= toDcm) = .ok C := by
  obtain ⟨u, hu, -, hC'⟩ := ofDcm_of_mem hC
  rw [hu]
  exact hC'

/-- Quaternions and direction cosine matrices in exact arithmetic. The matrix of a quaternion of
length at least `1e-12` is a proper rotation; the matrix of a product is the product of the
matrices in the other order; Shepperd's method reads `q / |q|` off the matrix of `q` when
`q₀ > 0`, `-q / |q|` when `q₀ < 0`, and when `q₀ = 0` the one of the two whose component of the
selected branch is positive; and the quaternion it finds for a proper rotation has that
rotation. -/
theorem quaternion_rotation_correspondence :
    (∀ q : Fin 4 → ℝ, 1e-12 ≤ √(q ⬝ᵥ q) →
      ∃ C, toDcm q = .ok C ∧ C ∈ specialOrthogonalGroup (Fin 3) ℝ) ∧
    (∀ p q : Fin 4 → ℝ, 1e-12 ≤ √(p ⬝ᵥ p) → 1e-12 ≤ √(q ⬝ᵥ q) →
      1e-12 ≤ √(p ⬝ᵥ p) * √(q ⬝ᵥ q) →
      ∃ Cp Cq, toDcm p = .ok Cp ∧ toDcm q = .ok Cq ∧ toDcm (mul p q) = .ok (Cq * Cp)) ∧
    (∀ q : Fin 4 → ℝ, 1e-12 ≤ √(q ⬝ᵥ q) →
      (toDcm q >>= ofDcm) = .ok (if 0 < q 0 then unit q else if q 0 < 0 then -unit q
        else if 0 < q (branch (scaledDcm (unit q))) then unit q else -unit q)) ∧
    (∀ C ∈ specialOrthogonalGroup (Fin 3) ℝ, (ofDcm C >>= toDcm) = .ok C) :=
  ⟨fun _ hq => ⟨_, toDcm_of_le hq⟩, fun _ _ => toDcm_mul, fun _ => toDcm_bind_ofDcm,
    fun _ => ofDcm_bind_toDcm⟩

/-- The identity quaternion and the identity matrix go back and forth. -/
theorem identity_round_trips :
    (toDcm (![1, 0, 0, 0] : Fin 4 → ℝ) >>= ofDcm) = .ok ![1, 0, 0, 0] ∧
    (ofDcm (1 : Matrix (Fin 3) (Fin 3) ℝ) >>= toDcm) = .ok 1 := by
  have hq : (![1, 0, 0, 0] : Fin 4 → ℝ) ⬝ᵥ ![1, 0, 0, 0] = 1 := by
    simp [dotProduct, Fin.sum_univ_four]
  have hu : unit (![1, 0, 0, 0] : Fin 4 → ℝ) = ![1, 0, 0, 0] := by
    rw [unit, hq, Real.sqrt_one, inv_one, one_smul]
  obtain ⟨-, -, hround, hinv⟩ := quaternion_rotation_correspondence
  refine ⟨?_, hinv 1 (one_mem _)⟩
  rw [hround _ (by rw [hq, Real.sqrt_one]; norm_num), hu]
  simp

end Real

end Attitude

namespace Quat

/-- In binary64 the round trip misses `q / |q|`: for `q = (3, 4, 0, 0)` normalizing gives
`(0.6, 0.8, 0, 0)`, but Shepperd's method reads `(0.5999999999999999, 0.8000000000000002, 0, 0)`
off the rounded matrix. -/
theorem round_trip_rounds :
    ((Quat.mk 3.0 4.0 0.0 0.0).normalize.toOption.map Quat.toList ==
      some [0.6, 0.8, 0.0, 0.0]) = true ∧
    (((Quat.mk 3.0 4.0 0.0 0.0).toDcm >>= Quat.ofDcm).toOption.map Quat.toList ==
      some [0.5999999999999999, 0.8000000000000002, 0.0, 0.0]) = true := by
  constructor
  · decide +kernel
  · decide +kernel

end Quat

end Spacecraft
