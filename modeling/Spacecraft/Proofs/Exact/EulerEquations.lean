import Mathlib
import Spacecraft.Dynamics.Model
import Spacecraft.Proofs.Exact.Factorization

/-!
# Euler's equations in exact arithmetic

`Euler.angularAcceleration` is `RigidBody.angularAcceleration` over any ordered `Scalar`: the
principal-axis components when every entry off the diagonal is zero, the linear solve of
`I α = τ - ω × (I ω)` otherwise. At `Float` it is the model's spin rate
(`RigidBody.angularAcceleration_toFun`).

Over the real numbers both branches solve Euler's equations exactly for a positive definite
inertia, so they agree where both apply (`Euler.angularAcceleration_real`). The gyroscopic
term is orthogonal to the spin and to the angular momentum, so only the torque changes the
rotational kinetic energy `ω ⬝ I ω / 2` and the squared angular momentum `|I ω|²`; without
torque both are constant along every spin history whose rate is the model's.
-/

namespace Spacecraft

namespace Euler

section Formulas

variable {K : Type} [Scalar K] [LT K] [DecidableLT K]

/-- The cross product, each component a difference of two products. -/
def cross (a b : Fin 3 → K) : Fin 3 → K :=
  ![a 1 * b 2 - a 2 * b 1, a 2 * b 0 - a 0 * b 2, a 0 * b 1 - a 1 * b 0]

/-- One entry of a matrix-vector product: the middle term, the first and the last fused onto
it, then added to zero. -/
def rowTimes (r v : Fin 3 → K) : K :=
  0.0 + Scalar.fma (r 2) (v 2) (Scalar.fma (r 0) (v 0) (r 1 * v 1))

/-- The product `m v`. -/
def mulVec (m : Matrix (Fin 3) (Fin 3) K) (v : Fin 3 → K) : Fin 3 → K :=
  fun i => rowTimes (m i) v

/-- The gyroscopic torque `ω × (I ω)`. -/
def gyroscopic (inertia : Matrix (Fin 3) (Fin 3) K) (w : Fin 3 → K) : Fin 3 → K :=
  cross w (mulVec inertia w)

/-- Angular acceleration from Euler's equations with a general inertia tensor, the system
solved by `gesv`'s LU factorization with partial pivoting. -/
def general (w moment : Fin 3 → K) (inertia : Matrix (Fin 3) (Fin 3) K) : Outcome (Fin 3 → K) :=
  Elimination.solve inertia fun i => moment i - gyroscopic inertia w i

/-- Angular acceleration in principal axes; a zero principal moment is refused. -/
def principal (w moment d : Fin 3 → K) : Outcome (Fin 3 → K) := do
  let ax ← checkedDiv Fault.kernelDivision (moment 0 - (d 2 - d 1) * w 1 * w 2) (d 0)
  let ay ← checkedDiv Fault.kernelDivision (moment 1 - (d 0 - d 2) * w 2 * w 0) (d 1)
  let az ← checkedDiv Fault.kernelDivision (moment 2 - (d 1 - d 0) * w 0 * w 1) (d 2)
  pure ![ax, ay, az]

/-- Whether every entry off the diagonal is zero. -/
def isDiagonal (m : Matrix (Fin 3) (Fin 3) K) : Bool :=
  Scalar.isZero (m 0 1) && Scalar.isZero (m 0 2) && Scalar.isZero (m 1 0) &&
    Scalar.isZero (m 1 2) && Scalar.isZero (m 2 0) && Scalar.isZero (m 2 1)

/-- Angular acceleration for a spin and a total torque. -/
def angularAcceleration (inertia : Matrix (Fin 3) (Fin 3) K) (w torque : Fin 3 → K) :
    Outcome (Fin 3 → K) :=
  if isDiagonal inertia then principal w torque fun i => inertia i i
  else general w torque inertia

end Formulas

end Euler

namespace Vec3

@[simp] theorem toFun_zero (v : Vec3) : v.toFun 0 = v.x := rfl

@[simp] theorem toFun_one (v : Vec3) : v.toFun 1 = v.y := rfl

@[simp] theorem toFun_two (v : Vec3) : v.toFun 2 = v.z := rfl

theorem toFun_sub (a b : Vec3) : (a - b).toFun = fun i => a.toFun i - b.toFun i := by
  funext i
  fin_cases i <;> rfl

theorem toFun_cross (a b : Vec3) : (a.cross b).toFun = Euler.cross a.toFun b.toFun := by
  funext i
  fin_cases i <;> rfl

end Vec3

theorem Mat3.toFun_mulVec (m : Mat3) (v : Vec3) :
    (m.mulVec v).toFun = Euler.mulVec m.toMatrix v.toFun := by
  funext i
  fin_cases i <;> rfl

namespace RigidBody

theorem gyroscopic_toFun (inertia : Mat3) (w : Vec3) :
    (gyroscopic inertia w).toFun = Euler.gyroscopic inertia.toMatrix w.toFun := by
  rw [gyroscopic, Vec3.toFun_cross, Mat3.toFun_mulVec]
  rfl

theorem eulerPrincipal_toFun (w moment principal : Vec3) :
    (eulerPrincipal w moment principal).map Vec3.toFun =
      Euler.principal w.toFun moment.toFun principal.toFun := by
  unfold eulerPrincipal Euler.principal kernelDiv
  simp only [Vec3.toFun_zero, Vec3.toFun_one, Vec3.toFun_two]
  cases checkedDiv Fault.kernelDivision (moment.x - (principal.z - principal.y) * w.y * w.z)
    principal.x with
  | error f => rfl
  | ok ax =>
    cases checkedDiv Fault.kernelDivision (moment.y - (principal.x - principal.z) * w.z * w.x)
      principal.y with
    | error f => rfl
    | ok ay =>
      cases checkedDiv Fault.kernelDivision (moment.z - (principal.y - principal.x) * w.x * w.y)
        principal.z with
      | error f => rfl
      | ok az =>
        show Except.ok _ = Except.ok _
        congr 1
        funext i
        fin_cases i <;> rfl

/-- The model's spin rate is Euler's equations at `Float`. -/
theorem angularAcceleration_toFun (inertia : Mat3) (w torque : Vec3) :
    (angularAcceleration inertia w torque).map Vec3.toFun =
      Euler.angularAcceleration inertia.toMatrix w.toFun torque.toFun := by
  have hdiag : inertia.isDiagonal = Euler.isDiagonal inertia.toMatrix := rfl
  unfold angularAcceleration Euler.angularAcceleration
  rw [← hdiag]
  split
  · exact eulerPrincipal_toFun w torque inertia.diagonal
  · rw [eulerGeneral, Linear.solve_toFun, Vec3.toFun_sub, gyroscopic_toFun]
    rfl

end RigidBody

/-- The spin rate the state derivative carries is the model's angular acceleration under the
total torque. -/
theorem DynamicsModel.rateOf_angularVelocity (s : SatState) (forces torques : List Contribution) :
    (DynamicsModel.rateOf s forces torques).map (·.angularVelocity) =
      RigidBody.angularAcceleration s.inertia s.angularVelocity (Contribution.total torques) := by
  unfold DynamicsModel.rateOf
  cases RigidBody.angularAcceleration s.inertia s.angularVelocity (Contribution.total torques) <;>
    rfl

namespace Euler

open Matrix

section Real

variable {I : Matrix (Fin 3) (Fin 3) ℝ}

theorem cross_real (a b : Fin 3 → ℝ) : cross a b = a ⨯₃ b := by
  simp only [cross, Scalar.real_mul, Scalar.real_sub, cross_apply]

theorem mulVec_real (m : Matrix (Fin 3) (Fin 3) ℝ) (v : Fin 3 → ℝ) : mulVec m v = m *ᵥ v := by
  have h0 : (0.0 : ℝ) = 0 := by norm_num
  funext i
  simp only [mulVec, rowTimes, Scalar.real_fma, Scalar.real_add, Scalar.real_mul, h0,
    Matrix.mulVec, dotProduct, Fin.sum_univ_three]
  ring

theorem gyroscopic_real (w : Fin 3 → ℝ) : gyroscopic I w = w ⨯₃ (I *ᵥ w) := by
  rw [gyroscopic, mulVec_real, cross_real]

theorem eq_inv_mulVec {M : Matrix (Fin 3) (Fin 3) ℝ} (hM : M.det ≠ 0) {x y : Fin 3 → ℝ}
    (h : M *ᵥ x = y) : x = M⁻¹ *ᵥ y := by
  rw [← h, mulVec_mulVec, nonsing_inv_mul M (isUnit_iff_ne_zero.mpr hM), one_mulVec]

/-- The general branch solves Euler's equations for every nonsingular inertia. -/
theorem general_real (hI : I.det ≠ 0) (w τ : Fin 3 → ℝ) :
    general w τ I = .ok (I⁻¹ *ᵥ (τ - w ⨯₃ (I *ᵥ w))) := by
  rw [general, Elimination.solve_eq, if_neg hI, ← gyroscopic_real]
  rfl

/-- The principal-axis branch solves Euler's equations for every diagonal inertia with no zero
principal moment. -/
theorem principal_real (d : Fin 3 → ℝ) (hd : ∀ i, d i ≠ 0) (w τ : Fin 3 → ℝ) :
    principal w τ d = .ok ((diagonal d)⁻¹ *ᵥ (τ - w ⨯₃ (diagonal d *ᵥ w))) := by
  have h0 := hd 0
  have h1 := hd 1
  have h2 := hd 2
  simp only [principal, checkedDiv, Scalar.real_isZero, Scalar.real_sub, Scalar.real_mul,
    h0, h1, h2, decide_false, Bool.false_eq_true, if_false]
  show Except.ok _ = Except.ok _
  congr 1
  refine eq_inv_mulVec (by simp [det_diagonal, Fin.prod_univ_three, h0, h1, h2]) ?_
  funext i
  fin_cases i <;> simp [mulVec_diagonal, cross_apply] <;> field_simp

theorem isDiagonal_real (m : Matrix (Fin 3) (Fin 3) ℝ) (h : isDiagonal m = true) :
    m = diagonal fun i => m i i := by
  simp only [isDiagonal, Scalar.real_isZero, Bool.and_eq_true, decide_eq_true_eq] at h
  obtain ⟨⟨⟨⟨⟨h01, h02⟩, h10⟩, h12⟩, h20⟩, h21⟩ := h
  ext i j
  fin_cases i <;> fin_cases j <;> simp [h01, h02, h10, h12, h20, h21]

/-- For a positive definite inertia either branch solves Euler's equations, so the two agree
wherever both apply. -/
theorem angularAcceleration_real (hI : I.PosDef) (w τ : Fin 3 → ℝ) :
    angularAcceleration I w τ = .ok (I⁻¹ *ᵥ (τ - w ⨯₃ (I *ᵥ w))) := by
  unfold angularAcceleration
  split
  · rename_i hdiag
    have hI' := isDiagonal_real I hdiag
    rw [principal_real _ fun i => hI.diag_pos.ne', ← hI']
  · exact general_real (hI.isUnit.map detMonoidHom).ne_zero w τ

theorem mulVec_inv_mulVec (hI : I.PosDef) (v : Fin 3 → ℝ) : I *ᵥ (I⁻¹ *ᵥ v) = v := by
  rw [mulVec_mulVec, mul_nonsing_inv I ((isUnit_iff_isUnit_det I).mp hI.isUnit), one_mulVec]

/-- The spin rate satisfies Euler's equations: the inertia times the rate is the torque less
the gyroscopic torque. -/
theorem inertia_mulVec_rate (hI : I.PosDef) {w τ α : Fin 3 → ℝ}
    (h : angularAcceleration I w τ = .ok α) : I *ᵥ α = τ - w ⨯₃ (I *ᵥ w) := by
  rw [angularAcceleration_real hI, Except.ok.injEq] at h
  rw [← h, mulVec_inv_mulVec hI]

/-- Only the torque does work on the spin and turns the angular momentum: the gyroscopic
torque is orthogonal to both. -/
theorem rate_dotProduct (hI : I.PosDef) {w τ α : Fin 3 → ℝ}
    (h : angularAcceleration I w τ = .ok α) :
    w ⬝ᵥ (I *ᵥ α) = w ⬝ᵥ τ ∧ (I *ᵥ w) ⬝ᵥ (I *ᵥ α) = (I *ᵥ w) ⬝ᵥ τ := by
  rw [inertia_mulVec_rate hI h, dotProduct_sub, dotProduct_sub, dot_self_cross, dot_cross_self,
    sub_zero, sub_zero]
  exact ⟨rfl, rfl⟩

theorem hasDerivAt_mulVec (M : Matrix (Fin 3) (Fin 3) ℝ) {w : ℝ → Fin 3 → ℝ}
    {w' : Fin 3 → ℝ} {t : ℝ} (hw : HasDerivAt w w' t) :
    HasDerivAt (fun s => M *ᵥ w s) (M *ᵥ w') t := by
  refine hasDerivAt_pi.mpr fun i => ?_
  simp only [Matrix.mulVec, dotProduct]
  exact HasDerivAt.fun_sum fun j _ => (hasDerivAt_pi.mp hw j).const_mul (M i j)

/-- Along a path, a symmetric quadratic form changes at twice the form of the point with the
velocity. -/
theorem hasDerivAt_quadratic {M : Matrix (Fin 3) (Fin 3) ℝ} (hM : M.IsSymm)
    {w : ℝ → Fin 3 → ℝ} {w' : Fin 3 → ℝ} {t : ℝ} (hw : HasDerivAt w w' t) :
    HasDerivAt (fun s => w s ⬝ᵥ (M *ᵥ w s)) (2 * (w t ⬝ᵥ (M *ᵥ w'))) t := by
  have hMw := hasDerivAt_pi.mp (hasDerivAt_mulVec M hw)
  have hsum := HasDerivAt.fun_sum fun i (_ : i ∈ Finset.univ) =>
    (hasDerivAt_pi.mp hw i).mul (hMw i)
  refine hsum.congr_deriv ?_
  have hsymm : w' ⬝ᵥ (M *ᵥ w t) = w t ⬝ᵥ (M *ᵥ w') := by
    rw [dotProduct_mulVec, ← mulVec_transpose, hM.eq, dotProduct_comm]
  rw [Finset.sum_add_distrib, two_mul]
  exact congrArg₂ (· + ·) hsymm rfl

/-- Without torque the rotational kinetic energy and the squared angular momentum are
constant along every spin history whose rate is the spin rate. -/
theorem torqueFree_conserved (hI : I.PosDef) {w : ℝ → Fin 3 → ℝ} {α : Fin 3 → ℝ} {t : ℝ}
    (hα : angularAcceleration I (w t) 0 = .ok α) (hw : HasDerivAt w α t) :
    HasDerivAt (fun s => w s ⬝ᵥ (I *ᵥ w s) / 2) 0 t ∧
      HasDerivAt (fun s => (I *ᵥ w s) ⬝ᵥ (I *ᵥ w s)) 0 t := by
  obtain ⟨hwork, hturn⟩ := rate_dotProduct hI hα
  rw [dotProduct_zero] at hwork hturn
  constructor
  · have hsymm : I.IsSymm := isHermitian_iff_isSymm.mp hI.isHermitian
    have h := (hasDerivAt_quadratic hsymm hw).div_const 2
    rwa [hwork, mul_zero, zero_div] at h
  · have h := hasDerivAt_quadratic (M := 1) (Matrix.isSymm_one) (hasDerivAt_mulVec I hw)
    simp only [one_mulVec] at h
    rwa [hturn, mul_zero] at h

end Real

/-- Euler's equations hold on both branches of the spin rate. The spin rate of the state
derivative is `angularAcceleration` at `Float`. Over the reals, for every positive definite
inertia, the inertia times the rate is the torque less the gyroscopic torque; on a diagonal
inertia the principal-axis branch gives the general branch's answer; the gyroscopic torque
changes neither the rotational kinetic energy nor the angular momentum; and without torque
both are constant along every spin history whose rate is the spin rate. -/
theorem euler_equations_hold :
    (∀ (s : SatState) (forces torques : List Contribution),
      (DynamicsModel.rateOf s forces torques).map (fun r => r.angularVelocity.toFun) =
        angularAcceleration s.inertia.toMatrix s.angularVelocity.toFun
          (Contribution.total torques).toFun) ∧
    (∀ I : Matrix (Fin 3) (Fin 3) ℝ, I.PosDef → ∀ w τ : Fin 3 → ℝ,
      ∃ α, angularAcceleration I w τ = .ok α ∧ I *ᵥ α = τ - w ⨯₃ (I *ᵥ w)) ∧
    (∀ d : Fin 3 → ℝ, (∀ i, 0 < d i) → ∀ w τ : Fin 3 → ℝ,
      principal w τ d = general w τ (diagonal d)) ∧
    (∀ I : Matrix (Fin 3) (Fin 3) ℝ, I.PosDef → ∀ w τ α : Fin 3 → ℝ,
      angularAcceleration I w τ = .ok α →
        w ⬝ᵥ (I *ᵥ α) = w ⬝ᵥ τ ∧ (I *ᵥ w) ⬝ᵥ (I *ᵥ α) = (I *ᵥ w) ⬝ᵥ τ) ∧
    (∀ I : Matrix (Fin 3) (Fin 3) ℝ, I.PosDef → ∀ (w : ℝ → Fin 3 → ℝ) (α : Fin 3 → ℝ) (t : ℝ),
      angularAcceleration I (w t) 0 = .ok α → HasDerivAt w α t →
        HasDerivAt (fun s => w s ⬝ᵥ (I *ᵥ w s) / 2) 0 t ∧
          HasDerivAt (fun s => (I *ᵥ w s) ⬝ᵥ (I *ᵥ w s)) 0 t) := by
  refine ⟨fun s forces torques => ?_, fun I hI w τ => ?_, fun d hd w τ => ?_,
    fun I hI w τ α h => rate_dotProduct hI h, fun I hI w α t hα hw => torqueFree_conserved hI hα hw⟩
  · rw [← RigidBody.angularAcceleration_toFun, ← DynamicsModel.rateOf_angularVelocity]
    cases DynamicsModel.rateOf s forces torques <;> rfl
  · exact ⟨_, angularAcceleration_real hI w τ, mulVec_inv_mulVec hI _⟩
  · have hdet : (diagonal d).det ≠ 0 := by
      simp [det_diagonal, Fin.prod_univ_three, (hd 0).ne', (hd 1).ne', (hd 2).ne']
    rw [principal_real d (fun i => (hd i).ne'), general_real hdet]

/-- With unit inertia and a spin along the third axis the gyroscopic torque vanishes and the
rate is the torque. -/
theorem unit_inertia_rate :
    angularAcceleration (1 : Matrix (Fin 3) (Fin 3) ℝ) ![0, 0, 1] ![1, 0, 0] = .ok ![1, 0, 0] := by
  obtain ⟨α, hα, hrate⟩ := euler_equations_hold.2.1 1 PosDef.one ![0, 0, 1] ![1, 0, 0]
  rw [one_mulVec, one_mulVec, cross_self, sub_zero] at hrate
  rw [hα, hrate]

end Euler


namespace RigidBody

/-- In binary64 Euler's equations hold only up to rounding. For the principal moments
`1, 1, 2`, the spin `(0, 0.1, 0.1)` and the torque `(0.1, 0, 0)` the first component of the
exact rate is `0.1 - 0.1 · 0.1`, which one fused multiply-add rounds to `0.09000000000000001`;
the model computes `0.09`. -/
theorem principal_rate_rounds :
    ((angularAcceleration (Mat3.diag ⟨1.0, 1.0, 2.0⟩) ⟨0.0, 0.1, 0.1⟩ ⟨0.1, 0.0, 0.0⟩).toOption.map
      (·.x) == some 0.09) = true ∧
    (Binary64.fma (-0.1) 0.1 0.1 == 0.09000000000000001) = true ∧
    ((0.09 : Float) == 0.09000000000000001) = false := by
  refine ⟨?_, ?_, ?_⟩
  · decide +kernel
  · decide +kernel
  · decide +kernel

end RigidBody

end Spacecraft
