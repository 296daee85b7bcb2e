import Mathlib
import Spacecraft.Proofs.Exact.Pointing
import Spacecraft.Proofs.Exact.Motion

/-!
# Quaternion feedback is a Lyapunov controller

The attitude controller commands `τ = -k_p e - k_d (ω - ω_ref) - k_i ∫e`, with `e` the vector
part of the error quaternion `target* ⊗ current`, negated when its scalar part is negative
(`Policy.torque_pd`). The attitude moves at `½ q ⊗ [0, ω]` and the spin by Euler's equations.

Over the real numbers, with no integral gain, a constant target and no reference rate, the
function `V = ½ ωᵀ I ω + 2 k_p (1 - |p ⬝ q|)` changes at exactly `-k_d |ω|²` wherever the scalar
part `p ⬝ q` of the error is not zero. The scalar part of the error changes at
`-½ e⃗ ⬝ ω` before the sign fix (`dotProduct_rate`), so after the sign fix `|p ⬝ q|` changes at
`-½ e ⬝ ω`, and the work `-k_p e ⬝ ω` of the proportional term on the spin is exactly given back
by the attitude term of `V`; only the damping term remains.
-/

namespace Spacecraft

namespace Attitude

section Formulas

variable {K : Type} [Scalar K] [LT K] [DecidableLT K]

/-- The conjugate `[q₀, -q₁, -q₂, -q₃]`. -/
def conj (q : Fin 4 → K) : Fin 4 → K := ![q 0, -q 1, -q 2, -q 3]

/-- The error quaternion `target* ⊗ current`, negated when its scalar part is negative. -/
def error (current target : Fin 4 → K) : Fin 4 → K :=
  let e := mul (conj target) current
  if e 0 < 0.0 then fun i => -e i else e

/-- The vector part. -/
def vec (q : Fin 4 → K) : Fin 3 → K := ![q 1, q 2, q 3]

/-- The attitude rate `½ q ⊗ [0, ω]`, written out. -/
def rate (q : Fin 4 → K) (w : Fin 3 → K) : Fin 4 → K :=
  ![0.5 * (-w 0 * q 1 - w 1 * q 2 - w 2 * q 3),
    0.5 * (w 0 * q 0 + w 2 * q 2 - w 1 * q 3),
    0.5 * (w 1 * q 0 - w 2 * q 1 + w 0 * q 3),
    0.5 * (w 2 * q 0 + w 1 * q 1 - w 0 * q 2)]

end Formulas

end Attitude

namespace Feedback

variable {K : Type} [Scalar K]

/-- The feedback torque `-k_p e - k_d (ω - ω_ref) - k_i ∫e` before saturation. -/
def torque (kp kd ki : K) (e w rates integral : Fin 3 → K) : Fin 3 → K :=
  fun i => -kp * e i - kd * (w i - rates i) - ki * integral i

end Feedback

namespace Quat

theorem conj_toFun (q : Quat) : q.conj.toFun = Attitude.conj q.toFun := by
  funext i
  fin_cases i <;> rfl

theorem vec_toFun (q : Quat) : q.vec.toFun = Attitude.vec q.toFun := by
  funext i
  fin_cases i <;> rfl

/-- The model's error quaternion is `Attitude.error` at `Float`. -/
theorem error_toFun (current target : Quat) :
    (error current target).toFun = Attitude.error current.toFun target.toFun := by
  rw [error, Attitude.error, ← conj_toFun, ← mul_toFun]
  show _ = if (mul target.conj current).w < 0.0 then _ else _
  split <;> simp only [negate_toFun]

end Quat

/-- The model's attitude rate is `Attitude.rate` at `Float`. -/
theorem RigidBody.quaternionRate_toFun (q : Quat) (w : Vec3) :
    (RigidBody.quaternionRate q w).toFun = Attitude.rate q.toFun w.toFun := by
  funext i
  fin_cases i <;> rfl

/-- Without a torque limit the attitude controller's torque is `Feedback.torque` of the error
from the commanded attitude (the identity without a command), at `Float`. -/
theorem Policy.torque_pd (g : PdGains) (hm : g.maxTorque = none) (t : Float) (s : SatState)
    (b : Body) (c : Option Command) (integral : Vec3) :
    Policy.torque (.pd g) t s b c integral =
      (fun target => List.ofFn (Feedback.torque g.kp g.kd g.ki
        (Attitude.vec (Attitude.error s.quaternion.toFun target.toFun)) s.angularVelocity.toFun
        (c.elim Vec3.zero Command.rates).toFun integral.toFun)) <$>
        c.elim (pure Quat.identity) Command.target := by
  simp only [← Quat.error_toFun, ← Quat.vec_toFun]
  cases c with
  | none =>
    simp only [Policy.torque, PdGains.torque, PdGains.attitudeError, hm]
    rfl
  | some c =>
    simp only [Policy.torque, PdGains.torque, PdGains.attitudeError, hm, Option.elim]
    cases c.target <;> rfl

/-- A derivative the aggregator completes carries the attitude rate `Attitude.rate` and the spin
rate of Euler's equations, at `Float`. -/
theorem DynamicsModel.rateOf_toFun {s : SatState} {forces torques : List Contribution}
    {r : StateRate} (h : DynamicsModel.rateOf s forces torques = .ok r) :
    r.quaternion.toFun = Attitude.rate s.quaternion.toFun s.angularVelocity.toFun ∧
      Euler.angularAcceleration s.inertia.toMatrix s.angularVelocity.toFun
        (Contribution.total torques).toFun = .ok r.angularVelocity.toFun := by
  refine ⟨?_, ?_⟩
  · unfold DynamicsModel.rateOf at h
    cases hα : RigidBody.angularAcceleration s.inertia s.angularVelocity
      (Contribution.total torques) with
    | error e => simp [hα, bind, Except.bind] at h
    | ok α =>
      simp only [hα, bind, Except.bind, pure, Except.pure, Except.ok.injEq] at h
      subst h
      exact RigidBody.quaternionRate_toFun _ _
  · have hspin := DynamicsModel.rateOf_angularVelocity s forces torques
    rw [h] at hspin
    rw [← RigidBody.angularAcceleration_toFun, ← hspin]
    rfl

namespace Attitude

section Real

open Matrix Motion

variable {p q : Fin 4 → ℝ}

/-- The scalar part of `p* ⊗ x` is `p ⬝ x`. -/
theorem mul_conj_zero (p x : Fin 4 → ℝ) : mul (conj p) x 0 = p ⬝ᵥ x := by
  simp [mul, conj, dotProduct, Fin.sum_univ_four]

/-- Along the attitude rate the scalar part of `p* ⊗ q` changes at `-½ e⃗ ⬝ ω`: it is the scalar
part of `p* ⊗ ½ q ⊗ [0, ω] = ½ (p* ⊗ q) ⊗ [0, ω]`. -/
theorem dotProduct_rate (p q : Fin 4 → ℝ) (w : Fin 3 → ℝ) :
    p ⬝ᵥ rate q w = -(vec (mul (conj p) q) ⬝ᵥ w) / 2 := by
  simp [rate, mul, conj, vec, dotProduct, Fin.sum_univ_four, Fin.sum_univ_three]
  ring

theorem vec_error_of_neg (h : p ⬝ᵥ q < 0) : vec (error q p) = -vec (mul (conj p) q) := by
  have h' : mul (conj p) q 0 < 0.0 := by norm_num [mul_conj_zero, h]
  simp only [error, if_pos h']
  funext i
  fin_cases i <;> rfl

theorem vec_error_of_nonneg (h : 0 ≤ p ⬝ᵥ q) : vec (error q p) = vec (mul (conj p) q) := by
  have h' : ¬ mul (conj p) q 0 < 0.0 := by norm_num [mul_conj_zero, h]
  simp only [error, if_neg h']

/-- Away from a zero scalar part, `|p ⬝ q|` changes along the attitude rate at `-½ e ⬝ ω`, with
`e` the sign-fixed error: the sign fix is the sign of the derivative of `|·|`. -/
theorem hasDerivAt_abs_dotProduct {q : ℝ → Fin 4 → ℝ} {w : Fin 3 → ℝ} {t : ℝ}
    (hq : HasDerivAt q (rate (q t) w) t) (h0 : p ⬝ᵥ q t ≠ 0) :
    HasDerivAt (fun s => |p ⬝ᵥ q s|) (-(vec (error (q t) p) ⬝ᵥ w) / 2) t := by
  have hd := hasDerivAt_dotProduct (hasDerivAt_const t p) hq
  rw [zero_dotProduct, zero_add, dotProduct_rate] at hd
  rcases h0.lt_or_gt with hneg | hpos
  · rw [vec_error_of_neg hneg]
    refine ((hasDerivAt_abs_neg hneg).comp t hd).congr_deriv ?_
    rw [neg_dotProduct]
    ring
  · rw [vec_error_of_nonneg hpos.le]
    exact (hasDerivAt_abs_pos hpos).comp t hd |>.congr_deriv (one_mul _)

end Real

end Attitude

namespace Feedback

section Real

open Matrix

variable {I : Matrix (Fin 3) (Fin 3) ℝ}

/-- Without integral gain or reference rate the torque's work on the spin is the proportional
term's `-k_p e ⬝ ω` and the damping's `-k_d |ω|²`. -/
theorem dotProduct_torque (kp kd : ℝ) (e w integral : Fin 3 → ℝ) :
    w ⬝ᵥ torque kp kd 0 e w 0 integral = -(kp * (e ⬝ᵥ w)) - kd * (w ⬝ᵥ w) := by
  simp [torque, dotProduct, Fin.sum_univ_three]
  ring

/-- Along the attitude and spin rates, `½ ωᵀ I ω + 2 k_p (1 - |p ⬝ q|)` changes at `-k_d |ω|²`
wherever the error's scalar part `p ⬝ q` is not zero. -/
theorem hasDerivAt_lyapunov (hI : I.PosDef) (kp kd : ℝ) (p : Fin 4 → ℝ) (integral : Fin 3 → ℝ)
    {q : ℝ → Fin 4 → ℝ} {w : ℝ → Fin 3 → ℝ} {α : Fin 3 → ℝ} {t : ℝ}
    (hq : HasDerivAt q (Attitude.rate (q t) (w t)) t) (hw : HasDerivAt w α t)
    (hα : Euler.angularAcceleration I (w t)
      (torque kp kd 0 (Attitude.vec (Attitude.error (q t) p)) (w t) 0 integral) = .ok α)
    (h0 : p ⬝ᵥ q t ≠ 0) :
    HasDerivAt (fun s => w s ⬝ᵥ (I *ᵥ w s) / 2 + 2 * kp * (1 - |p ⬝ᵥ q s|))
      (-(kd * (w t ⬝ᵥ w t))) t := by
  have hsymm : I.IsSymm := isHermitian_iff_isSymm.mp hI.isHermitian
  -- the kinetic energy changes at the torque's work, the gyroscopic torque doing none
  have hwork := (Euler.rate_dotProduct hI hα).1
  rw [dotProduct_torque] at hwork
  have hkin := (Euler.hasDerivAt_quadratic hsymm hw).div_const 2
  have hatt := ((Attitude.hasDerivAt_abs_dotProduct hq h0).const_sub 1).const_mul (2 * kp)
  refine (hkin.fun_add hatt).congr_deriv ?_
  rw [hwork]
  ring

end Real

end Feedback

open Matrix

/-- Quaternion feedback is a Lyapunov controller. Without a torque limit the attitude controller's
torque is the feedback formula on the error `target* ⊗ current`, sign-fixed; a derivative the
aggregator completes carries the attitude rate `½ q ⊗ [0, ω]` and the spin rate of Euler's
equations. Over the reals, with no integral gain and no reference rate, the spin rate exists for
every positive definite inertia and constant target `p`, and along these rates
`½ ωᵀ I ω + 2 k_p (1 - |p ⬝ q|)` changes at exactly `-k_d |ω|²` wherever `p ⬝ q ≠ 0`. -/
theorem quaternion_feedback_lyapunov :
    (∀ g : PdGains, g.maxTorque = none → ∀ (t : Float) (s : SatState) (b : Body)
        (c : Option Command) (integral : Vec3),
      Policy.torque (.pd g) t s b c integral =
        (fun target => List.ofFn (Feedback.torque g.kp g.kd g.ki
          (Attitude.vec (Attitude.error s.quaternion.toFun target.toFun)) s.angularVelocity.toFun
          (c.elim Vec3.zero Command.rates).toFun integral.toFun)) <$>
          c.elim (pure Quat.identity) Command.target) ∧
    (∀ (s : SatState) (forces torques : List Contribution) (r : StateRate),
      DynamicsModel.rateOf s forces torques = .ok r →
      r.quaternion.toFun = Attitude.rate s.quaternion.toFun s.angularVelocity.toFun ∧
        Euler.angularAcceleration s.inertia.toMatrix s.angularVelocity.toFun
          (Contribution.total torques).toFun = .ok r.angularVelocity.toFun) ∧
    (∀ I : Matrix (Fin 3) (Fin 3) ℝ, I.PosDef → ∀ (kp kd : ℝ) (p : Fin 4 → ℝ)
        (integral : Fin 3 → ℝ) (q : ℝ → Fin 4 → ℝ) (w : ℝ → Fin 3 → ℝ) (t : ℝ),
      ∃ α, Euler.angularAcceleration I (w t)
          (Feedback.torque kp kd 0 (Attitude.vec (Attitude.error (q t) p)) (w t) 0 integral) =
            .ok α ∧
        (HasDerivAt q (Attitude.rate (q t) (w t)) t → HasDerivAt w α t → p ⬝ᵥ q t ≠ 0 →
          HasDerivAt (fun s => w s ⬝ᵥ (I *ᵥ w s) / 2 + 2 * kp * (1 - |p ⬝ᵥ q s|))
            (-(kd * (w t ⬝ᵥ w t))) t)) :=
  ⟨fun g hm t s b c integral => Policy.torque_pd g hm t s b c integral,
    fun _ _ _ _ h => DynamicsModel.rateOf_toFun h,
    fun _ hI kp kd p integral _ _ _ => ⟨_, Euler.angularAcceleration_real hI _ _,
      fun hq hw h0 => Feedback.hasDerivAt_lyapunov hI kp kd p integral hq hw
        (Euler.angularAcceleration_real hI _ _) h0⟩⟩

/-- The default controller without a command steers to the identity; and a unit body at its
target attitude, spinning about its first axis under `k_p = k_d = 1`, is damped, `V` falling at
`|ω|² = 1`. -/
theorem identity_attitude_damped :
    let q : ℝ → Fin 4 → ℝ := fun s => ![1, 0, 0, 0] + s • Attitude.rate ![1, 0, 0, 0] ![1, 0, 0]
    let w : ℝ → Fin 3 → ℝ := fun s => ![1, 0, 0] - s • ![1, 0, 0]
    let g : PdGains := {}
    Policy.torque (.pd g) 0.0 default default none Vec3.zero =
        (fun target => List.ofFn (Feedback.torque g.kp g.kd g.ki
          (Attitude.vec (Attitude.error (default : SatState).quaternion.toFun target.toFun))
          (default : SatState).angularVelocity.toFun Vec3.zero.toFun Vec3.zero.toFun)) <$>
          pure Quat.identity ∧
      HasDerivAt (fun s => w s ⬝ᵥ ((1 : Matrix (Fin 3) (Fin 3) ℝ) *ᵥ w s) / 2 +
        2 * 1 * (1 - |![1, 0, 0, 0] ⬝ᵥ q s|)) (-(1 * (w 0 ⬝ᵥ w 0))) 0 := by
  intro q w g
  have hq0 : q 0 = ![1, 0, 0, 0] := by
    funext i
    fin_cases i <;> simp [q]
  have hw0 : w 0 = ![1, 0, 0] := by
    funext i
    fin_cases i <;> simp [w]
  obtain ⟨α, hα, hV⟩ := quaternion_feedback_lyapunov.2.2 1 PosDef.one 1 1 ![1, 0, 0, 0] 0 q w 0
  -- at the target the error has no vector part, so the torque is the damping `-ω`
  have hα' : α = ![-1, 0, 0] := by
    have hpos : (0 : ℝ) ≤ ![1, 0, 0, 0] ⬝ᵥ ![1, 0, 0, 0] := by
      simp [dotProduct, Fin.sum_univ_four]
    rw [Euler.angularAcceleration_real PosDef.one, hq0, hw0, Attitude.vec_error_of_nonneg hpos,
      Except.ok.injEq] at hα
    rw [← hα]
    funext i
    fin_cases i <;> simp [Feedback.torque, Attitude.vec, Attitude.mul, Attitude.conj]
  subst hα'
  have hq : HasDerivAt q (Attitude.rate (q 0) (w 0)) 0 := by
    rw [hq0, hw0]
    exact ((hasDerivAt_id 0).smul_const _).const_add _ |>.congr_deriv (one_smul ℝ _)
  have hw : HasDerivAt w ![-1, 0, 0] 0 := by
    refine ((hasDerivAt_id 0).smul_const ![1, 0, 0]).const_sub ![1, 0, 0] |>.congr_deriv ?_
    simp
  have h0 : ![1, 0, 0, 0] ⬝ᵥ q 0 ≠ 0 := by simp [hq0, dotProduct, Fin.sum_univ_four]
  exact ⟨quaternion_feedback_lyapunov.1 g rfl 0.0 default default none Vec3.zero, hV hq hw h0⟩

end Spacecraft
