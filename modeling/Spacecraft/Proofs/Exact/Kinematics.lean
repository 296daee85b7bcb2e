import Mathlib
import Spacecraft.Proofs.Exact.Feedback
import Spacecraft.Proofs.Binary64.Vanishing
import Spacecraft.Proofs.Propagation.Trial

/-!
# Quaternion kinematics

The attitude moves at `½ q ⊗ [0, ω]`, the Hamilton product of the attitude and the pure
quaternion of the body spin, which the model writes out component by component
(`RigidBody.quaternionRate`). Over the real numbers the two are equal (`rate_eq_mul`). In
binary64 the product has four more terms, each a component of `q` times a zero: for a finite
`q` they are zeros, and a zero added to a sum changes it at most in the sign of a zero, so the
two agree up to that sign (`quaternionRate_agree_mul`). An infinite component times zero is
NaN, where the rate written out may still hold a zero (`quaternionRate_infinite_disagrees`).

The rate is orthogonal to the attitude (`dotProduct_rate_self`), and it is linear in the
attitude, so it is orthogonal to every multiple of it as well. The flat state equation of a
run computes the rate from the normalized attitude (`Propagator.rate_attitude`), so in exact
arithmetic the length of the attitude slots does not change along it
(`hasDerivAt_length_rate`).
-/

namespace Spacecraft

namespace Attitude

/-- The pure quaternion `[0, ω]` of a spin. -/
def ofSpin {K : Type} [Scalar K] (w : Fin 3 → K) : Fin 4 → K := ![0.0, w 0, w 1, w 2]

section Real

open Matrix

variable {q n : Fin 4 → ℝ} {w : Fin 3 → ℝ}

/-- The rate written out is `½ q ⊗ [0, ω]`. -/
theorem rate_eq_mul (q : Fin 4 → ℝ) (w : Fin 3 → ℝ) :
    rate q w = fun i => 0.5 * mul q (ofSpin w) i := by
  have h0 : (0.0 : ℝ) = 0 := by norm_num
  funext i
  fin_cases i <;>
    simp only [rate, mul, ofSpin, h0, Fin.zero_eta, Fin.isValue, Fin.mk_one, Fin.reduceFinMk,
      Matrix.cons_val] <;>
    ring

theorem rate_smul (a : ℝ) (q : Fin 4 → ℝ) (w : Fin 3 → ℝ) : rate (a • q) w = a • rate q w := by
  funext i
  fin_cases i <;> simp [rate] <;> ring

/-- The attitude rate is orthogonal to the attitude: the scalar part of `q* ⊗ q ⊗ [0, ω]` is
that of `|q|² [0, ω]`, which is zero. -/
theorem dotProduct_rate_self (q : Fin 4 → ℝ) (w : Fin 3 → ℝ) : q ⬝ᵥ rate q w = 0 := by
  have hv : vec (mul (conj q) q) = 0 := by
    funext i
    fin_cases i <;> simp [vec, mul, conj] <;> ring
  rw [dotProduct_rate, hv, zero_dotProduct, neg_zero, zero_div]

theorem dotProduct_rate_unit (q : Fin 4 → ℝ) (w : Fin 3 → ℝ) : q ⬝ᵥ rate (unit q) w = 0 := by
  rw [unit, rate_smul, dotProduct_smul, dotProduct_rate_self, smul_zero]

/-- A quaternion that normalizes has a length of at least `1e-12`, and normalizes to `q / |q|`. -/
theorem normalize_eq_ok (h : normalize q = .ok n) : n = unit q ∧ q ≠ 0 := by
  rw [normalize_real] at h
  split_ifs at h with hlt
  cases h
  refine ⟨rfl, fun h0 => hlt ?_⟩
  rw [h0, dotProduct_zero, Real.sqrt_zero]
  norm_num

/-- Along a path of attitude slots moving at the rate of their normalization, the length has
zero rate: the rate of the length is `q ⬝ q' / |q|`, and `q'` is orthogonal to `q / |q|`. -/
theorem hasDerivAt_length_rate {q : ℝ → Fin 4 → ℝ} {t : ℝ} (hn : normalize (q t) = .ok n)
    (hq : HasDerivAt q (rate n w) t) : HasDerivAt (fun s => √(q s ⬝ᵥ q s)) 0 t := by
  obtain ⟨rfl, h0⟩ := normalize_eq_ok hn
  have hd := Motion.hasDerivAt_length hq h0
  rwa [dotProduct_rate_unit, zero_div] at hd

end Real

end Attitude

open Binary64

/-- For a finite attitude the rate written out agrees with `½ q ⊗ [0, ω]` up to the sign of a
zero: the product's extra terms `qᵢ · 0` are zeros, and adding a zero changes a value at most
in its sign. -/
theorem RigidBody.quaternionRate_agree_mul (q : Quat) (w : Vec3) (hq : q.isFinite = true)
    (i : Fin 4) :
    Agree ((RigidBody.quaternionRate q w).toFun i)
      (0.5 * (q.mul ⟨0.0, w.x, w.y, w.z⟩).toFun i) := by
  simp only [Quat.isFinite, Bool.and_eq_true] at hq
  obtain ⟨⟨⟨hw, hx⟩, hy⟩, hz⟩ := hq
  have h0 : IsZero (0.0 : Float) := ⟨.positive, rfl⟩
  -- each component is one half of a sum: compare the two sums
  fin_cases i <;>
    simp only [Quat.toFun, RigidBody.quaternionRate, Quat.mul, Fin.zero_eta, Fin.isValue,
      Fin.mk_one, Fin.reduceFinMk, Matrix.cons_val] <;>
    refine Agree.mul_right ?_ 0.5
  · -- the scalar part: the extra term comes first, as `q₀ · 0 - q₁ ω₁`
    rw [mul_comm_float w.y q.y, mul_comm_float w.z q.z]
    have e : Agree (q.w * 0.0 - q.x * w.x) (-w.x * q.x) := by
      rw [sub_eq_add_neg_float, neg_mul_float, mul_comm_float w.x]
      exact agree_isZero_add (isZero_mul_of_finite hw h0) _
    exact ((e.sub_left (q.y * w.y)).sub_left (q.z * w.z)).symm
  · rw [mul_comm_float w.x q.w, mul_comm_float w.z q.y, mul_comm_float w.y q.z]
    exact (((agree_add_isZero (isZero_mul_of_finite hx h0) (q.w * w.x)).add_left
      (q.y * w.z)).sub_left (q.z * w.y)).symm
  · rw [mul_comm_float w.y q.w, mul_comm_float w.z q.x, mul_comm_float w.x q.z]
    exact ((agree_add_isZero (isZero_mul_of_finite hy h0) (q.w * w.y - q.x * w.z)).add_left
      (q.z * w.x)).symm
  · rw [mul_comm_float w.z q.w, mul_comm_float w.y q.x, mul_comm_float w.x q.y]
    exact (agree_add_isZero (isZero_mul_of_finite hz h0) (q.w * w.z + q.x * w.y - q.y * w.x)).symm

/-- With an infinite scalar part and a spin about the first axis, the scalar part of the rate
written out is a zero, while `q₀ · 0` makes that of `½ q ⊗ [0, ω]` NaN. -/
theorem RigidBody.quaternionRate_infinite_disagrees :
    ¬ Agree (RigidBody.quaternionRate ⟨1.0 / 0.0, 0.0, 0.0, 0.0⟩ ⟨1.0, 0.0, 0.0⟩).w
      (0.5 * (Quat.mul ⟨1.0 / 0.0, 0.0, 0.0, 0.0⟩ ⟨0.0, 1.0, 0.0, 0.0⟩).w) := by
  intro h
  have hnan := h.isNaN_eq
  revert hnan
  decide

/-- A derivative the dynamics give moves the attitude at the rate written out, from the
attitude and the spin of the state. -/
theorem DynamicsModel.derivative_quaternion {m : DynamicsModel} {t : Float} {s : SatState}
    {c : LawState} {r : StateRate} (h : m.derivative t s c = .ok r) :
    r.quaternion = RigidBody.quaternionRate s.quaternion s.angularVelocity := by
  unfold DynamicsModel.derivative at h
  obtain ⟨⟨forces, torques⟩, -, h⟩ := Outcome.bind_eq_ok h
  obtain ⟨_, -, h⟩ := Outcome.bind_eq_ok h
  cases h
  rfl

/-- The flat state equation of a run moves the attitude slots at the rate written out, from the
spin slots and from the attitude slots normalized (kept as they are when one is not finite). -/
theorem Propagator.rate_quaternion {d : DynamicsModel} {inertia : Mat3}
    {control : Option LawState} {τ : Float} {z k : List Float}
    (h : Propagator.rate d inertia control τ z = .ok k) :
    ∃ q n : Quat, ∃ w : Vec3, q.toList = (z.drop 6).take 4 ∧ w.toList = (z.drop 10).take 3 ∧
      (if q.isFinite then Quat.normalize q else pure q) = .ok n ∧
      (k.drop 6).take 4 = (RigidBody.quaternionRate n w).toList := by
  unfold Propagator.rate at h
  obtain ⟨s, hs, h⟩ := Outcome.bind_eq_ok h
  obtain ⟨r, hr, h⟩ := Outcome.bind_eq_ok h
  cases h
  have hreb := SatState.ofFlat_rebuilt hs
  obtain ⟨q, hq, -, hn⟩ := hreb.quaternion
  refine ⟨q, s.quaternion, s.angularVelocity, hq, hreb.angularVelocity, hn, ?_⟩
  rw [← DynamicsModel.derivative_quaternion hr]
  simp [StateRate.toArray, Vec3.toList, Quat.toList]

/-- The same, with the attitude as components: the rate is `Attitude.rate` of the attitude
normalized by `Attitude.normalize`, the formula whose real-number reading
`Attitude.hasDerivAt_length_rate` is about. -/
theorem Propagator.rate_attitude {d : DynamicsModel} {inertia : Mat3}
    {control : Option LawState} {τ : Float} {z k : List Float}
    (h : Propagator.rate d inertia control τ z = .ok k) :
    ∃ q : Quat, ∃ w : Vec3, ∃ n : Fin 4 → Float,
      q.toList = (z.drop 6).take 4 ∧ w.toList = (z.drop 10).take 3 ∧
      (if q.isFinite then Attitude.normalize q.toFun else .ok q.toFun) = .ok n ∧
      (k.drop 6).take 4 = List.ofFn (Attitude.rate n w.toFun) := by
  obtain ⟨q, n, w, hq, hw, hn, hk⟩ := Propagator.rate_quaternion h
  refine ⟨q, w, n.toFun, hq, hw, ?_, ?_⟩
  · by_cases hf : q.isFinite = true
    · rw [if_pos hf] at hn ⊢
      rw [← Quat.normalize_toFun, hn]
      rfl
    · rw [if_neg hf] at hn ⊢
      cases hn
      rfl
  · rw [hk, Quat.toList_eq_ofFn, RigidBody.quaternionRate_toFun]

end Spacecraft
