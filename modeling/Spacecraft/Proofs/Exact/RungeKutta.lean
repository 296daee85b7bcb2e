import Mathlib
import Spacecraft.Propagation.Integrator
import Spacecraft.Proofs.Exact.Reading

/-!
# The classical Runge–Kutta step in exact arithmetic

`RungeKutta.step` is the trial step of `Integrator.rungeKutta` over any `Scalar`: stage rates at
`t`, twice at `t + h/2` and at `t + h`, each from the state moved along the one before, added
with the weights `1, 2, 2, 1` and scaled by `h/6`. At `Float` it is the model's step, which
suggests the fixed step size next whatever it computes (`attempt_rungeKutta`).

Over the real numbers the step has classical fourth order wherever that can be checked
exactly. On a linear system `y' = A y` it multiplies `y` by the Taylor polynomial of degree
four of `exp (hA)`. On a rate that depends on time alone, a polynomial of degree at most three
in each entry, it adds the integral of the rate over the step, as Simpson's rule is exact for
cubics. States are vectors `Fin n → ℝ`, read as the flat lists `List.ofFn y` the integrator
works on; `step_ofFn` turns a step over such lists into one over vectors.
-/

namespace Spacecraft

namespace RungeKutta

section Formula

variable {K : Type} [Scalar K]

/-- `y + a · d`, entry by entry. -/
def addScaled (y : List K) (a : K) (d : List K) : List K :=
  List.zipWith (fun u v => u + a * v) y d

/-- The state after one classical Runge–Kutta step of size `h` from `t` and `y`. -/
def step (f : K → List K → Outcome (List K)) (t : K) (y : List K) (h : K) :
    Outcome (List K) := do
  let k1 ← f t y
  let k2 ← f (t + h / 2.0) (addScaled y (h / 2.0) k1)
  let k3 ← f (t + h / 2.0) (addScaled y (h / 2.0) k2)
  let k4 ← f (t + h) (addScaled y h k3)
  let twice (k : List K) := k.map (2.0 * ·)
  let sum := List.zipWith (· + ·)
    (List.zipWith (· + ·) (List.zipWith (· + ·) k1 (twice k2)) (twice k3)) k4
  pure (addScaled y (h / 6.0) sum)

end Formula

end RungeKutta

namespace Integrator

/-- A fixed-step trial step is the Runge–Kutta step, and it suggests the fixed step size next. -/
theorem attempt_rungeKutta (s : Float) (f : RateFunction) (t : Float) (y : List Float)
    (h : Float) : (rungeKutta s).attempt f t y h =
      (fun y1 => { state := y1, nextStep := s }) <$> RungeKutta.step f t y h := by
  have h2 : (2 : Float) = 2.0 := rfl
  have h6 : (6 : Float) = 6.0 := rfl
  simp only [attempt, RungeKutta.step, h2, h6, map_bind, map_pure]
  rfl

end Integrator

namespace RungeKutta

open Matrix

section Real

variable {n : ℕ}

theorem addScaled_ofFn (u v : Fin n → ℝ) (a : ℝ) :
    addScaled (List.ofFn u) a (List.ofFn v) = List.ofFn (u + a • v) := by
  apply List.ext_getElem <;> simp [addScaled]

theorem zipWith_add_ofFn (u v : Fin n → ℝ) :
    List.zipWith (· + ·) (List.ofFn u) (List.ofFn v) = List.ofFn (u + v) := by
  apply List.ext_getElem <;> simp

theorem map_two_mul_ofFn (u : Fin n → ℝ) :
    (List.ofFn u).map ((2 : ℝ) * ·) = List.ofFn ((2 : ℝ) • u) := by
  apply List.ext_getElem <;> simp

/-- Over the reals, a step on a rate that maps vectors to vectors is the Runge–Kutta
combination of the four stage rates as vectors. -/
theorem step_ofFn (f : ℝ → List ℝ → Outcome (List ℝ)) (F : ℝ → (Fin n → ℝ) → Fin n → ℝ)
    (hf : ∀ t v, f t (List.ofFn v) = pure (List.ofFn (F t v))) (t h : ℝ) (y : Fin n → ℝ) :
    step f t (List.ofFn y) h =
      let k1 := F t y
      let k2 := F (t + h / 2) (y + (h / 2) • k1)
      let k3 := F (t + h / 2) (y + (h / 2) • k2)
      let k4 := F (t + h) (y + h • k3)
      pure (List.ofFn (y + (h / 6) • (k1 + (2 : ℝ) • k2 + (2 : ℝ) • k3 + k4))) := by
  have h2 : (2.0 : ℝ) = 2 := by norm_num
  have h6 : (6.0 : ℝ) = 6 := by norm_num
  simp only [step, Scalar.real_add, Scalar.real_mul, h2, h6, hf, pure_bind, addScaled_ofFn,
    map_two_mul_ofFn, zipWith_add_ofFn]

open Polynomial in
/-- Simpson's rule is exact for polynomials of degree at most three. -/
theorem integral_eq_simpson {P : ℝ[X]} (hP : P.natDegree ≤ 3) (a h : ℝ) :
    ∫ s in a..a + h, P.eval s = h / 6 * (P.eval a + 4 * P.eval (a + h / 2) + P.eval (a + h)) := by
  have hP' : P.natDegree < 4 := by omega
  simp only [eval_eq_sum_range' hP']
  rw [intervalIntegral.integral_finsetSum]
  · simp only [intervalIntegral.integral_const_mul, integral_pow, Finset.sum_range_succ,
      Finset.sum_range_zero]
    push_cast
    ring
  · intro i _
    exact (continuous_const.mul (continuous_pow i)).intervalIntegrable _ _

/-- The rate `y' = A y` of a linear system on flat states of `n` entries; an entry missing from
a shorter list reads as zero. -/
noncomputable def linearRate (A : Matrix (Fin n) (Fin n) ℝ) : ℝ → List ℝ → Outcome (List ℝ) :=
  fun _ ys => pure (List.ofFn (A *ᵥ fun i => ys.getD i 0))

/-- A rate that depends on time alone: entry `i` is the polynomial `p i` at the time. -/
noncomputable def polynomialRate (p : Fin n → Polynomial ℝ) : ℝ → List ℝ → Outcome (List ℝ) :=
  fun t _ => pure (List.ofFn fun i => (p i).eval t)

theorem linearRate_ofFn (A : Matrix (Fin n) (Fin n) ℝ) (t : ℝ) (v : Fin n → ℝ) :
    linearRate A t (List.ofFn v) = pure (List.ofFn (A *ᵥ v)) := by
  simp [linearRate]

/-- On a linear system a step multiplies the state by the Taylor polynomial of degree four of
`exp (hA)`. -/
theorem step_linearRate (A : Matrix (Fin n) (Fin n) ℝ) (t h : ℝ) (y : Fin n → ℝ) :
    step (linearRate A) t (List.ofFn y) h =
      pure (List.ofFn ((1 + h • A + (2⁻¹ : ℝ) • (h • A) ^ 2 + (6⁻¹ : ℝ) • (h • A) ^ 3 +
        (24⁻¹ : ℝ) • (h • A) ^ 4) *ᵥ y)) := by
  rw [step_ofFn (linearRate A) (fun _ v => A *ᵥ v) (linearRate_ofFn A)]
  dsimp only
  congr 2
  -- both sides are combinations of `Aᵏ y` for `k ≤ 4`
  simp only [smul_pow, add_mulVec, smul_mulVec, one_mulVec]
  simp only [mulVec_add, mulVec_smul, mulVec_mulVec, pow_succ, pow_zero, Matrix.one_mul,
    Matrix.mul_assoc]
  module

/-- On a rate that is a polynomial of degree at most three in time, a step adds the integral of
the rate over the step. -/
theorem step_polynomialRate (p : Fin n → Polynomial ℝ) (hp : ∀ i, (p i).natDegree ≤ 3) (t h : ℝ)
    (y : Fin n → ℝ) :
    step (polynomialRate p) t (List.ofFn y) h =
      pure (List.ofFn fun i => y i + ∫ s in t..t + h, (p i).eval s) := by
  rw [step_ofFn (polynomialRate p) (fun s _ i => (p i).eval s) (fun _ _ => rfl)]
  dsimp only
  congr 2
  funext i
  rw [integral_eq_simpson (hp i)]
  simp only [Pi.add_apply, Pi.smul_apply, smul_eq_mul]
  ring

end Real

/-- The classical Runge–Kutta step has fourth order where that can be checked exactly. The
model's fixed-step trial step is the step `step` at `Float`, suggesting the fixed step size
next; over the reals the step multiplies the state of a linear system `y' = A y` by
`1 + hA + (hA)²/2 + (hA)³/6 + (hA)⁴/24`, and adds to the state the integral over the step of a
rate that is a polynomial of degree at most three in time. -/
theorem fourth_order_step :
    (∀ (s : Float) (f : RateFunction) (t : Float) (y : List Float) (h : Float),
      (Integrator.rungeKutta s).attempt f t y h =
        (fun y1 => { state := y1, nextStep := s }) <$> step f t y h) ∧
    (∀ (n : ℕ) (A : Matrix (Fin n) (Fin n) ℝ) (y : Fin n → ℝ) (t h : ℝ),
      step (linearRate A) t (List.ofFn y) h =
        pure (List.ofFn ((1 + h • A + (2⁻¹ : ℝ) • (h • A) ^ 2 + (6⁻¹ : ℝ) • (h • A) ^ 3 +
          (24⁻¹ : ℝ) • (h • A) ^ 4) *ᵥ y))) ∧
    (∀ (n : ℕ) (p : Fin n → Polynomial ℝ), (∀ i, (p i).natDegree ≤ 3) → ∀ (y : Fin n → ℝ) (t h : ℝ),
      step (polynomialRate p) t (List.ofFn y) h =
        pure (List.ofFn fun i => y i + ∫ s in t..t + h, (p i).eval s)) :=
  ⟨Integrator.attempt_rungeKutta, fun _ A y t h => step_linearRate A t h y,
    fun _ p hp y t h => step_polynomialRate p hp t h y⟩

/-- A step of size one from zero on the rate `t³` adds `∫₀¹ t³ dt = 1/4`. -/
theorem cubic_rate_step :
    step (polynomialRate ![(Polynomial.X ^ 3 : Polynomial ℝ)]) 0 (List.ofFn ![0]) 1 =
      pure [1 / 4] := by
  rw [fourth_order_step.2.2 1 ![Polynomial.X ^ 3] (fun i => by fin_cases i; simp) ![0] 0 1]
  norm_num [integral_pow]

end RungeKutta

namespace Integrator

/-- In binary64 the step rounds: on `y' = y` from `y = 1` with `h = 1` the Taylor polynomial
gives `65/24`, whose nearest double is `2.7083333333333335`, but the step computes
`2.708333333333333`. -/
theorem rungeKutta_step_rounds :
    (((rungeKutta 0.1).attempt (AffineSystem.linear [[1.0]]).rate 0.0 [1.0] 1.0).toOption.map
      (·.state) == some [2.708333333333333]) = true ∧
    ((65.0 / 24.0 : Float) == 2.708333333333333) = false := by
  constructor
  · decide +kernel
  · decide +kernel

end Integrator

end Spacecraft
