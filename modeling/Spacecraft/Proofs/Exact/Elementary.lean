import Mathlib
import Spacecraft.Numeric.Vec3
import Spacecraft.Proofs.Exact.Reading

/-!
# Elementary functions

Orbits, eclipses and filters also use the cosine and sine, their inverses, the exponential
and `π`. The class here adds them to a `Scalar` reading: at `Float` they are the library's
functions and the constant `pi` of the model, over the real numbers they are Mathlib's, so
that a formula written over `Scalar` and `Elementary` is, at `Float`, the binary64 definition
and, over `ℝ`, its exact reading. As with `Scalar`, the class has no laws.
-/

namespace Spacecraft

/-- The elementary functions a formula uses besides the field operations. -/
class Elementary (K : Type) where
  /-- The cosine of an angle in radians. -/
  cos : K → K
  /-- The sine of an angle in radians. -/
  sin : K → K
  /-- The arc cosine, in `[0, π]`. -/
  acos : K → K
  /-- The arc sine, in `[-π/2, π/2]`. -/
  asin : K → K
  /-- The exponential. -/
  exp : K → K
  /-- The constant `π`. -/
  pi : K

/-- The library's functions, and `π` as the model writes it. -/
instance : Elementary Float where
  cos := Float.cos
  sin := Float.sin
  acos := Float.acos
  asin := Float.asin
  exp := Float.exp
  pi := pi

/-- The real functions. -/
noncomputable instance : Elementary ℝ where
  cos := Real.cos
  sin := Real.sin
  acos := Real.arccos
  asin := Real.arcsin
  exp := Real.exp
  pi := Real.pi

namespace Elementary

variable {K : Type} [Scalar K] [Elementary K]

/-- An angle in degrees converted to radians, with the model's order of operations. -/
def radians (deg : K) : K := deg * (pi / 180.0)

theorem radians_float (deg : Float) : radians deg = Spacecraft.radians deg := rfl

@[simp] theorem real_cos (x : ℝ) : cos x = Real.cos x := rfl

@[simp] theorem real_sin (x : ℝ) : sin x = Real.sin x := rfl

@[simp] theorem real_acos (x : ℝ) : acos x = Real.arccos x := rfl

@[simp] theorem real_asin (x : ℝ) : asin x = Real.arcsin x := rfl

@[simp] theorem real_exp (x : ℝ) : exp x = Real.exp x := rfl

@[simp] theorem real_pi : (pi : ℝ) = Real.pi := rfl

@[simp] theorem real_radians (deg : ℝ) : radians deg = deg * (Real.pi / 180) := by
  norm_num [radians]

end Elementary

end Spacecraft
