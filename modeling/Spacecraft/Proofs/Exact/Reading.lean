import Mathlib
import Spacecraft.Numeric.Binary64
import Spacecraft.Numeric.Vec3

/-!
# Exact arithmetic

The model computes in binary64, where the identities of the physics hold only up to rounding.
To say what a formula computes in exact arithmetic, the modules under `Exact` write it once
more over any `Scalar` with an order, with the binary64 definition's own order of operations,
and prove that at `Float` it is that definition. Over the real numbers, the instance here,
every operation is exact; the `@[simp]` lemmas below turn the operations of the instance into
the real numbers' own, so that `ring`, `field_simp` and `norm_num` see them.
-/

namespace Spacecraft

/-- The real numbers, where the square root, the power function and fused multiply-add are
exact. -/
noncomputable instance : Scalar ℝ where
  sqrt := Real.sqrt
  abs x := |x|
  pow x y := x ^ y
  fma a b c := a * b + c
  isZero x := decide (x = 0)

namespace Scalar

@[simp] theorem real_add (a b : ℝ) : @HAdd.hAdd ℝ ℝ ℝ (@instHAdd ℝ Scalar.toAdd) a b = a + b :=
  rfl

@[simp] theorem real_sub (a b : ℝ) : @HSub.hSub ℝ ℝ ℝ (@instHSub ℝ Scalar.toSub) a b = a - b :=
  rfl

@[simp] theorem real_mul (a b : ℝ) : @HMul.hMul ℝ ℝ ℝ (@instHMul ℝ Scalar.toMul) a b = a * b :=
  rfl

@[simp] theorem real_div (a b : ℝ) : @HDiv.hDiv ℝ ℝ ℝ (@instHDiv ℝ Scalar.toDiv) a b = a / b :=
  rfl

@[simp] theorem real_neg (a : ℝ) : @Neg.neg ℝ Scalar.toNeg a = -a := rfl

@[simp] theorem real_ofScientific (m : ℕ) (s : Bool) (e : ℕ) :
    @OfScientific.ofScientific ℝ Scalar.toOfScientific m s e = OfScientific.ofScientific m s e :=
  rfl

@[simp] theorem real_sqrt (a : ℝ) : Scalar.sqrt a = √a := rfl

@[simp] theorem real_abs (a : ℝ) : Scalar.abs a = |a| := rfl

@[simp] theorem real_pow (a b : ℝ) : Scalar.pow a b = a ^ b := rfl

@[simp] theorem real_fma (a b c : ℝ) : Scalar.fma a b c = a * b + c := rfl

@[simp] theorem real_isZero (a : ℝ) : Scalar.isZero a = decide (a = 0) := rfl

@[simp] theorem float_sqrt (a : Float) : Scalar.sqrt a = a.sqrt := rfl

@[simp] theorem float_fma (a b c : Float) : Scalar.fma a b c = Binary64.fma a b c := rfl

@[simp] theorem float_abs (a : Float) : Scalar.abs a = a.abs := rfl

end Scalar

/-- Three is not zero, as one named fact: every numeral index of `Fin 3` refers to it. -/
instance neZeroThree : NeZero (3 : ℕ) := ⟨by decide⟩

/-- Four is not zero, as one named fact: every numeral index of `Fin 4` refers to it. -/
instance neZeroFour : NeZero (4 : ℕ) := ⟨by decide⟩

/-- The components of a vector. -/
def Vec3.toFun (v : Vec3) : Fin 3 → Float := v.get

/-- The entries of a matrix. -/
def Mat3.toMatrix (m : Mat3) : Matrix (Fin 3) (Fin 3) Float := Matrix.of fun i j => m.get i j

end Spacecraft
