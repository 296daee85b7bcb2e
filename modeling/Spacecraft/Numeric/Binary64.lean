/-!
# Binary64 values as exact dyadic numbers

A finite binary64 value is `±m · 2^e` with `m < 2^53` and `e ≥ -1074`. This module decodes a
`Float` into that form and rounds an exact ratio of naturals back to the nearest binary64
value, ties to an even mantissa, with subnormals and overflow to infinity. The operations
whose IEEE 754 definition is "the exact result, rounded once" are built on it: fused
multiply-add, conversion of integers and decimals, and the remainder of a division. The
`Scalar` class at the end names the operations the physical formulas are written in, with
binary64 as the instance that runs.
-/

namespace Spacecraft

/-- A finite binary64 value spelled out: `(-1)^neg · mant · 2^exp`. -/
structure Dyadic where
  neg : Bool
  mant : Nat
  exp : Int
deriving Repr, Inhabited

namespace Binary64

/-- The bit pattern of positive infinity. -/
def infBits : Nat := 0x7FF0000000000000

/-- The bit pattern of the sign. -/
def signBit : Nat := 0x8000000000000000

/-- A float from a bit pattern below `2^64`. -/
def ofBitsNat (b : Nat) : Float := Float.ofBits b.toUInt64

/-- Zero with the given sign. -/
def signedZero (neg : Bool) : Float := if neg then ofBitsNat signBit else 0.0

/-- Infinity with the given sign. -/
def signedInf (neg : Bool) : Float := ofBitsNat (if neg then infBits + signBit else infBits)

/-- Whether the sign bit is set (true for `-0.0` and negative NaNs too). -/
def signBitSet (x : Float) : Bool := x.toBits.toNat ≥ signBit

/-- The exact value of a finite float; `none` for NaN and the infinities. -/
def decode (x : Float) : Option Dyadic :=
  let b : Nat := x.toBits.toNat
  let neg : Bool := b ≥ signBit
  let e : Nat := (b / Nat.pow 2 52) % 2048
  let f : Nat := b % Nat.pow 2 52
  if e = 2047 then none
  else if e = 0 then some ⟨neg, f, -1074⟩
  else some ⟨neg, f + Nat.pow 2 52, (e : Int) - 1075⟩

/-- `num · 2^e` split into a numerator and a denominator, both naturals. -/
def scaleByTwo (num : Nat) (e : Int) : Nat × Nat :=
  if 0 ≤ e then (num * Nat.pow 2 e.toNat, 1) else (num, Nat.pow 2 (-e).toNat)

/-- The binary64 mantissa and exponent nearest to `num / den` for a positive ratio, before
the range checks: `q · 2^e` with `q < 2^53`, or `q = 2^53` never. -/
def roundRatio (num den : Nat) : Nat × Int :=
  let t : Int := (num.log2 : Int) - (den.log2 : Int)
  -- the binary exponent of num / den is t - 1 or t
  let (n1, d1) := if 0 ≤ t - 52 then (num, den * Nat.pow 2 (t - 52).toNat)
    else (num * Nat.pow 2 (52 - t).toNat, den)
  let e1 : Int := if n1 / d1 < Nat.pow 2 52 then t - 53 else t - 52
  let e := max e1 (-1074)
  let (n, d) := if 0 ≤ e then (num, den * Nat.pow 2 e.toNat) else (num * Nat.pow 2 (-e).toNat, den)
  let q := n / d
  let r := n % d
  let up := 2 * r > d || (2 * r = d && q % 2 = 1)
  let q := if up then q + 1 else q
  if q = Nat.pow 2 53 then (Nat.pow 2 52, e + 1) else (q, e)

/-- The binary64 value nearest to `num / den`, with sign `neg`; ties go to the even
mantissa and values beyond the largest finite one become infinite. `den` must be positive. -/
def ofRatio (neg : Bool) (num den : Nat) : Float :=
  if num = 0 || den = 0 then signedZero neg else
  let (q, e) := roundRatio num den
  let bits := (e + 1074).toNat * Nat.pow 2 52 + q
  if bits ≥ infBits then signedInf neg
  else ofBitsNat (if neg then bits + signBit else bits)

/-- The binary64 value nearest to an exact dyadic number. -/
def ofDyadic (v : Dyadic) : Float :=
  let (n, d) := scaleByTwo v.mant v.exp
  ofRatio v.neg n d

/-- The binary64 value nearest to an integer. -/
def ofInt (n : Int) : Float := ofRatio (n < 0) n.natAbs 1

/-- The binary64 value nearest to `±digits · 10^exp10`, read the way a correctly rounded
decimal reader does. Exponents far outside the range go straight to zero or infinity. -/
def ofDecimal (neg : Bool) (digits : Nat) (exp10 : Int) : Float :=
  if digits = 0 then signedZero neg
  else if exp10 > 400 then signedInf neg
  else if exp10 + ((toString digits).length : Int) < -400 then signedZero neg
  else if 0 ≤ exp10 then ofRatio neg (digits * Nat.pow 10 exp10.toNat) 1
  else ofRatio neg digits (Nat.pow 10 (-exp10).toNat)

/-- The exact sum `a · 2^ea + b · 2^eb` of two signed dyadic terms, as a signed mantissa
over the smaller exponent. -/
def addTerms (a : Int) (ea : Int) (b : Int) (eb : Int) : Int × Int :=
  let e := min ea eb
  (a * Int.pow 2 (ea - e).toNat + b * Int.pow 2 (eb - e).toNat, e)

/-- The signed mantissa of a dyadic value. -/
def Dyadic.signed (v : Dyadic) : Int := if v.neg then -(v.mant : Int) else v.mant

/-- Fused multiply-add: `a · b + c` computed exactly and rounded once. A zero result takes
the sign IEEE 754 gives an exact zero sum: negative only when both the product and `c` are
negative zeros. -/
def fma (a b c : Float) : Float :=
  match decode a, decode b, decode c with
  | some da, some db, some dc =>
    let (s, e) := addTerms (Dyadic.signed da * Dyadic.signed db) (da.exp + db.exp)
      (Dyadic.signed dc) dc.exp
    if s = 0 then
      if da.mant * db.mant = 0 && dc.mant = 0 then
        signedZero ((da.neg != db.neg) && dc.neg)
      else 0.0
    else
      let (n, d) := scaleByTwo s.natAbs e
      ofRatio (s < 0) n d
  | _, _, _ => a * b + c

/-- The remainder of `x / y` truncated toward zero, exact as in IEEE 754: it has the sign
of `x`. NaN for an infinite `x` or a zero `y`; `x` itself for an infinite `y`. -/
def truncRem (x y : Float) : Float :=
  match decode x, decode y with
  | some dx, some dy =>
    if dy.mant = 0 then 0.0 / 0.0 else
    let e := min dx.exp dy.exp
    let mx := dx.mant * Nat.pow 2 (dx.exp - e).toNat
    let my := dy.mant * Nat.pow 2 (dy.exp - e).toNat
    ofDyadic ⟨dx.neg, mx % my, e⟩
  | some _, none => if y.isNaN then y else x
  | none, _ => 0.0 / 0.0

/-- The remainder of `x / y` rounded toward negative infinity: it takes the sign of `y`, and
a zero remainder is a zero of the sign of `y`. A nonzero truncated remainder of the other
sign is moved by one `y`, in one rounded addition. -/
def floorRem (x y : Float) : Float :=
  let m := truncRem x y
  if m == 0.0 then (if signBitSet y then signedZero true else 0.0)
  else if (y < 0.0) != (m < 0.0) then m + y
  else m

end Binary64

end Spacecraft

/-! ## Scalars

The arithmetic that the physical formulas are written in, as a class: the field operations
and decimal literals, the square root, the magnitude, the library power function, fused
multiply-add and the test for a zero divisor. Binary64 is the instance that runs. A formula written once over any
`Scalar` can also be read over the real numbers, where every operation is exact; the class has
no laws, so what holds of that reading is proved of it alone.
-/

namespace Spacecraft

/-- The operations a formula over some kind of number uses. -/
class Scalar (K : Type) extends Add K, Sub K, Mul K, Div K, Neg K, OfScientific K where
  /-- The square root. -/
  sqrt : K → K
  /-- The magnitude. -/
  abs : K → K
  /-- The library power function `x ^ y`. -/
  pow : K → K → K
  /-- `a · b + c`, rounded once. -/
  fma : K → K → K → K
  /-- Whether a divisor is zero. -/
  isZero : K → Bool

/-- Binary64 arithmetic, as the original computes it. -/
instance : Scalar Float where
  sqrt := Float.sqrt
  abs := Float.abs
  pow := Float.pow
  fma := Binary64.fma
  isZero x := x == 0.0

end Spacecraft
