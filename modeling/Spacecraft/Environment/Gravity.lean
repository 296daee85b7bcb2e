import Spacecraft.Dynamics.State

/-!
# Gravity of the Earth

Point-mass gravity plus the zonal harmonics J2, J3 and J4. The zonal terms are symmetric
about the pole, so they are evaluated directly in the inertial frame. Each term is a
compiled kernel of plain products and quotients (integer powers are repeated products), in
which a zero divisor is a division by zero. The field refuses radii below a minimum, the
harmonic series' limit of validity; the bare acceleration does not check.

The series is written once over any `Scalar`: binary64 runs it, and read over the real
numbers it is the exact field, of which the acceleration is the negative gradient of the
potential.
-/

namespace Spacecraft

/-- Highest zonal degree of the gravity model. -/
inductive GravityModel where
  | pointMass
  | j2
  | j3
  | j4
deriving Inhabited, BEq, Repr

namespace GravityModel

/-- The model of a highest degree: 0, 2, 3 or 4; any other degree is refused. -/
def ofDegree (n : Int) : Outcome GravityModel :=
  match n with
  | 0 => .ok .pointMass
  | 2 => .ok .j2
  | 3 => .ok .j3
  | 4 => .ok .j4
  | _ => .error (.invalidArgument (toString n ++ " is not a valid GravityModel"))

/-- The highest zonal degree. -/
def degree : GravityModel → Nat
  | .pointMass => 0
  | .j2 => 2
  | .j3 => 3
  | .j4 => 4

end GravityModel

/-- A zonal series over some kind of number: the highest degree of its terms, the
gravitational parameter, the reference radius and the zonal coefficients J2, J3 and J4. -/
structure ZonalSeries (K : Type) where
  degree : Nat
  mu : K
  radius : K
  j2 : K
  j3 : K
  j4 : K

namespace ZonalSeries

variable {K : Type} [Scalar K]

/-- Componentwise sum of two triples. -/
def add3 (a b : K × K × K) : K × K × K := (a.1 + b.1, a.2.1 + b.2.1, a.2.2 + b.2.2)

/-- Keplerian acceleration `-μ r / |r|³`. -/
def pointMass (mu x y z : K) : Outcome (K × K × K) := do
  let rSq := x * x + y * y + z * z
  let r := Scalar.sqrt rSq
  let g ← checkedDiv Fault.kernelDivision mu (rSq * r)
  pure (-g * x, -g * y, -g * z)

/-- The J2 (oblateness) acceleration. -/
def j2Term (mu req j2 x y z : K) : Outcome (K × K × K) := do
  let rSq := x * x + y * y + z * z
  let r := Scalar.sqrt rSq
  let r5 := rSq * rSq * r
  let s ← checkedDiv Fault.kernelDivision (z * z) rSq
  let factor ← checkedDiv Fault.kernelDivision (-1.5 * j2 * mu * req * req) r5
  pure (factor * x * (1.0 - 5.0 * s), factor * y * (1.0 - 5.0 * s),
    factor * z * (3.0 - 5.0 * s))

/-- The J3 (north/south asymmetry) acceleration. -/
def j3Term (mu req j3 x y z : K) : Outcome (K × K × K) := do
  let rSq := x * x + y * y + z * z
  let r := Scalar.sqrt rSq
  let r7 := rSq * rSq * rSq * r
  let factor ← checkedDiv Fault.kernelDivision (-2.5 * j3 * mu * (req * (req * req))) r7
  let horizontal := 3.0 * z - (← checkedDiv Fault.kernelDivision (7.0 * (z * (z * z))) rSq)
  let zz := 6.0 * z * z - (← checkedDiv Fault.kernelDivision (7.0 * ((z * z) * (z * z))) rSq) -
    0.6 * rSq
  pure (factor * x * horizontal, factor * y * horizontal, factor * zz)

/-- The J4 acceleration. -/
def j4Term (mu req j4 x y z : K) : Outcome (K × K × K) := do
  let rSq := x * x + y * y + z * z
  let r := Scalar.sqrt rSq
  let r7 := rSq * rSq * rSq * r
  let s ← checkedDiv Fault.kernelDivision (z * z) rSq
  let factor ← checkedDiv Fault.kernelDivision (1.875 * j4 * mu * ((req * req) * (req * req))) r7
  let horizontal := 1.0 - 14.0 * s + 21.0 * s * s
  pure (factor * x * horizontal, factor * y * horizontal,
    factor * z * (5.0 - 70.0 * s / 3.0 + 21.0 * s * s))

/-- The acceleration at a point: the point mass, then each zonal term up to the series'
degree added on. -/
def acceleration (S : ZonalSeries K) (p : K × K × K) : Outcome (K × K × K) := do
  let (x, y, z) := p
  let a ← pointMass S.mu x y z
  let a ← if S.degree ≥ 2 then add3 a <$> j2Term S.mu S.radius S.j2 x y z else pure a
  let a ← if S.degree ≥ 3 then add3 a <$> j3Term S.mu S.radius S.j3 x y z else pure a
  if S.degree ≥ 4 then add3 a <$> j4Term S.mu S.radius S.j4 x y z else pure a

/-- The length `√(x² + y² + z²)`, the squares accumulated by fused multiply-add from zero as
`Vec3.norm` does. -/
def length (x y z : K) : K := Scalar.sqrt (Scalar.fma z z (Scalar.fma y y (Scalar.fma x x 0.0)))

/-- The potential per unit mass at a point, zero at infinity: `-μ/r (1 + corrections)`, with
powers taken by the library power function. -/
def potential (S : ZonalSeries K) (p : K × K × K) : Outcome K := do
  let (x, y, z) := p
  let r := length x y z
  let s ← checkedDiv Fault.floatDivision z r
  let ratio ← checkedDiv Fault.floatDivision S.radius r
  let d := S.degree
  let c := 0.0
  let c := if d ≥ 2 then
      c - S.j2 * Scalar.pow ratio 2.0 * 0.5 * (3.0 * Scalar.pow s 2.0 - 1.0) else c
  let c := if d ≥ 3 then
      c - S.j3 * Scalar.pow ratio 3.0 * 0.5 * (5.0 * Scalar.pow s 3.0 - 3.0 * s) else c
  let c := if d ≥ 4 then
      c - S.j4 * Scalar.pow ratio 4.0 * 0.125 *
        (35.0 * Scalar.pow s 4.0 - 30.0 * Scalar.pow s 2.0 + 3.0) else c
  let q ← checkedDiv Fault.floatDivision (-S.mu) r
  pure (q * (1.0 + c))

end ZonalSeries

/-- A gravity field: model, gravitational parameter, reference radius of the series and
minimum radius of evaluation. -/
structure GravityField where
  model : GravityModel := .pointMass
  mu : Float := muEarth
  radius : Float := earthRadius
  minRadius : Float := minGravityRadius
deriving Inhabited

namespace GravityField

/-- The zonal series of the field, with the Earth's coefficients up to the model's degree. -/
def series (g : GravityField) : ZonalSeries Float :=
  { degree := g.model.degree, mu := g.mu, radius := g.radius,
    j2 := zonalJ2, j3 := zonalJ3, j4 := zonalJ4 }

/-- The acceleration without the domain check. -/
def acceleration (g : GravityField) (p : Vec3) : Outcome Vec3 :=
  Vec3.ofTriple <$> g.series.acceleration p.toTriple

/-- The gravitational acceleration at an inertial position, refused below the minimum
radius. -/
def field (g : GravityField) (t : Float) (p : Vec3) : Outcome Vec3 := do
  let r := p.norm
  if r < g.minRadius then
    throw (.outsideDomain ("Gravity field evaluated at radius " ++ Notation.fixed 1 r ++
      " m, below " ++ Notation.fixed 1 g.minRadius ++ " m") (some t) (some p.toList))
  g.acceleration p

/-- The potential per unit mass, zero at infinity. -/
def potential (g : GravityField) (p : Vec3) : Outcome Float := g.series.potential p.toTriple

end GravityField

/-- Speed on a circular orbit at an altitude above the equatorial radius. -/
def circularVelocity (altitude : Float) (mu : Float := muEarth) : Outcome Float := do
  let q ← divOrFault mu (earthRadius + altitude)
  pure q.sqrt

/-- Period of a circular orbit at an altitude above the equatorial radius. -/
def orbitalPeriod (altitude : Float) (mu : Float := muEarth) : Outcome Float := do
  let r := earthRadius + altitude
  let q ← divOrFault (Float.pow r 3.0) mu
  pure (2.0 * pi * q.sqrt)

end Spacecraft
