import Spacecraft.Numeric.Eigen
import Spacecraft.Json.Value
import Spacecraft.Dynamics.State

/-!
# The satellite body

The rigid body shared by every force and torque model of a run: mass, inertia tensor, box
dimensions, drag and radiation coefficients and areas, residual magnetic dipole and the
saturation of the magnetorquers. A body is checked once when it is built and never changes.
-/

namespace Spacecraft

/-- A rigid satellite body. -/
structure Body where
  mass : Float
  inertia : Mat3
  dimensions : Vec3
  dragCoefficient : Float
  dragArea : Float
  radiationCoefficient : Float
  radiationArea : Float
  residualDipole : Vec3
  maxDipole : Float
  name : String
deriving Inhabited

/-- The parts of a body before it is checked; the arrays are as given. -/
structure BodySpec where
  mass : Float := 1.04
  inertia : List (List Float) := [[1.9002e-3, 0.0, 0.0], [0.0, 1.9156e-3, 0.0], [0.0, 0.0, 1.9496e-3]]
  dimensions : List Float := [0.1, 0.1, 0.1]
  dragCoefficient : Float := 2.2
  dragArea : Float := 0.1 * 0.1
  radiationCoefficient : Float := 1.8
  radiationArea : Float := 0.1 * 0.1
  residualDipole : List Float := [0.0, 0.0, 0.0]
  maxDipole : Float := 0.1
  name : String := "satellite"

namespace Body

/-- Whether `a` is within a relative `1e-9` of `b`; equal infinities count as close. -/
def nearlyEqual (a b : Float) : Bool :=
  a == b || (a - b).abs ≤ 1.0e-9 * b.abs

/-- Whether two numbers agree within `1e-8 + 1e-5 |b|`; equal infinities count as close. -/
def close (a b : Float) : Bool :=
  a == b || (a - b).abs ≤ 1.0e-8 + 1.0e-5 * b.abs

/-- The checked body of a spec. The mass must be finite and positive, the inertia a
symmetric positive definite 3×3 matrix, the dimensions three positive lengths and the
coefficients, areas and saturation non-negative. -/
def ofSpec (s : BodySpec) : Outcome Body := do
  let refuse (text : String) : Outcome Unit := throw (.configuration text)
  if !s.mass.isFinite || s.mass ≤ 0.0 then
    refuse ("Mass must be positive, got " ++ Notation.shortest s.mass)
  let some inertia := Mat3.ofLists? s.inertia
    | throw (.configuration ("Inertia must be shape (3, 3), got " ++ shapeText2 s.inertia))
  let pairs := (List.finRange 3).flatMap fun i => (List.finRange 3).map fun j => (i, j)
  if !pairs.all (fun (i, j) => nearlyEqual (inertia.get i j) (inertia.get j i)) then
    refuse "Inertia tensor must be symmetric"
  let moments ← Eigen.symmetricValues inertia
  if moments.any (· ≤ 0.0) then refuse "Inertia tensor must be positive definite"
  let dims? := Vec3.ofList? s.dimensions
  if dims?.isNone || s.dimensions.any (· ≤ 0.0) then
    refuse ("Dimensions must be 3 positive lengths, got " ++ Notation.row 8 s.dimensions)
  let some dipole := Vec3.ofList? s.residualDipole
    | throw (.configuration ("Residual dipole must be shape (3,), got " ++
        shapeText s.residualDipole.length))
  for (label, value) in [("drag_coefficient", s.dragCoefficient), ("drag_area", s.dragArea),
      ("radiation_coefficient", s.radiationCoefficient), ("radiation_area", s.radiationArea),
      ("max_dipole", s.maxDipole)] do
    if value < 0.0 then refuse (label ++ " must be non-negative, got " ++ Notation.shortest value)
  pure ⟨s.mass, inertia, dims?.getD Vec3.zero, s.dragCoefficient, s.dragArea,
    s.radiationCoefficient, s.radiationArea, dipole, s.maxDipole, s.name⟩

/-- The reference 1U CubeSat: a 10 cm cube of 1.04 kg. -/
def cubesat (name : String := "cubesat-1u") : Body :=
  ⟨1.04, Mat3.diag ⟨1.9002e-3, 1.9156e-3, 1.9496e-3⟩, ⟨0.1, 0.1, 0.1⟩, 2.2, 0.1 * 0.1, 1.8,
    0.1 * 0.1, Vec3.zero, 0.1, name⟩

/-- The spec of a box of uniform density with edges `a, b, c`: its inertia, and the face
`b × c` as drag and radiation area where no area is given. -/
def uniformBox (base : BodySpec) (mass : Float) (edges : List Float)
    (dragArea radiationArea : Option Float) : Outcome BodySpec := do
  let (a, b, c) ← match edges with
    | [a, b, c] => pure (a, b, c)
    | _ => throw (.invalidArgument (if edges.length < 3
        then "not enough values to unpack (expected 3, got " ++ toString edges.length ++ ")"
        else "too many values to unpack (expected 3)"))
  let k := mass / 12.0
  let inertia := [[k * (b * b + c * c), k * 0.0, k * 0.0], [k * 0.0, k * (a * a + c * c), k * 0.0],
    [k * 0.0, k * 0.0, k * (a * a + b * b)]]
  pure { base with
    mass := mass, inertia := inertia, dimensions := [a, b, c],
    dragArea := dragArea.getD (b * c), radiationArea := radiationArea.getD (b * c) }

/-- The principal moments of inertia, in increasing order. -/
def principalMoments (b : Body) : Outcome (List Float) := Eigen.symmetricValues b.inertia

/-- Whether two principal moments coincide (to within `1e-5` relative). -/
def isAxisymmetric (b : Body) : Outcome Bool := do
  let m ← b.principalMoments
  match m with
  | [m0, m1, m2] => pure (close m0 m1 || close m1 m2)
  | _ => pure false

/-- Mass over drag coefficient times area [kg/m²]; infinite without a drag area. -/
def ballisticCoefficient (b : Body) : Float :=
  let denominator := b.dragCoefficient * b.dragArea
  if denominator == 0.0 then Binary64.signedInf false else b.mass / denominator

end Body

end Spacecraft
