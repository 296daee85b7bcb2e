import Spacecraft.Fault
import Spacecraft.Numeric.Vec3

/-!
# Eclipses by the Earth

Two shadow geometries. In the cylindrical one the umbra is a cylinder of the Earth's radius
behind the Earth, and a point is either lit or dark. In the conical one the Sun and the
Earth are disks seen from the satellite, and the light is the visible fraction of the solar
disk, so the penumbra is graded.
-/

namespace Spacecraft

/-- The geometry of the Earth's shadow. -/
inductive ShadowModel where
  | cylindrical
  | conical
deriving Inhabited, BEq, Repr

namespace ShadowModel

/-- The model of a name: `cylindrical` or `conical`. -/
def ofName? : String → Option ShadowModel
  | "cylindrical" => some .cylindrical
  | "conical" => some .conical
  | _ => none

/-- The name of a model. -/
def name : ShadowModel → String
  | .cylindrical => "cylindrical"
  | .conical => "conical"

end ShadowModel

namespace Eclipse

/-- Whether a point lies in the cylindrical umbra behind a body of the given radius, for
geocentric positions of the point and of the Sun. -/
def inCylinder (p sun : Vec3) (radius : Float := earthRadius) : Bool :=
  let dir := sun.divScalar sun.norm
  let along := p.dot dir
  if along >= 0.0 then false
  else (p - Vec3.smul along dir).norm < radius

/-- The smaller of two numbers, keeping the first unless the second is below it. -/
def lesser (a b : Float) : Float := if b < a then b else a

/-- The larger of two numbers, keeping the first unless the second is above it. -/
def greater (a b : Float) : Float := if b > a then b else a

/-- The visible fraction of the solar disk, 0 in the umbra and 1 in full light. The apparent
radii of the two disks and their separation decide between full light, umbra, an annulus
and a partial overlap of two circles. -/
def visibleFraction (p sun : Vec3) (radius : Float := earthRadius)
    (sunRad : Float := sunRadius) : Outcome Float := do
  let toSun := sun - p
  let r := p.norm
  let d := toSun.norm
  let a := (lesser (← divOrFault sunRad d) 1.0).asin
  let b := (lesser (← divOrFault radius r) 1.0).asin
  let cosC ← divOrFault ((-p).dot toSun) (r * d)
  let c := (clamp cosC (-1.0) 1.0).acos
  if c >= a + b then return 1.0
  if c <= b - a then return 0.0
  if c <= a - b then return 1.0 - (b * b) / (a * a)
  let x ← divOrFault (c * c + a * a - b * b) (2.0 * c)
  let y := (greater (a * a - x * x) 0.0).sqrt
  let overlap := a * a * (clamp (x / a) (-1.0) 1.0).acos +
    b * b * (clamp ((c - x) / b) (-1.0) 1.0).acos - c * y
  return clamp (1.0 - overlap / (pi * a * a)) 0.0 1.0

/-- The light factor, from 0 to 1, under a shadow model. -/
def illumination (p sun : Vec3) (model : ShadowModel := .cylindrical)
    (radius : Float := earthRadius) : Outcome Float :=
  match model with
  | .cylindrical => pure (if inCylinder p sun radius then 0.0 else 1.0)
  | .conical => visibleFraction p sun radius

end Eclipse

end Spacecraft
