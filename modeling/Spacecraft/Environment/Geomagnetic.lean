import Spacecraft.Time.Epoch
import Spacecraft.Fault
import Spacecraft.Numeric.Vec3

/-!
# Geomagnetic field

The geomagnetic field as a centred dipole fixed in the Earth, from the degree-one Gauss
coefficients of the 2020 reference field:

  B = (R/r)³ · (3 (g · r̂) r̂ − g),   g = (g11, h11, g10).

The dipole turns with the Earth; the Earth-fixed frame follows the inertial one by the
Greenwich mean sidereal angle, which advances at the Earth's rotation rate.
-/

namespace Spacecraft

/-- Julian date of the J2000 epoch. -/
def julianJ2000 : Float := 2451545.0

/-- Greenwich mean sidereal angle [rad] at `seconds` after an epoch, reduced to one turn
in degrees before the conversion. -/
def Epoch.siderealAngle (e : Epoch) (seconds : Float := 0.0) : Float :=
  let days := e.julianDate seconds - julianJ2000
  radians (Binary64.floorRem (280.46061837 + 360.98564736629 * days) 360.0)

/-- A tilted dipole field: the sidereal angle at time zero, the reference radius of the
coefficients [m] and the dipole vector in the Earth-fixed frame [T]. -/
structure Dipole where
  angle0 : Float
  referenceRadius : Float
  moment : Vec3
deriving Inhabited

namespace Dipole

/-- The axial coefficient g10 of the 2020 field [nT]. -/
def g10 : Float := -29404.8
/-- The equatorial coefficient g11 of the 2020 field [nT]. -/
def g11 : Float := -1450.9
/-- The equatorial coefficient h11 of the 2020 field [nT]. -/
def h11 : Float := 4652.5
/-- The radius the coefficients refer to [m]. -/
def igrfRadius : Float := 6371200.0

/-- The dipole of an epoch and coefficients [nT]. -/
def make (epoch : Epoch) (c10 : Float := g10) (c11 : Float := g11) (s11 : Float := h11)
    (radius : Float := igrfRadius) : Dipole :=
  ⟨epoch.siderealAngle, radius, Vec3.mulScalar ⟨c11, s11, c10⟩ 1.0e-9⟩

/-- The rotation taking inertial components to Earth-fixed ones at time `t`. -/
def earthRotation (d : Dipole) (t : Float) : Mat3 :=
  let theta := d.angle0 + earthRate * t
  let c := theta.cos
  let s := theta.sin
  ⟨⟨c, s, 0.0⟩, ⟨-s, c, 0.0⟩, ⟨0.0, 0.0, 1.0⟩⟩

/-- The field [T] in the Earth-fixed frame at an Earth-fixed position [m]; the centre
itself is a division by zero. -/
def fieldFixed (d : Dipole) (p : Vec3) : Outcome Vec3 := do
  let r := p.norm
  let unit := p.divScalar r
  let g := d.moment
  let ratio ← divOrFault d.referenceRadius r
  let scale := Float.pow ratio 3.0
  pure (Vec3.smul scale (Vec3.smul (3.0 * g.dot unit) unit - g))

/-- The field [T] in the inertial frame at an inertial position [m] at time `t`. -/
def field (d : Dipole) (t : Float) (p : Vec3) : Outcome Vec3 := do
  let rotation := d.earthRotation t
  let b ← d.fieldFixed (rotation.mulVec p)
  pure (rotation.tmulVec b)

/-- The field strength [T] on the equator at the surface. -/
def surfaceStrength (d : Dipole) : Float :=
  d.moment.norm * Float.pow (d.referenceRadius / earthRadius) 3.0

end Dipole

end Spacecraft
