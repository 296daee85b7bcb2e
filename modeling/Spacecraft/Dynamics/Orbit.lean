import Spacecraft.Dynamics.State

/-!
# Initial states on orbits

Position and velocity of a circular orbit (altitude above the equatorial radius,
inclination, right ascension of the ascending node and argument of latitude, in degrees)
and of a closed Keplerian orbit (semi-major axis, eccentricity, inclination, node, argument
of perigee and true anomaly). Both are built in the orbit plane and rotated into the
inertial frame by the node rotation, then the inclination rotation (and then the perigee
rotation).
-/

namespace Spacecraft

namespace Orbit

/-- Rotation about the z axis by an angle in radians. -/
def rotZ (a : Float) : Mat3 :=
  ⟨⟨a.cos, -a.sin, 0.0⟩, ⟨a.sin, a.cos, 0.0⟩, ⟨0.0, 0.0, 1.0⟩⟩

/-- Rotation about the x axis by an angle in radians. -/
def rotX (a : Float) : Mat3 :=
  ⟨⟨1.0, 0.0, 0.0⟩, ⟨0.0, a.cos, -a.sin⟩, ⟨0.0, a.sin, a.cos⟩⟩

/-- Position and velocity on a circular orbit; refused when the radius is zero. -/
def circular (altitude inclination raan argLatitude : Float) (mu : Float := muEarth) :
    Outcome (Vec3 × Vec3) := do
  let r := earthRadius + altitude
  let v := (← divOrFault mu r).sqrt
  let inc := radians inclination
  let node := radians raan
  let u := radians argLatitude
  let rOrbit := Vec3.smul r ⟨u.cos, u.sin, 0.0⟩
  let vOrbit := Vec3.smul v ⟨-u.sin, u.cos, 0.0⟩
  let m := (rotZ node).mul (rotX inc)
  pure (m.mulVec rOrbit, m.mulVec vOrbit)

/-- Position and velocity from Keplerian elements of a closed orbit; refused unless
`a > 0` and `0 ≤ e < 1`. -/
def ofElements (a e inclination raan argPerigee trueAnomaly : Float) (mu : Float := muEarth) :
    Outcome (Vec3 × Vec3) := do
  if a ≤ 0.0 || !(0.0 ≤ e && e < 1.0) then
    throw (.invalidArgument ("Need a > 0 and 0 <= e < 1, got a=" ++ Notation.shortest a ++
      ", e=" ++ Notation.shortest e))
  let p := a * (1.0 - Float.pow e 2.0)
  let nu := radians trueAnomaly
  let r := p / (1.0 + e * nu.cos)
  let rPqw := Vec3.smul r ⟨nu.cos, nu.sin, 0.0⟩
  let vPqw := Vec3.smul (← divOrFault mu p).sqrt ⟨-nu.sin, e + nu.cos, 0.0⟩
  let m := ((rotZ (radians raan)).mul (rotX (radians inclination))).mul (rotZ (radians argPerigee))
  pure (m.mulVec rPqw, m.mulVec vPqw)

end Orbit

end Spacecraft
