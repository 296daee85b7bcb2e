import Spacecraft.Environment.Gravity
import Spacecraft.Environment.Atmosphere
import Spacecraft.Environment.Geomagnetic
import Spacecraft.Environment.SunMoon
import Spacecraft.Environment.Eclipse

/-!
# The Earth environment of one run

The models a satellite meets around the Earth, anchored at the epoch of a run: gravity,
atmosphere, geomagnetic field, the Sun and the Moon, and the Earth's shadow. Each is a
function of the time since the epoch and of the inertial position, and may refuse a point
outside its domain.
-/

namespace Spacecraft

/-- The environment models of a run starting at `epoch`. -/
structure Environment where
  epoch : Epoch := Epoch.j2000
  gravity : GravityField := {}
  atmosphere : Atmosphere := {}
  magnetic : Dipole := Dipole.make Epoch.j2000
  shadowModel : ShadowModel := .cylindrical
deriving Inhabited

/-- Everything the environment gives at one time and position. -/
structure EnvironmentSample where
  time : Float
  position : Vec3
  gravity : Vec3
  density : Float
  magneticField : Vec3
  sunPosition : Vec3
  moonPosition : Vec3
  illumination : Float

/-- The Sun is fully hidden exactly when no light is left. -/
def EnvironmentSample.inShadow (s : EnvironmentSample) : Bool := s.illumination == 0.0

namespace Environment

/-- The default Earth environment at an epoch. -/
def earth (epoch : Epoch := Epoch.j2000) (model : GravityModel := .pointMass)
    (shadow : ShadowModel := .cylindrical) : Environment :=
  { epoch, gravity := { model }, magnetic := Dipole.make epoch, shadowModel := shadow }

/-- The geocentric Sun position [m] at time `t`. -/
def sun (env : Environment) (t : Float) : Vec3 := SunMoon.sun env.epoch t

/-- The geocentric Moon position [m] at time `t`. -/
def moon (env : Environment) (t : Float) : Vec3 := SunMoon.moon env.epoch t

/-- The light factor at a time and position. -/
def illumination (env : Environment) (t : Float) (p : Vec3) : Outcome Float :=
  Eclipse.illumination p (env.sun t) env.shadowModel

/-- Every model evaluated at one time and position; the first refusal stops the sample. -/
def sample (env : Environment) (t : Float) (p : Vec3) : Outcome EnvironmentSample := do
  let sunPosition := env.sun t
  let gravity ← env.gravity.field t p
  let density ← env.atmosphere.field t p
  let magneticField ← env.magnetic.field t p
  let light ← Eclipse.illumination p sunPosition env.shadowModel
  pure ⟨t, p, gravity, density, magneticField, sunPosition, env.moon t, light⟩

end Environment

end Spacecraft
