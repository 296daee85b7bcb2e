import Spacecraft.Environment.Earth
import Spacecraft.Satellite.Body

/-!
# Forces on the satellite

Every force model gives the inertial force [N] on the satellite at a time and state:

* central gravity: the mass times the gravity field (point mass and zonal terms);
* atmospheric drag, against the velocity relative to an atmosphere turning with the Earth:
  `F = -½ ρ C_d A |v_rel| v_rel` with `v_rel = v - ω_E × r`;
* solar radiation pressure, pushing away from the Sun with `P (AU/d)² C_r A` times the light
  factor, exactly zero in the umbra;
* the attraction of the Sun or the Moon as a third body, the direct pull less the pull on
  the Earth: `μ_b ((r_b - r)/|r_b - r|³ - r_b/|r_b|³)`.
-/

namespace Spacecraft

/-- Gravitational parameter of the Sun [m³/s²]. -/
def muSun : Float := 1.32712440018e20

/-- Gravitational parameter of the Moon [m³/s²]. -/
def muMoon : Float := 4.9048695e12

/-- Radiation pressure of sunlight at one astronomical unit [N/m²]. -/
def solarPressure : Float := 4.56e-6

/-- The perturbing acceleration of a point mass `mu` at `bodyPosition` on a satellite at
`p`, both geocentric. -/
def thirdBodyAcceleration (p bodyPosition : Vec3) (mu : Float) : Vec3 :=
  let toBody := bodyPosition - p
  let dSat := toBody.norm
  let dBody := bodyPosition.norm
  Vec3.smul mu (toBody.divScalar (Float.pow dSat 3.0) - bodyPosition.divScalar (Float.pow dBody 3.0))

/-- The third bodies the model knows. -/
inductive ThirdBody where
  | sun
  | moon
deriving Inhabited, BEq

/-- A force model. -/
inductive ForceModel where
  | gravity (field : GravityField)
  | drag (atmosphere : Atmosphere) (earthRate : Float)
  | radiation (epoch : Epoch) (shadow : ShadowModel) (pressure : Float)
  | thirdBody (body : ThirdBody) (epoch : Epoch)
deriving Inhabited

namespace ForceModel

/-- The name a force model reports its contribution under. -/
def name : ForceModel → String
  | .gravity _ => "central_gravity"
  | .drag .. => "atmospheric_drag"
  | .radiation .. => "solar_radiation_pressure"
  | .thirdBody .sun _ => "sun_third_body"
  | .thirdBody .moon _ => "moon_third_body"

/-- The velocity relative to an atmosphere turning about the pole at `rate`. -/
def relativeVelocity (rate : Float) (s : SatState) : Vec3 :=
  s.velocity - (⟨0.0, 0.0, rate⟩ : Vec3).cross s.position

/-- The radiation force for explicit satellite and Sun positions. -/
def radiationAt (shadow : ShadowModel) (pressure : Float) (p sun : Vec3) (b : Body) :
    Outcome Vec3 := do
  let lit ← Eclipse.illumination p sun shadow
  if lit == 0.0 then return Vec3.zero
  let away := p - sun
  let d := away.norm
  let ratio ← divOrFault astronomicalUnit d
  let magnitude := pressure * Float.pow ratio 2.0 * b.radiationCoefficient * b.radiationArea * lit
  return (Vec3.smul magnitude away).divScalar d

/-- The force [N] on the satellite in the inertial frame. -/
def force (f : ForceModel) (t : Float) (s : SatState) (b : Body) : Outcome Vec3 :=
  match f with
  | .gravity field => Vec3.smul s.mass <$> field.field t s.position
  | .drag atmosphere rate => do
    let rho ← atmosphere.field t s.position
    if rho == 0.0 then return Vec3.zero
    let v := relativeVelocity rate s
    return Vec3.smul (-0.5 * rho * b.dragCoefficient * b.dragArea * v.norm) v
  | .radiation epoch shadow pressure => radiationAt shadow pressure s.position (SunMoon.sun epoch t) b
  | .thirdBody .sun epoch =>
    pure (Vec3.smul s.mass (thirdBodyAcceleration s.position (SunMoon.sun epoch t) muSun))
  | .thirdBody .moon epoch =>
    pure (Vec3.smul s.mass (thirdBodyAcceleration s.position (SunMoon.moon epoch t) muMoon))

end ForceModel

end Spacecraft
