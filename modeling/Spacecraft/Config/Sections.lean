import Spacecraft.Config.Setting
import Spacecraft.Satellite.Body
import Spacecraft.Numeric.Vec3

/-!
# The sections of a run description

Each section of a run description as a structure with its defaults, the settings it reads,
its JSON form (every value as it was stored, list entries as written) and its validation.
Validation refuses the first value out of range, with the message naming it; the checks of
one section run in the order listed in its `validate`.
-/

namespace Spacecraft

/-- Floats as JSON list entries. -/
def floatEntries (xs : List Float) : List Json := xs.map .float

/-- Refuses a run description. -/
def refuse {α : Type} (text : String) : Outcome α := throw (.configuration text)

/-- Whether a list of numbers is long enough to be a direction: its length is at least
`1e-12`. -/
def isNonZero (q : List Float) : Bool := !(normList q < 1.0e-12)

/-- Integration method and limits. -/
structure IntegratorSettings where
  method : String := "rk4"
  stepSize : Float := 0.1
  atol : Float := 1.0e-9
  rtol : Float := 1.0e-9
  minStep : Float := 1.0e-6
  maxStep : Float := 60.0
  maxRejections : Whole := .int 20
  maxSteps : Whole := .int 10000000
  maxPositionNorm : Float := 1.0e10
deriving Inhabited

namespace IntegratorSettings

/-- The settings of the section. -/
def settings : List (Setting IntegratorSettings) :=
  [.text "method" fun s v => { s with method := v },
   .number "step_size" fun s v => { s with stepSize := v },
   .number "atol" fun s v => { s with atol := v },
   .number "rtol" fun s v => { s with rtol := v },
   .number "min_step" fun s v => { s with minStep := v },
   .number "max_step" fun s v => { s with maxStep := v },
   .whole "max_rejections" fun s v => { s with maxRejections := v },
   .whole "max_steps" fun s v => { s with maxSteps := v },
   .number "max_position_norm" fun s v => { s with maxPositionNorm := v }]

/-- The section as a JSON object. -/
def toJson (c : IntegratorSettings) : Json :=
  .obj [("method", .str c.method), ("step_size", .float c.stepSize), ("atol", .float c.atol),
    ("rtol", .float c.rtol), ("min_step", .float c.minStep), ("max_step", .float c.maxStep),
    ("max_rejections", c.maxRejections.toJson), ("max_steps", c.maxSteps.toJson),
    ("max_position_norm", .float c.maxPositionNorm)]

/-- Checks the method, the step, the tolerances and the limits. -/
def validate (c : IntegratorSettings) : Outcome Unit := do
  unless ["rk4", "dopri45"].contains c.method do
    refuse ("Unknown integrator '" ++ c.method ++ "', expected one of ('rk4', 'dopri45')")
  if c.stepSize ≤ 0.0 then refuse ("step_size must be positive, got " ++ Notation.shortest c.stepSize)
  if c.atol ≤ 0.0 || c.rtol < 0.0 then refuse "Tolerances must be positive"
  unless 0.0 < c.minStep && c.minStep ≤ c.maxStep do refuse "Need 0 < min_step <= max_step"
  if c.maxRejections.value < 1 || c.maxSteps.value < 1 then
    refuse "max_rejections and max_steps must be at least 1"
  if c.maxPositionNorm ≤ 0.0 then refuse "max_position_norm must be positive"

end IntegratorSettings

/-- Which forces act. -/
structure ForceSettings where
  gravity : Bool := true
  gravityDegree : Whole := .int 0
  drag : Bool := false
  solarRadiation : Bool := false
  shadowModel : String := "cylindrical"
  sunThirdBody : Bool := false
  moonThirdBody : Bool := false
deriving Inhabited

namespace ForceSettings

/-- The settings of the section. -/
def settings : List (Setting ForceSettings) :=
  [.flag "gravity" fun s v => { s with gravity := v },
   .whole "gravity_degree" fun s v => { s with gravityDegree := v },
   .flag "drag" fun s v => { s with drag := v },
   .flag "solar_radiation" fun s v => { s with solarRadiation := v },
   .text "shadow_model" fun s v => { s with shadowModel := v },
   .flag "sun_third_body" fun s v => { s with sunThirdBody := v },
   .flag "moon_third_body" fun s v => { s with moonThirdBody := v }]

/-- The section as a JSON object. -/
def toJson (c : ForceSettings) : Json :=
  .obj [("gravity", .bool c.gravity), ("gravity_degree", c.gravityDegree.toJson),
    ("drag", .bool c.drag), ("solar_radiation", .bool c.solarRadiation),
    ("shadow_model", .str c.shadowModel), ("sun_third_body", .bool c.sunThirdBody),
    ("moon_third_body", .bool c.moonThirdBody)]

/-- Checks the gravity degree and the shadow model. -/
def validate (c : ForceSettings) : Outcome Unit := do
  unless [0, 2, 3, 4].contains c.gravityDegree.value do
    refuse ("gravity_degree must be one of (0, 2, 3, 4), got " ++ c.gravityDegree.text)
  unless ["cylindrical", "conical"].contains c.shadowModel do
    refuse ("shadow_model must be one of ('cylindrical', 'conical'), got '" ++ c.shadowModel ++ "'")

end ForceSettings

/-- Open-loop torques and the closed-loop law. -/
structure TorqueSettings where
  law : Option String := none
  scenario : List Json := []
  scenarioIntensity : Float := 0.1
  gravityGradient : Bool := false
  residualMagnetic : Bool := false
  randomDisturbance : Float := 0.0
  seed : Whole := .int 0
  detumbleThreshold : Float := 0.01
  kp : Float := 2.0e-4
  kd : Float := 8.0e-4
  ki : Float := 0.0
  maxTorque : Option Float := none
  detumbleSensing : String := "ideal"
  bdotGain : Float := 5.4e4
  bdotTimeConstant : Float := 5.0
  bdotSamplePeriod : Float := 0.1
  magnetometerNoise : Float := 1.0e-7
  gyrometerNoise : Float := 0.0
deriving Inhabited

namespace TorqueSettings

/-- The settings of the section. -/
def settings : List (Setting TorqueSettings) :=
  [.optionalText "law" fun s v => { s with law := v },
   .list "scenario" fun s v => { s with scenario := v },
   .number "scenario_intensity" fun s v => { s with scenarioIntensity := v },
   .flag "gravity_gradient" fun s v => { s with gravityGradient := v },
   .flag "residual_magnetic" fun s v => { s with residualMagnetic := v },
   .number "random_disturbance" fun s v => { s with randomDisturbance := v },
   .whole "seed" fun s v => { s with seed := v },
   .number "detumble_threshold" fun s v => { s with detumbleThreshold := v },
   .number "kp" fun s v => { s with kp := v },
   .number "kd" fun s v => { s with kd := v },
   .number "ki" fun s v => { s with ki := v },
   .optionalNumber "max_torque" fun s v => { s with maxTorque := v },
   .text "detumble_sensing" fun s v => { s with detumbleSensing := v },
   .number "bdot_gain" fun s v => { s with bdotGain := v },
   .number "bdot_time_constant" fun s v => { s with bdotTimeConstant := v },
   .number "bdot_sample_period" fun s v => { s with bdotSamplePeriod := v },
   .number "magnetometer_noise" fun s v => { s with magnetometerNoise := v },
   .number "gyrometer_noise" fun s v => { s with gyrometerNoise := v }]

/-- The section as a JSON object. -/
def toJson (c : TorqueSettings) : Json :=
  .obj [("law", (c.law.map Json.str).getD .null), ("scenario", .arr c.scenario),
    ("scenario_intensity", .float c.scenarioIntensity), ("gravity_gradient", .bool c.gravityGradient),
    ("residual_magnetic", .bool c.residualMagnetic), ("random_disturbance", .float c.randomDisturbance),
    ("seed", c.seed.toJson), ("detumble_threshold", .float c.detumbleThreshold),
    ("kp", .float c.kp), ("kd", .float c.kd), ("ki", .float c.ki),
    ("max_torque", (c.maxTorque.map Json.float).getD .null),
    ("detumble_sensing", .str c.detumbleSensing), ("bdot_gain", .float c.bdotGain),
    ("bdot_time_constant", .float c.bdotTimeConstant),
    ("bdot_sample_period", .float c.bdotSamplePeriod),
    ("magnetometer_noise", .float c.magnetometerNoise), ("gyrometer_noise", .float c.gyrometerNoise)]

/-- Checks one scenario step: `[start, duration, [x, y, z]]` of numbers. -/
def checkStep (step : Json) : Outcome Unit := do
  match step with
  | .arr [start, duration, direction] =>
    let _ ← numbers "Scenario start and duration" 2 (.arr [start, duration])
    let _ ← numbers "Scenario direction" 3 direction
  | other => refuse ("Scenario steps must be [start, duration, [x, y, z]], got " ++ other.plainText)

/-- Checks the law, the scenario, the disturbance, the detumbling and the sensors. -/
def validate (c : TorqueSettings) : Outcome Unit := do
  match c.law with
  | none => pure ()
  | some l =>
    unless ["detumble_then_point", "point"].contains l do
      refuse ("Unknown torque law '" ++ l ++ "', expected one of (None, 'detumble_then_point', 'point')")
  c.scenario.forM checkStep
  if c.randomDisturbance < 0.0 then refuse "random_disturbance must be non-negative"
  if c.detumbleThreshold ≤ 0.0 then refuse "detumble_threshold must be positive"
  unless ["ideal", "magnetometer"].contains c.detumbleSensing do
    refuse ("Unknown detumble_sensing '" ++ c.detumbleSensing ++
      "', expected one of ('ideal', 'magnetometer')")
  if c.bdotGain ≤ 0.0 || c.bdotTimeConstant ≤ 0.0 then
    refuse "bdot_gain and bdot_time_constant must be positive"
  if c.bdotSamplePeriod < 0.0 then refuse "bdot_sample_period must be non-negative"
  if c.magnetometerNoise < 0.0 || c.gyrometerNoise < 0.0 then refuse "Sensor noise must be non-negative"

end TorqueSettings

/-- The attitude reference of the torque law. -/
structure GuidanceSettings where
  mode : String := "nadir"
  inertialQuaternion : List Json := floatEntries [1.0, 0.0, 0.0, 0.0]
deriving Inhabited

namespace GuidanceSettings

/-- The settings of the section. -/
def settings : List (Setting GuidanceSettings) :=
  [.text "mode" fun s v => { s with mode := v },
   .list "inertial_quaternion" fun s v => { s with inertialQuaternion := v }]

/-- The section as a JSON object. -/
def toJson (c : GuidanceSettings) : Json :=
  .obj [("mode", .str c.mode), ("inertial_quaternion", .arr c.inertialQuaternion)]

/-- Checks the mode and the fixed attitude. -/
def validate (c : GuidanceSettings) : Outcome Unit := do
  unless ["nadir", "sun", "inertial", "velocity", "dynamic"].contains c.mode do
    refuse ("Unknown guidance mode '" ++ c.mode ++
      "', expected one of ('nadir', 'sun', 'inertial', 'velocity', 'dynamic')")
  let q ← numbers "inertial_quaternion" 4 (.arr c.inertialQuaternion)
  unless isNonZero q do refuse "inertial_quaternion must be non-zero"

end GuidanceSettings

/-- The satellite body. -/
structure BodySettings where
  mass : Float := 1.04
  inertia : List Json := ({} : BodySpec).inertia.map fun row => .arr (floatEntries row)
  dimensions : List Json := floatEntries [0.1, 0.1, 0.1]
  dragCoefficient : Float := 2.2
  dragArea : Float := 0.1 * 0.1
  radiationCoefficient : Float := 1.8
  radiationArea : Float := 0.1 * 0.1
  residualDipole : List Json := floatEntries [0.0, 0.0, 0.0]
  maxDipole : Float := 0.1
  name : String := "cubesat-1u"
deriving Inhabited

namespace BodySettings

/-- The settings of the section. -/
def settings : List (Setting BodySettings) :=
  [.number "mass" fun s v => { s with mass := v },
   .list "inertia" fun s v => { s with inertia := v },
   .list "dimensions" fun s v => { s with dimensions := v },
   .number "drag_coefficient" fun s v => { s with dragCoefficient := v },
   .number "drag_area" fun s v => { s with dragArea := v },
   .number "radiation_coefficient" fun s v => { s with radiationCoefficient := v },
   .number "radiation_area" fun s v => { s with radiationArea := v },
   .list "residual_dipole" fun s v => { s with residualDipole := v },
   .number "max_dipole" fun s v => { s with maxDipole := v },
   .text "name" fun s v => { s with name := v }]

/-- The section as a JSON object. -/
def toJson (c : BodySettings) : Json :=
  .obj [("mass", .float c.mass), ("inertia", .arr c.inertia), ("dimensions", .arr c.dimensions),
    ("drag_coefficient", .float c.dragCoefficient), ("drag_area", .float c.dragArea),
    ("radiation_coefficient", .float c.radiationCoefficient),
    ("radiation_area", .float c.radiationArea), ("residual_dipole", .arr c.residualDipole),
    ("max_dipole", .float c.maxDipole), ("name", .str c.name)]

/-- The body the section describes, checked as every body is. -/
def toBody (c : BodySettings) : Outcome Body := do
  unless c.inertia.length = 3 do refuse ("inertia must be 3x3, got " ++ Json.literal (.arr c.inertia))
  let inertia ← c.inertia.mapM (numbers "inertia row" 3)
  let dimensions ← numbers "dimensions" 3 (.arr c.dimensions)
  let residualDipole ← numbers "residual_dipole" 3 (.arr c.residualDipole)
  let spec : BodySpec :=
    { mass := c.mass, inertia, dimensions, dragCoefficient := c.dragCoefficient,
      dragArea := c.dragArea, radiationCoefficient := c.radiationCoefficient,
      radiationArea := c.radiationArea, residualDipole, maxDipole := c.maxDipole, name := c.name }
  Body.ofSpec spec

end BodySettings

/-- A Cartesian initial state. -/
structure CartesianStart where
  position : List Json := floatEntries [6878137.0, 0.0, 0.0]
  velocity : List Json := floatEntries [0.0, 7612.608, 0.0]
  quaternion : List Json := floatEntries [1.0, 0.0, 0.0, 0.0]
  angularVelocity : List Json := floatEntries [0.0, 0.0, 0.0]
deriving Inhabited

/-- An initial state on a circular orbit; angles in degrees. -/
structure CircularStart where
  altitude : Float := 500.0e3
  inclination : Float := 0.0
  raan : Float := 0.0
  argLatitude : Float := 0.0
  quaternion : List Json := floatEntries [1.0, 0.0, 0.0, 0.0]
  angularVelocity : List Json := floatEntries [0.0, 0.0, 0.0]
deriving Inhabited

/-- An initial state from Keplerian elements; angles in degrees. -/
structure ElementsStart where
  semiMajorAxis : Float := earthRadius + 575.0e3
  eccentricity : Float := 0.0
  inclination : Float := 98.0
  raan : Float := 0.0
  argPerigee : Float := 0.0
  trueAnomaly : Float := 0.0
  quaternion : List Json := floatEntries [1.0, 0.0, 0.0, 0.0]
  angularVelocity : List Json := floatEntries [0.0, 0.0, 0.0]
deriving Inhabited

/-- The initial state of a run, in one of three forms. -/
inductive StartSettings where
  | cartesian (c : CartesianStart)
  | circular (c : CircularStart)
  | elements (c : ElementsStart)
deriving Inhabited

namespace StartSettings

/-- The settings of a Cartesian start. -/
def cartesianSettings : List (Setting CartesianStart) :=
  [.list "position" fun s v => { s with position := v },
   .list "velocity" fun s v => { s with velocity := v },
   .list "quaternion" fun s v => { s with quaternion := v },
   .list "angular_velocity" fun s v => { s with angularVelocity := v }]

/-- The settings of a circular start. -/
def circularSettings : List (Setting CircularStart) :=
  [.number "altitude" fun s v => { s with altitude := v },
   .number "inclination" fun s v => { s with inclination := v },
   .number "raan" fun s v => { s with raan := v },
   .number "arg_latitude" fun s v => { s with argLatitude := v },
   .list "quaternion" fun s v => { s with quaternion := v },
   .list "angular_velocity" fun s v => { s with angularVelocity := v }]

/-- The settings of a start from elements. -/
def elementsSettings : List (Setting ElementsStart) :=
  [.number "semi_major_axis" fun s v => { s with semiMajorAxis := v },
   .number "eccentricity" fun s v => { s with eccentricity := v },
   .number "inclination" fun s v => { s with inclination := v },
   .number "raan" fun s v => { s with raan := v },
   .number "arg_perigee" fun s v => { s with argPerigee := v },
   .number "true_anomaly" fun s v => { s with trueAnomaly := v },
   .list "quaternion" fun s v => { s with quaternion := v },
   .list "angular_velocity" fun s v => { s with angularVelocity := v }]

/-- The start a section describes: Cartesian when it has a position, from elements when it
has a semi-major axis, on a circular orbit otherwise. -/
def read (data : Json) : Outcome StartSettings :=
  if data.has "position" then .cartesian <$> readSection "initial_state" ({} : CartesianStart) cartesianSettings data
  else if data.has "semi_major_axis" then
    .elements <$> readSection "initial_state" ({} : ElementsStart) elementsSettings data
  else .circular <$> readSection "initial_state" ({} : CircularStart) circularSettings data

/-- The name of the form. -/
def kind : StartSettings → String
  | .cartesian _ => "InitialStateConfig"
  | .circular _ => "CircularOrbitConfig"
  | .elements _ => "OrbitalElementsConfig"

/-- The start as a JSON object. -/
def toJson : StartSettings → Json
  | .cartesian c => .obj [("position", .arr c.position), ("velocity", .arr c.velocity),
      ("quaternion", .arr c.quaternion), ("angular_velocity", .arr c.angularVelocity)]
  | .circular c => .obj [("altitude", .float c.altitude), ("inclination", .float c.inclination),
      ("raan", .float c.raan), ("arg_latitude", .float c.argLatitude),
      ("quaternion", .arr c.quaternion), ("angular_velocity", .arr c.angularVelocity)]
  | .elements c => .obj [("semi_major_axis", .float c.semiMajorAxis),
      ("eccentricity", .float c.eccentricity), ("inclination", .float c.inclination),
      ("raan", .float c.raan), ("arg_perigee", .float c.argPerigee),
      ("true_anomaly", .float c.trueAnomaly), ("quaternion", .arr c.quaternion),
      ("angular_velocity", .arr c.angularVelocity)]

/-- Checks the attitude (non-zero) and the rates. -/
def checkAttitude (quaternion angularVelocity : List Json) : Outcome Unit := do
  let q ← numbers "quaternion" 4 (.arr quaternion)
  unless isNonZero q do refuse "quaternion must be non-zero"
  let _ ← numbers "angular_velocity" 3 (.arr angularVelocity)

/-- Checks the orbit and the attitude of the start. -/
def validate : StartSettings → Outcome Unit
  | .cartesian c => do
    let _ ← numbers "position" 3 (.arr c.position)
    let _ ← numbers "velocity" 3 (.arr c.velocity)
    checkAttitude c.quaternion c.angularVelocity
  | .circular c => do
    if c.altitude ≤ 0.0 then refuse ("altitude must be positive, got " ++ Notation.shortest c.altitude)
    checkAttitude c.quaternion c.angularVelocity
  | .elements c => do
    unless 0.0 ≤ c.eccentricity && c.eccentricity < 1.0 do
      refuse ("eccentricity must be in [0, 1), got " ++ Notation.shortest c.eccentricity)
    let perigee := c.semiMajorAxis * (1.0 - c.eccentricity)
    if perigee ≤ earthRadius then
      refuse ("Perigee radius " ++ Notation.fixed 1 perigee ++ " m is below the Earth's surface")
    checkAttitude c.quaternion c.angularVelocity

end StartSettings

end Spacecraft
