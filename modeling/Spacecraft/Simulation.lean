import Spacecraft.Config.Run
import Spacecraft.Dynamics.Orbit
import Spacecraft.Propagation.Propagator

/-!
# Simulations

A simulation is everything a run description asks for, built: the Earth environment at
the epoch, the body, the force models (gravity, drag, radiation pressure, the Sun's and
the Moon's attraction, in that order), the open-loop torque models (scenario, gravity
gradient, residual dipole, random disturbance), the torque law with its guidance, the
integration method with its limits, and the starting state. The description is validated
before anything is built.

A simulation runs from its starting state for its duration, with a recorder first among
its observers.
-/

namespace Spacecraft

/-- A run description with every model built. -/
structure Simulation where
  config : RunConfig
  environment : Environment
  body : Body
  guidance : Option Guidance
  propagator : Propagator
  initial : SatState
deriving Inhabited

namespace Simulation

/-- The numbers of a validated list setting. -/
def floats (label : String) (xs : List Json) : Outcome (List Float) := xs.mapM (number label)

/-- The force models a section asks for, in summation order. -/
def forceModels (c : ForceSettings) (env : Environment) : List ForceModel :=
  let shadow := (ShadowModel.ofName? c.shadowModel).getD .cylindrical
  (if c.gravity then [ForceModel.gravity env.gravity] else []) ++
  (if c.drag then [ForceModel.drag env.atmosphere earthRate] else []) ++
  (if c.solarRadiation then [ForceModel.radiation env.epoch shadow solarPressure] else []) ++
  (if c.sunThirdBody then [ForceModel.thirdBody .sun env.epoch] else []) ++
  (if c.moonThirdBody then [ForceModel.thirdBody .moon env.epoch] else [])

/-- One scenario step of a validated section: `[start, duration, [x, y, z]]`. -/
def scenarioStep (step : Json) : Outcome ScenarioStep :=
  match step with
  | .arr [start, duration, .arr direction] => do
    ScenarioStep.make (← number "start" start) (← number "duration" duration)
      (← floats "direction" direction)
  | other => refuse ("Scenario steps must be [start, duration, [x, y, z]], got " ++ other.plainText)

/-- The open-loop torque models a section asks for, in summation order. -/
def torqueModels (c : TorqueSettings) (env : Environment) : Outcome (List TorqueModel) := do
  let scenario ← if c.scenario.isEmpty then pure [] else do
    let steps ← c.scenario.mapM scenarioStep
    pure [TorqueModel.scenario { steps, intensity := c.scenarioIntensity }]
  let disturbance ← if c.randomDisturbance > 0.0 then do
      pure [TorqueModel.disturbance (← Disturbance.make c.randomDisturbance c.seed.value)]
    else pure []
  pure (scenario ++
    (if c.gravityGradient then [TorqueModel.gravityGradient muEarth] else []) ++
    (if c.residualMagnetic then [TorqueModel.residualMagnetic env.magnetic] else []) ++
    disturbance)

/-- The guidance a section describes: commanded for the `dynamic` mode, automatic otherwise. -/
def guidanceOf (c : GuidanceSettings) (env : Environment) : Outcome Guidance := do
  if c.mode == "dynamic" then pure (.commanded none)
  else match PointingMode.ofName? c.mode with
    | some mode => pure (.automatic mode env.epoch (← floats "inertial_quaternion" c.inertialQuaternion))
    | none => refuse ("Unknown guidance mode '" ++ c.mode ++ "'")

/-- The torque law a section asks for, if any: attitude tracking alone for `point`, B-dot
detumbling (from the field model or from a magnetometer) followed by tracking otherwise. -/
def torqueLaw (c : TorqueSettings) (env : Environment) (guidance : Option Guidance) :
    Outcome (Option TorqueLaw) := do
  match c.law with
  | none => pure none
  | some law =>
    let controller : PdGains := { kp := c.kp, kd := c.kd, ki := c.ki, maxTorque := c.maxTorque }
    if law == "point" then
      pure (some { phases := [⟨"point", .pd controller⟩], guidance, name := "point" })
    else
      let detumbler ← if c.detumbleSensing == "magnetometer" then do
          let m ← Sensor.make c.magnetometerNoise c.seed.value
          Policy.sensedBdot <$> FieldRateSensing.make m env c.bdotGain c.bdotTimeConstant
            c.bdotSamplePeriod
        else pure (Policy.bdot env.magnetic c.bdotGain)
      let gyrometer ← if c.gyrometerNoise > 0.0 then
          some <$> Sensor.make c.gyrometerNoise (c.seed.value + 1)
        else pure none
      pure (some (TorqueLaw.detumbleThenPoint detumbler guidance c.detumbleThreshold controller
        gyrometer))

/-- The integration method a section asks for. -/
def integratorOf (c : IntegratorSettings) : Outcome Integrator :=
  if c.method == "dopri45" then
    Integrator.adaptive { atol := c.atol, rtol := c.rtol, minStep := c.minStep, maxStep := c.maxStep }
  else Integrator.fixedStep c.stepSize

/-- The starting state a section describes, with the body's mass and inertia. -/
def initialState (start : StartSettings) (b : Body) : Outcome SatState := do
  let attitude (q w : List Json) : Outcome (List Float × List Float) := do
    pure (← floats "quaternion" q, ← floats "angular_velocity" w)
  match start with
  | .circular c => do
    let (q, w) ← attitude c.quaternion c.angularVelocity
    let (p, v) ← Orbit.circular c.altitude c.inclination c.raan c.argLatitude
    SatState.make p.toList v.toList q w b.mass b.inertia.toLists 0.0
  | .elements c => do
    let (q, w) ← attitude c.quaternion c.angularVelocity
    let (p, v) ← Orbit.ofElements c.semiMajorAxis c.eccentricity c.inclination c.raan
      c.argPerigee c.trueAnomaly
    SatState.make p.toList v.toList q w b.mass b.inertia.toLists 0.0
  | .cartesian c => do
    let (q, w) ← attitude c.quaternion c.angularVelocity
    SatState.make (← floats "position" c.position) (← floats "velocity" c.velocity) q w b.mass
      b.inertia.toLists 0.0

/-- Every model of a validated run description. -/
def ofConfig (c : RunConfig) : Outcome Simulation := do
  c.validate
  let model ← GravityModel.ofDegree c.forces.gravityDegree.value
  let shadow := (ShadowModel.ofName? c.forces.shadowModel).getD .cylindrical
  let environment := Environment.earth c.epoch model shadow
  let body ← c.body.toBody
  let guidance ← if c.torques.law.isSome then some <$> guidanceOf c.guidance environment
    else pure none
  let forces := forceModels c.forces environment
  let torques ← torqueModels c.torques environment
  let law ← torqueLaw c.torques environment guidance
  let integrator ← integratorOf c.integrator
  let initial ← initialState c.start body
  let limits : RunLimits := { maxSteps := c.integrator.maxSteps.value,
                              maxRejections := c.integrator.maxRejections.value,
                              maxPositionNorm := c.integrator.maxPositionNorm }
  let dynamics : DynamicsModel := { body, forces, torques, law }
  pure { config := c, environment, body, guidance, initial, propagator := { dynamics, integrator, limits } }

/-- The end time of the run. -/
def endTime (sim : Simulation) : Float := sim.initial.time + sim.config.duration

/-- The run over the configured duration, with a recorder before the given observers. A
description that asks for parallel evaluation has the models evaluated by a worker pool for
the run, and by none after it. -/
def run (sim : Simulation) (observers : List Observer) (pool : Pool := default) : RunRecord :=
  if sim.config.parallel then
    let r := { sim.propagator with
      dynamics := { sim.propagator.dynamics with executor := some pool } }.run sim.initial
        sim.endTime (Observer.newRecorder :: observers)
    { r with dynamics := { r.dynamics with executor := none } }
  else sim.propagator.run sim.initial sim.endTime (Observer.newRecorder :: observers)

end Simulation

end Spacecraft
