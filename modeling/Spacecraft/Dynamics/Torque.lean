import Spacecraft.Environment.Geomagnetic
import Spacecraft.Satellite.Body
import Spacecraft.Numeric.Random

/-!
# Open-loop torques

Torques [N·m] about the centre of mass in body axes that need no controller:

* a torque scenario: an ordered list of steps, each applying its direction times the
  scenario's intensity while `start ≤ t < start + duration`; the first active step wins and
  outside every step the torque is zero;
* the gravity-gradient torque of a point-mass Earth, `3μ/r³ (r̂_b × I r̂_b)` with `r̂_b` the
  unit position vector in body axes;
* the torque of the body's residual dipole in the geomagnetic field, `m × B`;
* a seeded random disturbance, uniform per axis, redrawn after every accepted step and held
  while a step is integrated, so a retried step sees the same torque.
-/

namespace Spacecraft

/-- One constant-torque interval of a scenario. -/
structure ScenarioStep where
  start : Float
  duration : Float
  direction : Vec3
deriving Inhabited

namespace ScenarioStep

/-- A step of a start, a non-negative duration and a three-component direction. -/
def make (start duration : Float) (direction : List Float) : Outcome ScenarioStep := do
  let some d := Vec3.ofList? direction
    | throw (.configuration ("Step direction must be shape (3,), got " ++ shapeText direction.length))
  if duration < 0.0 then
    throw (.configuration ("Step duration must be non-negative, got " ++ Notation.shortest duration))
  pure ⟨start, duration, d⟩

/-- Whether the step acts at `t`. -/
def isActive (s : ScenarioStep) (t : Float) : Bool := s.start ≤ t && t < s.start + s.duration

end ScenarioStep

/-- A time-scheduled body torque. -/
structure Scenario where
  steps : List ScenarioStep := []
  intensity : Float := 0.1
  name : String := "torque_scenario"
deriving Inhabited

namespace Scenario

/-- A spin-up and spin-down about +x, then about the diagonal (1, 1, 1). -/
def manoeuvre : Scenario :=
  let c := 1.0 / (3.0 : Float).sqrt
  { steps := [⟨1.0, 20.0, ⟨1.0, 0.0, 0.0⟩⟩, ⟨25.0, 20.0, ⟨-1.0, 0.0, 0.0⟩⟩,
      ⟨50.0, 10.0, ⟨c, c, c⟩⟩, ⟨65.0, 10.0, -⟨c, c, c⟩⟩],
    intensity := 1.0e-4, name := "manoeuvre" }

/-- The index of the first step active at `t`. -/
def activeIndex (s : Scenario) (t : Float) : Option Nat :=
  s.steps.findIdx? (·.isActive t)

/-- The scheduled torque at `t`. -/
def torque (s : Scenario) (t : Float) : Vec3 :=
  match s.steps.find? (·.isActive t) with
  | some step => Vec3.smul s.intensity step.direction
  | none => Vec3.zero

/-- The distinct times at which the torque may switch, in increasing order; of two equal
times the first listed (starts before ends) is kept. -/
def boundaries (s : Scenario) : List Float :=
  let times := s.steps.map (·.start) ++ s.steps.map (fun st => st.start + st.duration)
  let distinct := times.foldl (fun acc x => if acc.any (· == x) then acc else acc ++ [x]) []
  distinct.mergeSort (· ≤ ·)

end Scenario

/-- The random disturbance: half-width, seed, generator and the torque held for the
current step. -/
structure Disturbance where
  intensity : Float
  seed : Nat
  gen : Pcg
  current : Vec3
deriving Inhabited

namespace Disturbance

/-- The disturbance drawn afresh from its seed. -/
def restart (intensity : Float) (seed : Nat) : Outcome Disturbance := do
  let (current, gen) ← (Pcg.ofSeed seed).uniform3 (-intensity) intensity
  pure ⟨intensity, seed, gen, current⟩

/-- A disturbance of a non-negative half-width and a seed. -/
def make (intensity : Float) (seed : Int) : Outcome Disturbance := do
  if intensity < 0.0 then
    throw (.invalidArgument ("Intensity must be non-negative, got " ++ Notation.shortest intensity))
  if seed < 0 then throw (.invalidArgument "expected non-negative integer")
  restart intensity seed.toNat

/-- The disturbance with the torque for the next step drawn. -/
def advance (d : Disturbance) : Outcome Disturbance := do
  let (current, gen) ← d.gen.uniform3 (-d.intensity) d.intensity
  pure { d with current, gen }

end Disturbance

/-- An open-loop torque model. -/
inductive TorqueModel where
  | scenario (s : Scenario)
  | gravityGradient (mu : Float)
  | residualMagnetic (field : Dipole)
  | disturbance (d : Disturbance)
deriving Inhabited

namespace TorqueModel

/-- The name a torque model reports its contribution under. -/
def name : TorqueModel → String
  | .scenario s => s.name
  | .gravityGradient _ => "gravity_gradient"
  | .residualMagnetic _ => "residual_magnetic"
  | .disturbance _ => "random_disturbance"

/-- The torque [N·m] in body axes at a time and state. -/
def torque (m : TorqueModel) (t : Float) (s : SatState) (b : Body) : Outcome Vec3 :=
  match m with
  | .scenario sc => pure (sc.torque t)
  | .gravityGradient mu => do
    let r := s.radius
    let rBody ← s.toBody (s.position.divScalar r)
    let k ← divOrFault (3.0 * mu) (Float.pow r 3.0)
    pure (Vec3.smul k (rBody.cross (s.inertia.mulVec rBody)))
  | .residualMagnetic field => do
    let bField ← field.field t s.position
    let bBody ← s.toBody bField
    pure (b.residualDipole.cross bBody)
  | .disturbance d => pure d.current

/-- The model after an accepted step: the disturbance draws its next torque. -/
def advance : TorqueModel → Outcome TorqueModel
  | .disturbance d => TorqueModel.disturbance <$> d.advance
  | m => pure m

/-- The model restarted for a new run: the disturbance goes back to its seed. -/
def reset : TorqueModel → Outcome TorqueModel
  | .disturbance d => TorqueModel.disturbance <$> Disturbance.restart d.intensity d.seed
  | m => pure m

end TorqueModel

end Spacecraft
