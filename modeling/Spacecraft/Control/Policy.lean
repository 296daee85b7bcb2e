import Spacecraft.Guidance.Command
import Spacecraft.Environment.Earth
import Spacecraft.Satellite.Body
import Spacecraft.Satellite.Sensor

/-!
# Control policies

A policy maps the state and the guidance command to a body torque [N·m]. Policies keep no
memory of their own: the integral of the attitude error and the magnetometer history are
handed in by the torque law and updated only after accepted steps.

* no actuation, or a fixed torque;
* quaternion-feedback attitude control,
  `τ = -k_p e - k_d (ω - ω_ref) - k_i ∫e`, with `e` the vector part of the error
  quaternion, each axis saturated at `maxTorque` and the integral held within
  `integralLimit`;
* B-dot rate damping from the true spin: the body-frame field changes at `-ω × B`, the
  dipole `m = -k dB/dt` is clipped at the body's largest dipole and gives `τ = m × B`;
* B-dot from magnetometer readings: at samples at least a sample period apart the field
  derivative is the difference of two readings over the time between them, low-pass filtered
  with `α = exp(-Δt/T)`; the dipole of the last sample is held until the next one.
-/

namespace Spacecraft

/-- What the magnetometer-driven detumbler remembers: the time and reading of the last
sample, the filtered field derivative [T/s] and the dipole [A·m²] held since. -/
structure FieldRateEstimate where
  time : Float
  field : Vec3
  rate : Vec3
  dipole : Vec3
deriving Inhabited

/-- Gains of the attitude controller; an absent limit is no limit. -/
structure PdGains where
  kp : Float := 2.0e-4
  kd : Float := 8.0e-4
  ki : Float := 0.0
  maxTorque : Option Float := none
  integralLimit : Option Float := none
deriving Inhabited

namespace PdGains

/-- The vector part of the error quaternion from the commanded attitude (the identity
without a command) to the current one. -/
def attitudeError (s : SatState) (c : Option Command) : Outcome Vec3 := do
  let target ← match c with
    | some c => c.target
    | none => pure Quat.identity
  pure (Quat.error s.quaternion target).vec

/-- The saturated feedback torque. -/
def torque (g : PdGains) (s : SatState) (c : Option Command) (integral : Vec3) :
    Outcome Vec3 := do
  let rates := match c with
    | some c => c.rates
    | none => Vec3.zero
  let e ← attitudeError s c
  let tau := Vec3.smul (-g.kp) e - Vec3.smul g.kd (s.angularVelocity - rates) -
    Vec3.smul g.ki integral
  pure (match g.maxTorque with
    | some m => tau.clip (-m) m
    | none => tau)

/-- The integral after `dt` more seconds of the current error; it only moves with a
non-zero integral gain and a positive interval. -/
def updateIntegral (g : PdGains) (dt : Float) (s : SatState) (c : Option Command)
    (integral : Vec3) : Outcome Vec3 := do
  if g.ki == 0.0 || dt ≤ 0.0 then return integral
  let e ← attitudeError s c
  let updated := integral + e.mulScalar dt
  pure (match g.integralLimit with
    | some l => updated.clip (-l) l
    | none => updated)

end PdGains

/-- The B-dot dipole [A·m²] from the true spin, with the body-frame field [T] it acts in. -/
def bdotDipole (field : Dipole) (gain t : Float) (s : SatState) (b : Body) :
    Outcome (Vec3 × Vec3) := do
  let bBody ← s.toBody (← field.field t s.position)
  let rate := -(s.angularVelocity.cross bBody)
  pure ((Vec3.smul (-gain) rate).clip (-b.maxDipole) b.maxDipole, bBody)

/-- The magnetometer-driven detumbler: its magnetometer, the environment whose field it
reads, the gain, the filter time constant [s] and the shortest time between samples [s]. -/
structure FieldRateSensing where
  magnetometer : Sensor
  environment : Environment
  gain : Float := 5.4e4
  timeConstant : Float := 5.0
  samplePeriod : Float := 0.1
deriving Inhabited

namespace FieldRateSensing

/-- Slack on the sample period, so that a step ending a rounding error early still
samples. -/
def sampleTolerance : Float := 1.0e-9

/-- A detumbler with a positive time constant and a non-negative sample period. -/
def make (magnetometer : Sensor) (environment : Environment) (gain : Float := 5.4e4)
    (timeConstant : Float := 5.0) (samplePeriod : Float := 0.1) : Outcome FieldRateSensing := do
  if timeConstant ≤ 0.0 then
    throw (.invalidArgument ("Filter time constant must be positive, got " ++
      Notation.shortest timeConstant))
  if samplePeriod < 0.0 then
    throw (.invalidArgument ("Sample period must be non-negative, got " ++
      Notation.shortest samplePeriod))
  pure { magnetometer, environment, gain, timeConstant, samplePeriod }

/-- A magnetometer reading of the body-frame field. -/
def sample (t : Float) (s : SatState) : Tracked FieldRateSensing Vec3 := do
  let r ← get
  let truth := do s.toBody (← r.environment.magnetic.field t s.position)
  Tracked.focus (·.magnetometer) (fun r m => { r with magnetometer := m }) (Sensor.read truth)

/-- The first sample; no derivative is known yet, so no dipole is held. -/
def initialEstimate (t : Float) (s : SatState) : Tracked FieldRateSensing FieldRateEstimate := do
  let field ← sample t s
  pure ⟨t, field, Vec3.zero, Vec3.zero⟩

/-- The estimate after an accepted step: a sample is taken if one is due, and the filtered
derivative and the held dipole follow from it. -/
def updateEstimate (t : Float) (s : SatState) (b : Body) (e : FieldRateEstimate) :
    Tracked FieldRateSensing FieldRateEstimate := do
  let r ← get
  let dt := t - e.time
  if dt ≤ 0.0 || dt < r.samplePeriod - sampleTolerance then return e
  let measured ← sample t s
  let alpha := Float.exp (-dt / r.timeConstant)
  let rate := Vec3.smul alpha e.rate + (Vec3.smul (1.0 - alpha) (measured - e.field)).divScalar dt
  let dipole := (Vec3.smul (-r.gain) rate).clip (-b.maxDipole) b.maxDipole
  pure ⟨t, measured, rate, dipole⟩

/-- The torque of the held dipole in the true field; none without an estimate. -/
def heldTorque (r : FieldRateSensing) (t : Float) (s : SatState) (e : Option FieldRateEstimate) :
    Outcome Vec3 :=
  match e with
  | none => pure Vec3.zero
  | some e => do
    let bBody ← s.toBody (← r.environment.magnetic.field t s.position)
    pure (e.dipole.cross bBody)

/-- The detumbler with its magnetometer restarted from its seed. -/
def reset (r : FieldRateSensing) : FieldRateSensing :=
  { r with magnetometer := r.magnetometer.reset }

end FieldRateSensing

/-- The control policy of one phase of a torque law. A fixed torque keeps the components
it was given, however many. -/
inductive Policy where
  | zero
  | constant (torque : List Float)
  | pd (gains : PdGains)
  | bdot (field : Dipole) (gain : Float)
  | sensedBdot (sensing : FieldRateSensing)
deriving Inhabited

namespace Policy

/-- The name a policy reports. -/
def name : Policy → String
  | .zero => "zero"
  | .constant _ => "constant"
  | .pd _ => "pd_attitude"
  | .bdot .. => "bdot"
  | .sensedBdot _ => "bdot"

/-- Whether the policy's torque comes from sensor memory rather than from the state. -/
def isEstimating : Policy → Bool
  | .sensedBdot _ => true
  | _ => false

/-- The torque at a time and state, given the command and the integral. The
magnetometer-driven detumbler holds no dipole without its memory, so it gives none here. -/
def torque (p : Policy) (t : Float) (s : SatState) (b : Body) (c : Option Command)
    (integral : Vec3) : Outcome (List Float) :=
  match p with
  | .zero => pure Vec3.zero.toList
  | .constant tau => pure tau
  | .pd g => Vec3.toList <$> g.torque s c integral
  | .bdot field gain => do
    let (m, bBody) ← bdotDipole field gain t s b
    pure (m.cross bBody).toList
  | .sensedBdot _ => pure Vec3.zero.toList

/-- The integral after `dt` more seconds; only the attitude controller integrates. -/
def updateIntegral (p : Policy) (dt : Float) (s : SatState) (c : Option Command)
    (integral : Vec3) : Outcome Vec3 :=
  match p with
  | .pd g => g.updateIntegral dt s c integral
  | _ => pure integral

/-- The first sensor memory of an estimating policy, read at `t`; other policies have
none. -/
def initialEstimate (t : Float) (s : SatState) : Tracked Policy (Option FieldRateEstimate) := do
  match ← get with
  | .sensedBdot r =>
    some <$> Tracked.focus (fun _ => r) (fun _ r => .sensedBdot r) (FieldRateSensing.initialEstimate t s)
  | _ => pure none

/-- The sensor memory after an accepted step. -/
def updateEstimate (t : Float) (s : SatState) (b : Body) (e : FieldRateEstimate) :
    Tracked Policy FieldRateEstimate := do
  match ← get with
  | .sensedBdot r =>
    Tracked.focus (fun _ => r) (fun _ r => .sensedBdot r) (FieldRateSensing.updateEstimate t s b e)
  | _ => pure e

/-- The policy restarted for a new run. -/
def reset : Policy → Policy
  | .sensedBdot r => .sensedBdot r.reset
  | p => p

end Policy

end Spacecraft
