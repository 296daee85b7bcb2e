import Spacecraft.Attitude.Quaternion
import Spacecraft.CommandLine.Arguments
import Spacecraft.CommandLine.Session
import Spacecraft.Config.Run
import Spacecraft.Config.Sections
import Spacecraft.Config.Setting
import Spacecraft.Numeric.Vec3
import Spacecraft.Control.Law
import Spacecraft.Control.Policy
import Spacecraft.Dynamics.Force
import Spacecraft.Dynamics.Model
import Spacecraft.Dynamics.Orbit
import Spacecraft.Dynamics.State
import Spacecraft.Dynamics.Torque
import Spacecraft.Environment.Atmosphere
import Spacecraft.Environment.Earth
import Spacecraft.Environment.Eclipse
import Spacecraft.Environment.Geomagnetic
import Spacecraft.Environment.Gravity
import Spacecraft.Environment.SunMoon
import Spacecraft.Fault
import Spacecraft.Guidance.Command
import Spacecraft.Guidance.Pointing
import Spacecraft.Json.Parse
import Spacecraft.Json.Value
import Spacecraft.Main
import Spacecraft.Numeric.Binary64
import Spacecraft.Numeric.Eigen
import Spacecraft.Numeric.Random
import Spacecraft.Numeric.Solve
import Spacecraft.Numeric.Summation
import Spacecraft.Propagation.Ephemeris
import Spacecraft.Propagation.Integrator
import Spacecraft.Propagation.Observer
import Spacecraft.Propagation.Propagator
import Spacecraft.Satellite.Body
import Spacecraft.Satellite.Sensor
import Spacecraft.Simulation
import Spacecraft.Text.Notation
import Spacecraft.Text.Numeral
import Spacecraft.Text.Shortest
import Spacecraft.Time.Epoch
import Spacecraft.Proofs.Tracked
import Spacecraft.Proofs.Binary64.Grid
import Spacecraft.Proofs.Binary64.Order
import Spacecraft.Proofs.Binary64.Arithmetic
import Spacecraft.Proofs.Binary64.Special
import Spacecraft.Proofs.Binary64.Sign
import Spacecraft.Proofs.Propagation.Run
import Spacecraft.Proofs.Propagation.Retry
import Spacecraft.Proofs.Propagation.Trial
import Spacecraft.Proofs.Propagation.Summary
import Spacecraft.Proofs.Propagation.Time
import Spacecraft.Proofs.Propagation.Rejections
import Spacecraft.Proofs.Propagation.Report
import Spacecraft.Proofs.Propagation.Mass
import Spacecraft.Proofs.Propagation.Accepted
import Spacecraft.Proofs.Propagation.Memory
import Spacecraft.Proofs.Control.Frame
import Spacecraft.Proofs.Control.Phases
import Spacecraft.Proofs.Control.LawState
import Spacecraft.Proofs.Dynamics.Diagnostics
import Spacecraft.Proofs.Dynamics.Parallel
import Spacecraft.Proofs.Guidance.Latch
import Spacecraft.Proofs.Config.Validation
import Spacecraft.Proofs.CommandLine.Exit
import Spacecraft.Proofs.Propagation.Rerun
import Spacecraft.Proofs.Binary64.Bits
import Spacecraft.Proofs.Propagation.Recorder
import Spacecraft.Proofs.Dynamics.Refusal
import Spacecraft.Proofs.Propagation.Decoupling
import Spacecraft.Proofs.Exact.Reading
import Spacecraft.Proofs.Exact.Rotation
import Spacecraft.Proofs.Exact.RungeKutta
import Spacecraft.Proofs.Exact.Elimination
import Spacecraft.Proofs.Exact.Factorization
import Spacecraft.Proofs.Exact.EulerEquations
import Spacecraft.Proofs.Exact.Pointing
import Spacecraft.Proofs.Exact.Motion
import Spacecraft.Proofs.Exact.Gravity
import Spacecraft.Proofs.Exact.FrameRate
import Spacecraft.Proofs.Propagation.Schedule
import Spacecraft.Proofs.Exact.Detumbling
import Spacecraft.Proofs.Exact.DormandPrince
import Spacecraft.Proofs.Exact.Feedback
import Spacecraft.Proofs.Binary64.Symmetry
import Spacecraft.Proofs.Exact.Elementary
import Spacecraft.Proofs.Exact.AttitudeError
import Spacecraft.Proofs.Binary64.Fused
import Spacecraft.Proofs.Exact.FieldRate
import Spacecraft.Proofs.Exact.Orbits
import Spacecraft.Proofs.Dynamics.Scenario
import Spacecraft.Proofs.Exact.EulerAngles
import Spacecraft.Proofs.Exact.Penumbra
import Spacecraft.Proofs.Exact.Atmosphere
import Spacecraft.Proofs.Exact.Geomagnetic
import Spacecraft.Proofs.Propagation.Handoff
import Spacecraft.Proofs.Binary64.Vanishing
import Spacecraft.Proofs.Exact.Kinematics
import Spacecraft.Proofs.Propagation.Rest
import Spacecraft.Proofs.Binary64.Nearest
import Spacecraft.Proofs.Text.Shortest
import Spacecraft.Proofs.Json.Numbers
import Spacecraft.Proofs.Json.Text
import Spacecraft.Proofs.Time.IsoText
import Spacecraft.Proofs.Config.RoundTrip
