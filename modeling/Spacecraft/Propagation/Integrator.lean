import Spacecraft.Numeric.Summation
import Spacecraft.Fault

/-!
# One-step integration methods

Two methods advance `y' = f (t, y)` on flat states by one trial step:

* the classical fourth-order Runge–Kutta method with a fixed step, which always accepts;
* the embedded Dormand–Prince 5(4) pair, which accepts a step when the root mean square of
  its error estimate, each entry scaled by `atol + rtol · max (|y₀|, |y₁|)`, is finite and
  at most one, and otherwise refuses it with `Fault.stepRejected`, so that the caller can
  retry from the same point with a shorter step.

After an accepted adaptive step the next step is `h` times `safety · err^(-1/5)`, the
factor kept in `[0.2, 5]` (exactly 5 for a zero error), and the step kept in
`[minStep, maxStep]`.

The stage sums use the orders of `Summation.combine`; every other operation is entrywise.
-/

namespace Spacecraft

/-- The right-hand side `f (t, y)` of an ordinary differential equation on flat states. -/
abbrev RateFunction := Float → List Float → Outcome (List Float)

/-- An accepted trial step: the state at `t + h`, the suggested next step and the scaled
error estimate (zero for the fixed-step method). -/
structure StepOutcome where
  state : List Float
  nextStep : Float
  errorNorm : Float := 0.0
deriving Inhabited

/-- The tolerances and step limits of the adaptive method. -/
structure StepControl where
  atol : Float := 1.0e-9
  rtol : Float := 1.0e-9
  minStep : Float := 1.0e-6
  maxStep : Float := 60.0
  firstStep : Option Float := none
  safety : Float := 0.9
deriving Inhabited

/-- A one-step integration method. -/
inductive Integrator where
  /-- Classical Runge–Kutta with a fixed step [s]. -/
  | rungeKutta (stepSize : Float)
  /-- Dormand–Prince 5(4) with error control. -/
  | dormandPrince (control : StepControl)
deriving Inhabited

namespace FlatState

/-- `y + a · d`, entry by entry. -/
def addScaled (y : List Float) (a : Float) (d : List Float) : List Float :=
  List.zipWith (fun u v => u + a * v) y d

/-- The larger of two magnitudes; an undefined one wins. -/
def maxMagnitude (a b : Float) : Float :=
  let a := a.abs
  let b := b.abs
  if a.isNaN then a else if b.isNaN then b else if a ≥ b then a else b

end FlatState

namespace DormandPrince

/-- The stage times as fractions of the step. -/
def nodes : List Float := [0.0, 1 / 5, 3 / 10, 4 / 5, 8 / 9, 1.0, 1.0]

/-- The stage weights: row `i` combines the first `i` stage rates. -/
def stageWeights : List (List Float) :=
  [[],
   [1 / 5],
   [3 / 40, 9 / 40],
   [44 / 45, -56 / 15, 32 / 9],
   [19372 / 6561, -25360 / 2187, 64448 / 6561, -212 / 729],
   [9017 / 3168, -355 / 33, 46732 / 5247, 49 / 176, -5103 / 18656],
   [35 / 384, 0.0, 500 / 1113, 125 / 192, -2187 / 6784, 11 / 84]]

/-- The weights of the fifth-order solution. -/
def fifthOrder : List Float := [35 / 384, 0.0, 500 / 1113, 125 / 192, -2187 / 6784, 11 / 84, 0.0]

/-- The weights of the embedded fourth-order solution. -/
def fourthOrder : List Float :=
  [5179 / 57600, 0.0, 7571 / 16695, 393 / 640, -92097 / 339200, 187 / 2100, 1 / 40]

/-- The weights of the error estimate: fifth order minus fourth order. -/
def errorWeights : List Float := List.zipWith (· - ·) fifthOrder fourthOrder

/-- The stage rates after the first, each from the rates before it. -/
def stages (f : RateFunction) (t : Float) (y : List Float) (h : Float) (k0 : List Float) :
    Outcome (List (List Float)) :=
  ((nodes.zip stageWeights).drop 1).foldlM (fun ks (c, weights) => do
    let stage := FlatState.addScaled y h (Summation.combine weights ks)
    let k ← f (t + c * h) stage
    pure (ks ++ [k])) [k0]

end DormandPrince

namespace StepControl

/-- The first trial step: `firstStep`, or a hundredth of the largest step, kept in the
step limits. -/
def initialStep (c : StepControl) : Float :=
  clamp (c.firstStep.getD (c.maxStep / 100.0)) c.minStep c.maxStep

/-- The step suggested after an accepted step of size `h` with error norm `err`. -/
def nextStep (c : StepControl) (h err : Float) : Float :=
  let factor := if err == 0.0 then 5.0 else clamp (c.safety * err ^ (-0.2)) 0.2 5.0
  clamp (h * factor) c.minStep c.maxStep

/-- The scaled error norm of a step from `y` to `y1` with error estimate `error`. -/
def errorNorm (c : StepControl) (y y1 error : List Float) : Float :=
  let scale := List.zipWith (fun a b => c.atol + c.rtol * FlatState.maxMagnitude a b) y y1
  Summation.rootMeanSquare (List.zipWith (· / ·) error scale)

end StepControl

namespace Integrator

/-- The name of the method. -/
def name : Integrator → String
  | .rungeKutta _ => "rk4"
  | .dormandPrince _ => "dopri45"

/-- A fixed-step method; the step must be positive. -/
def fixedStep (stepSize : Float) : Outcome Integrator :=
  if stepSize ≤ 0.0 then
    throw (.invalidArgument ("Step size must be positive, got " ++ Notation.shortest stepSize))
  else pure (.rungeKutta stepSize)

/-- An adaptive method; the tolerances must be positive (a zero relative tolerance is
allowed) and the step limits ordered and positive. -/
def adaptive (c : StepControl) : Outcome Integrator := do
  if c.atol ≤ 0.0 || c.rtol < 0.0 then throw (.invalidArgument "Tolerances must be positive")
  unless 0.0 < c.minStep && c.minStep ≤ c.maxStep do
    throw (.invalidArgument ("Need 0 < min_step <= max_step, got " ++
      Notation.shortest c.minStep ++ ", " ++ Notation.shortest c.maxStep))
  pure (.dormandPrince c)

/-- The first trial step of a run from `t0` to `tEnd`. -/
def initialStep (i : Integrator) (_t0 _tEnd : Float) : Float :=
  match i with
  | .rungeKutta h => h
  | .dormandPrince c => c.initialStep

/-- One trial step of size `h` from `t` and `y`. -/
def attempt (i : Integrator) (f : RateFunction) (t : Float) (y : List Float) (h : Float) :
    Outcome StepOutcome :=
  match i with
  | .rungeKutta stepSize => do
    let k1 ← f t y
    let k2 ← f (t + h / 2) (FlatState.addScaled y (h / 2) k1)
    let k3 ← f (t + h / 2) (FlatState.addScaled y (h / 2) k2)
    let k4 ← f (t + h) (FlatState.addScaled y h k3)
    let twice (k : List Float) := k.map (2 * ·)
    let sum := List.zipWith (· + ·)
      (List.zipWith (· + ·) (List.zipWith (· + ·) k1 (twice k2)) (twice k3)) k4
    pure { state := FlatState.addScaled y (h / 6) sum, nextStep := stepSize }
  | .dormandPrince c => do
    let k0 ← f t y
    let ks ← DormandPrince.stages f t y h k0
    let y1 := FlatState.addScaled y h (Summation.combine DormandPrince.fifthOrder ks)
    let error := (Summation.combine DormandPrince.errorWeights ks).map (h * ·)
    let err := c.errorNorm y y1 error
    if !err.isFinite || err > 1.0 then throw (.stepRejected t h err)
    pure { state := y1, nextStep := c.nextStep h err, errorNorm := err }

end Integrator

/-- The affine system `y' = A y + b + c t`, given by the rows of `A`. -/
structure AffineSystem where
  rows : List (List Float)
  offset : List Float
  drift : List Float
deriving Inhabited

namespace AffineSystem

/-- The system with zero offset and drift. -/
def linear (rows : List (List Float)) : AffineSystem :=
  { rows, offset := rows.map fun _ => 0.0, drift := rows.map fun _ => 0.0 }

/-- The rate at `t` and `y`: `(A y + b) + c t`, entry by entry. -/
def rate (s : AffineSystem) : RateFunction := fun t y =>
  pure (List.zipWith (· + ·) (List.zipWith (· + ·) (Summation.mulRows s.rows y) s.offset)
    (s.drift.map (· * t)))

end AffineSystem

end Spacecraft
