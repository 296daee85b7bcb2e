import Spacecraft.Guidance.Command
import Spacecraft.Environment.SunMoon

/-!
# Guidance policies

Two ways to produce the attitude reference:

* automatic pointing, recomputed from the orbital state at every evaluation: to nadir
  (third axis to the centre of the Earth, second against the orbit normal), along the
  velocity (first axis along the inertial velocity), to the Sun (third axis to the Sun) or
  at a fixed inertial attitude. Nadir and velocity pointing follow the turning orbit frame,
  so their target rates are the orbital rate in body axes;
* commanded guidance, whose target is set from outside. A new target waits as pending
  until the next accepted step latches it; until then the policy holds the attitude of the
  last accepted step.
-/

namespace Spacecraft

/-- The pointing modes of automatic guidance. -/
inductive PointingMode where
  | nadir
  | sun
  | inertial
  | velocity
deriving Inhabited, BEq, Repr

namespace PointingMode

/-- The mode of a name. -/
def ofName? : String → Option PointingMode
  | "nadir" => some .nadir
  | "sun" => some .sun
  | "inertial" => some .inertial
  | "velocity" => some .velocity
  | _ => none

end PointingMode

/-- A guidance policy. Automatic pointing knows the epoch of the run (for the Sun) and the
fixed attitude of inertial pointing; commanded guidance holds the target waiting to be
latched, if any. -/
inductive Guidance where
  | automatic (mode : PointingMode) (epoch : Epoch) (inertial : List Float)
  | commanded (pending : Option Command)
deriving Inhabited

namespace Guidance

/-- The memory at the start of a run, from the initial state if there is one. -/
def initialMemory (g : Guidance) (s : Option SatState) : Outcome GuidanceMemory :=
  match g, s with
  | .automatic .., s => pure { time := (s.map (·.time)).getD 0.0 }
  | .commanded _, none => pure {}
  | .commanded _, some s => do
    let c ← Command.hold s.quaternion.toList
    pure { time := s.time, command := some c }

/-- The frame of Sun pointing: third axis to the Sun, first axis normal to it and to the
celestial pole (or to the vernal equinox when the Sun is near the pole). -/
def sunFrame (toSun : Vec3) : Mat3 :=
  let z := toSun.unit
  let reference : Vec3 := if ((⟨0.0, 0.0, 1.0⟩ : Vec3).dot z).abs > 0.99 then ⟨1.0, 0.0, 0.0⟩
    else ⟨0.0, 0.0, 1.0⟩
  let x := (reference.cross z).unit
  Mat3.ofRows x (z.cross x) z

/-- The attitude reference at a time and state. -/
def target (g : Guidance) (t : Float) (s : SatState) (m : GuidanceMemory) : Outcome Command :=
  match g with
  | .commanded _ =>
    match m.command with
    | some c => pure c
    | none => Command.hold s.quaternion.toList
  | .automatic .inertial _ q => Command.hold q
  | .automatic .sun epoch _ => do
    let q ← Quat.ofDcm (sunFrame (SunMoon.sun epoch t - s.position))
    Command.hold q.toList
  | .automatic mode _ _ => do
    let (dcm, omega) := orbitFrame s
    let dcm := if mode == .velocity then
        let x := s.velocity.unit
        Mat3.ofRows x dcm.r1 (x.cross dcm.r1)
      else dcm
    let q ← Quat.ofDcm dcm
    Command.make q.toList (dcm.mulVec omega).toList

/-- The memory after an accepted step, and the policy with any pending target latched. -/
def advance (g : Guidance) (t : Float) (s : SatState) (m : GuidanceMemory) :
    Outcome (GuidanceMemory × Guidance) :=
  match g with
  | .automatic .. => pure ({ time := t }, g)
  | .commanded (some c) => pure ({ time := t, command := some c, overridden := true }, .commanded none)
  | .commanded none =>
    if m.overridden then pure ({ time := t, command := m.command, overridden := true }, g)
    else do
      let c ← Command.hold s.quaternion.toList
      pure ({ time := t, command := some c }, g)

/-- The refusal of an operation that only commanded guidance has. -/
def notCommanded (operation : String) : Fault :=
  .missingAttribute ("'AutomaticGuidance' object has no attribute '" ++ operation ++ "'")

/-- Sets a new pending target of commanded guidance; automatic pointing takes no
commands. -/
def command (g : Guidance) (attitude rates : List Float) : Outcome Guidance :=
  match g with
  | .commanded _ => do
    let c ← Command.make attitude rates
    pure (.commanded (some c))
  | .automatic .. => throw (notCommanded "command")

/-- Whether a target waits to be latched; automatic pointing has no such target. -/
def hasPending : Guidance → Outcome Bool
  | .commanded p => pure p.isSome
  | .automatic .. => throw (notCommanded "has_pending")

end Guidance

end Spacecraft
