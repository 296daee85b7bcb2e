import Spacecraft.Dynamics.State

/-!
# Attitude commands

The attitude reference a controller tracks: a target attitude (a unit quaternion, inertial
to body, scalar first) and target body rates. A guidance policy keeps its memory between
accepted steps as a `GuidanceMemory` value: the time of the last accepted step, the command
it has latched, and whether that command came from outside.

The nadir frame of an orbit is also here: its third axis points to the centre of the Earth,
its second against the orbital angular momentum, and it turns with the orbital rate.
-/

namespace Spacecraft

/-- An attitude reference for the controller. The target attitude keeps the length it was
given with; it has been scaled to unit length. -/
structure Command where
  attitude : List Float
  rates : Vec3
deriving Inhabited

namespace Command

/-- The command of a target attitude of non-zero length and three target rates. -/
def make (attitude rates : List Float) : Outcome Command := do
  let q ← Quat.normalizeList attitude
  let some w := Vec3.ofList? rates
    | throw (.invalidArgument ("Target angular velocity must be shape (3,), got " ++
        shapeText rates.length))
  pure ⟨q, w⟩

/-- The command to hold an attitude with zero rates. -/
def hold (attitude : List Float) : Outcome Command := make attitude [0.0, 0.0, 0.0]

/-- The target attitude as a quaternion: its first four components. A shorter target has
no component at the first missing index. -/
def target (c : Command) : Outcome Quat :=
  match c.attitude with
  | w :: x :: y :: z :: _ => pure ⟨w, x, y, z⟩
  | short =>
    throw (.indexOutOfRange ("index " ++ toString short.length ++
      " is out of bounds for axis 0 with size " ++ toString short.length))

end Command

/-- The memory of a guidance policy between accepted steps. -/
structure GuidanceMemory where
  time : Float := 0.0
  command : Option Command := none
  overridden : Bool := false
deriving Inhabited

/-- The unit vector along `v` (undefined for the zero vector). -/
def Vec3.unit (v : Vec3) : Vec3 := v.divScalar v.norm

/-- The direction cosine matrix with the given rows. -/
def Mat3.ofRows (a b c : Vec3) : Mat3 := ⟨a, b, c⟩

/-- The nadir frame of the current orbit: the inertial-to-frame rotation (rows: along
track, against the orbit normal, towards the centre) and the inertial angular velocity of
the frame, `h / |r|²`. -/
def orbitFrame (s : SatState) : Mat3 × Vec3 :=
  let r := s.position
  let h := r.cross s.velocity
  let z := -(Vec3.unit r)
  let y := -(Vec3.unit h)
  let x := y.cross z
  (Mat3.ofRows x y z, h.divScalar (r.dot r))

end Spacecraft
