import Spacecraft.Attitude.Quaternion
import Spacecraft.Numeric.Vec3

/-!
# Satellite state

The state of one rigid satellite at one instant: inertial position and velocity, attitude
quaternion (inertial to body), body angular velocity, mass, inertia tensor and time. The
first fourteen quantities are integrated; the inertia tensor travels along unchanged.

A state is built from component lists whose lengths are checked in a fixed order, and its
quaternion is scaled to unit length when all its components are finite (a non-finite one is
kept, so that divergence stays visible). States on circular orbits and from Keplerian
elements are built by rotating the orbit-plane position and velocity into the inertial
frame.
-/

namespace Spacecraft

/-- The state of the satellite at one instant. -/
structure SatState where
  position : Vec3
  velocity : Vec3
  quaternion : Quat
  angularVelocity : Vec3
  mass : Float
  inertia : Mat3
  time : Float
deriving Inhabited

/-- The shape text of a one-dimensional list. -/
def shapeText (n : Nat) : String := "(" ++ toString n ++ ",)"

/-- The shape text of a list of rows: `(rows, columns)` when the rows have one length. -/
def shapeText2 (rows : List (List Float)) : String :=
  match rows with
  | [] => "(0,)"
  | r :: _ => "(" ++ toString rows.length ++ ", " ++ toString r.length ++ ")"

namespace SatState

/-- A length check with its message. -/
def checkLength (label : String) (cs : List Float) (n : Nat) : Outcome Unit :=
  if cs.length = n then .ok ()
  else .error (.invalidArgument (label ++ " must be shape (" ++ toString n ++ ",), got " ++
    shapeText cs.length))

/-- Builds a state from components: the lengths are checked in the order position,
velocity, quaternion, angular velocity, inertia, and a finite quaternion is normalized. -/
def make (position velocity quaternion angularVelocity : List Float) (mass : Float)
    (inertia : List (List Float)) (time : Float) : Outcome SatState := do
  checkLength "Position" position 3
  checkLength "Velocity" velocity 3
  checkLength "Quaternion" quaternion 4
  checkLength "Angular velocity" angularVelocity 3
  let some m := Mat3.ofLists? inertia
    | .error (.invalidArgument ("Inertia must be shape (3, 3), got " ++ shapeText2 inertia))
  let q ← Quat.ofList quaternion
  let q ← if q.isFinite then Quat.normalize q else pure q
  let some p := Vec3.ofList? position | .error default
  let some v := Vec3.ofList? velocity | .error default
  let some w := Vec3.ofList? angularVelocity | .error default
  pure ⟨p, v, q, w, mass, m, time⟩

/-- The same state with its arrays replaced, checked and normalized as `make` does. -/
def ofParts (p v : Vec3) (q : Quat) (w : Vec3) (mass : Float) (inertia : Mat3) (time : Float) :
    Outcome SatState := do
  let q ← if q.isFinite then Quat.normalize q else pure q
  pure ⟨p, v, q, w, mass, inertia, time⟩

/-- The fourteen integrated quantities: position, velocity, quaternion, angular velocity
and mass. -/
def toArray (s : SatState) : List Float :=
  s.position.toList ++ s.velocity.toList ++ s.quaternion.toList ++ s.angularVelocity.toList ++
    [s.mass]

/-- The state of a flat array of fourteen quantities, as `toArray` lays them out; an array
without a mass entry is refused at that index. -/
def ofArray (a : List Float) (inertia : List (List Float)) (time : Float := 0.0) :
    Outcome SatState := do
  let some mass := a[13]?
    | .error (.indexOutOfRange ("index 13 is out of bounds for axis 0 with size " ++
        toString a.length))
  let part (i n : Nat) := (a.drop i).take n
  make (part 0 3) (part 3 3) (part 6 4) (part 10 3) mass inertia time

/-- A copy of the state rebuilt from its parts, so that a finite quaternion is normalized
once more. Normalizing a unit quaternion can move it by a unit in the last place, so a
copy is not always equal to the state it copies. -/
def copy (s : SatState) : Outcome SatState :=
  ofParts s.position s.velocity s.quaternion s.angularVelocity s.mass s.inertia s.time

/-- Whether every integrated quantity is finite. -/
def isFinite (s : SatState) : Bool := s.toArray.all Float.isFinite

/-- Distance from the centre of the Earth. -/
def radius (s : SatState) : Float := s.position.norm

/-- Height above the equatorial radius. -/
def altitude (s : SatState) : Float := s.radius - earthRadius

/-- Inertial speed. -/
def speed (s : SatState) : Float := s.velocity.norm

/-- Magnitude of the body angular velocity. -/
def spinRate (s : SatState) : Float := s.angularVelocity.norm

/-- Angular momentum `I ω` in the body frame. -/
def angularMomentum (s : SatState) : Vec3 := s.inertia.mulVec s.angularVelocity

/-- Rotational kinetic energy `(½ ω) I ω`. -/
def rotationalEnergy (s : SatState) : Float :=
  (s.inertia.tmulVec (Vec3.smul 0.5 s.angularVelocity)).dot s.angularVelocity

/-- Specific orbital angular momentum `r × v`. -/
def orbitalMomentum (s : SatState) : Vec3 := s.position.cross s.velocity

/-- Two-body specific orbital energy `v²/2 - μ/r`; refused at the centre. -/
def orbitalEnergy (s : SatState) (mu : Float := muEarth) : Outcome Float := do
  let q ← divOrFault mu s.radius
  pure (0.5 * Float.pow s.speed 2.0 - q)

/-- The direction cosine matrix mapping inertial components to body components. -/
def dcm (s : SatState) : Outcome Mat3 := s.quaternion.toDcm

/-- An inertial vector in body components. -/
def toBody (s : SatState) (v : Vec3) : Outcome Vec3 := do
  let m ← s.dcm
  pure (m.mulVec v)

/-- A body vector in inertial components, through the transposed matrix. -/
def toInertial (s : SatState) (v : Vec3) : Outcome Vec3 := do
  let m ← s.dcm
  pure (m.tmulVec v)

end SatState

end Spacecraft
