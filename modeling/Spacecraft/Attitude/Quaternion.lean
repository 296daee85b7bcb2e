import Spacecraft.Numeric.Vec3
import Spacecraft.Fault

/-!
# Attitude quaternions

Scalar-first quaternions `[q0, q1, q2, q3]` describing the rotation from the inertial frame
to the body frame: normalization, the Hamilton product, direction cosine matrices both ways
(Shepperd's method, with the sign fixed so that `q0 ≥ 0`), axis-angle construction, the
error quaternion between two attitudes and its angle, and Z-Y-X Euler angles.

Quaternions arrive as lists of components; an operation that reads exactly four
components refuses other lengths the way unpacking four values does.
-/

namespace Spacecraft

/-- A quaternion, scalar part first. -/
structure Quat where
  w : Float
  x : Float
  y : Float
  z : Float
deriving Inhabited

namespace Quat

/-- The identity rotation. -/
def identity : Quat := ⟨1.0, 0.0, 0.0, 0.0⟩

/-- The components as a list. -/
def toList (q : Quat) : List Float := [q.w, q.x, q.y, q.z]

/-- The vector part. -/
def vec (q : Quat) : Vec3 := ⟨q.x, q.y, q.z⟩

/-- Each component negated. -/
def negate (q : Quat) : Quat := ⟨-q.w, -q.x, -q.y, -q.z⟩

/-- Whether all components are finite. -/
def isFinite (q : Quat) : Bool := q.w.isFinite && q.x.isFinite && q.y.isFinite && q.z.isFinite

/-- The four components of a list of exactly four, refusing other lengths as unpacking
does. -/
def ofList (cs : List Float) : Outcome Quat :=
  match cs with
  | [a, b, c, d] => .ok ⟨a, b, c, d⟩
  | _ =>
    if cs.length < 4 then
      .error (.invalidArgument ("not enough values to unpack (expected 4, got " ++
        toString cs.length ++ ")"))
    else .error (.invalidArgument "too many values to unpack (expected 4)")

/-- The Euclidean length of the components. -/
def norm (q : Quat) : Float := normList q.toList

/-- A list of components scaled to unit length. Lengths below `1e-12` are refused; a NaN
length passes and gives NaN components. -/
def normalizeList (cs : List Float) : Outcome (List Float) :=
  let n := normList cs
  if n < 1e-12 then .error (.invalidArgument "Cannot normalize a zero-length quaternion")
  else .ok (cs.map (· / n))

/-- A quaternion scaled to unit length. -/
def normalize (q : Quat) : Outcome Quat := do
  let cs ← normalizeList q.toList
  ofList cs

/-- The Hamilton product `p ⊗ q`. -/
def mul (p q : Quat) : Quat :=
  ⟨p.w * q.w - p.x * q.x - p.y * q.y - p.z * q.z,
   p.w * q.x + p.x * q.w + p.y * q.z - p.z * q.y,
   p.w * q.y - p.x * q.z + p.y * q.w + p.z * q.x,
   p.w * q.z + p.x * q.y - p.y * q.x + p.z * q.w⟩

/-- The conjugate, the inverse of a unit quaternion. -/
def conj (q : Quat) : Quat := ⟨q.w, -q.x, -q.y, -q.z⟩

/-- The direction cosine matrix of a unit quaternion's components. -/
def dcmOfUnit (q : Quat) : Mat3 :=
  let sq (a : Float) := a * a
  ⟨⟨1.0 - 2.0 * (sq q.y + sq q.z), 2.0 * (q.x * q.y + q.w * q.z), 2.0 * (q.x * q.z - q.w * q.y)⟩,
   ⟨2.0 * (q.x * q.y - q.w * q.z), 1.0 - 2.0 * (sq q.x + sq q.z), 2.0 * (q.y * q.z + q.w * q.x)⟩,
   ⟨2.0 * (q.x * q.z + q.w * q.y), 2.0 * (q.y * q.z - q.w * q.x), 1.0 - 2.0 * (sq q.x + sq q.y)⟩⟩

/-- The direction cosine matrix mapping inertial components to body components; the
components are normalized first. -/
def toDcmList (cs : List Float) : Outcome Mat3 := do
  let u ← normalizeList cs
  let q ← ofList u
  pure (dcmOfUnit q)

/-- The direction cosine matrix of a quaternion. -/
def toDcm (q : Quat) : Outcome Mat3 := toDcmList q.toList

/-- The quaternion of a direction cosine matrix by Shepperd's method: the branch follows the
trace and then the largest diagonal entry; the sign makes the scalar part non-negative. -/
def ofDcm (m : Mat3) : Outcome Quat :=
  let trace := m.r0.x + m.r1.y + m.r2.z
  let q : Quat :=
    if trace > 0.0 then
      let s := 2.0 * (trace + 1.0).sqrt
      ⟨0.25 * s, (m.r1.z - m.r2.y) / s, (m.r2.x - m.r0.z) / s, (m.r0.y - m.r1.x) / s⟩
    else if m.r0.x > m.r1.y && m.r0.x > m.r2.z then
      let s := 2.0 * (1.0 + m.r0.x - m.r1.y - m.r2.z).sqrt
      ⟨(m.r1.z - m.r2.y) / s, 0.25 * s, (m.r0.y + m.r1.x) / s, (m.r0.z + m.r2.x) / s⟩
    else if m.r1.y > m.r2.z then
      let s := 2.0 * (1.0 + m.r1.y - m.r0.x - m.r2.z).sqrt
      ⟨(m.r2.x - m.r0.z) / s, (m.r0.y + m.r1.x) / s, 0.25 * s, (m.r1.z + m.r2.y) / s⟩
    else
      let s := 2.0 * (1.0 + m.r2.z - m.r0.x - m.r1.y).sqrt
      ⟨(m.r0.y - m.r1.x) / s, (m.r0.z + m.r2.x) / s, (m.r1.z + m.r2.y) / s, 0.25 * s⟩
  let q := if q.w < 0.0 then q.negate else q
  normalize q

/-- The rotation by `angle` radians about an axis of any length: the cosine of the half
angle followed by the sine of the half angle times each component of the unit axis. -/
def ofAxisAngleList (axis : List Float) (angle : Float) : List Float :=
  let n := normList axis
  let unit := axis.map (· / n)
  let half := 0.5 * angle
  half.cos :: unit.map (half.sin * ·)

/-- The error quaternion `target* ⊗ current`, sign fixed so the scalar part is
non-negative. -/
def error (current target : Quat) : Quat :=
  let e := mul (conj target) current
  if e.w < 0.0 then e.negate else e

/-- The rotation angle of an error quaternion, `2 acos |q0|` with `|q0|` clipped to
`[0, 1]`. -/
def angleOfScalar (q0 : Float) : Float :=
  let a := q0.abs
  let w := if a.isNaN then a else if a > 1.0 then 1.0 else a
  2.0 * w.acos

/-- The rotation angle of a quaternion. -/
def angle (q : Quat) : Float := angleOfScalar q.w

/-- `π / 2` with the sign of `s`. -/
def halfPiWithSign (s : Float) : Float :=
  if Binary64.signBitSet s then -(Float.acos 0.0) else Float.acos 0.0

/-- Roll, pitch and yaw (Z-Y-X Euler angles) of a quaternion's components, normalized
first. Pitch is clamped to `±π/2` where its sine reaches one in size. -/
def toEulerList (cs : List Float) : Outcome (Float × Float × Float) := do
  let u ← normalizeList cs
  let q ← ofList u
  let roll := Float.atan2 (2.0 * (q.w * q.x + q.y * q.z)) (1.0 - 2.0 * (q.x * q.x + q.y * q.y))
  let sinp := 2.0 * (q.w * q.y - q.z * q.x)
  let pitch := if sinp.abs ≥ 1.0 then halfPiWithSign sinp else sinp.asin
  let yaw := Float.atan2 (2.0 * (q.w * q.z + q.x * q.y)) (1.0 - 2.0 * (q.y * q.y + q.z * q.z))
  pure (roll, pitch, yaw)

/-- Roll, pitch and yaw of a quaternion. -/
def toEuler (q : Quat) : Outcome (Float × Float × Float) := toEulerList q.toList

end Quat

end Spacecraft
