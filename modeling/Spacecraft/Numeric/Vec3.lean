import Spacecraft.Numeric.Binary64

/-!
# Three-vectors and 3×3 matrices

Vectors and matrices of binary64 components with the exact evaluation order of every
operation, since results are compared bit for bit. Componentwise operations round once per
component. Inner products accumulate with fused multiply-add starting from zero; a product
with a matrix forms each entry from its three terms in a fixed order and adds it to a zero
entry, so an entry is never a negative zero. The physical constants the models share close
the module.
-/

namespace Spacecraft

/-- A number raised to at least `lo` and then lowered to at most `hi`. Only a value beyond a
bound is replaced, so a zero meeting a zero bound of the other sign keeps its own sign; an
undefined value stays undefined and an undefined bound is ignored. With `lo > hi` every
value becomes `hi`. -/
def clamp (x lo hi : Float) : Float :=
  let m := if x.isNaN then x else if x < lo then lo else x
  if m.isNaN then m else if m > hi then hi else m

/-- A vector of three binary64 components. -/
structure Vec3 where
  x : Float
  y : Float
  z : Float
deriving Inhabited

namespace Vec3

/-- The zero vector. -/
def zero : Vec3 := ⟨0.0, 0.0, 0.0⟩

/-- The components as a list. -/
def toList (v : Vec3) : List Float := [v.x, v.y, v.z]

/-- A vector from the first three entries of a list of exactly three. -/
def ofList? : List Float → Option Vec3
  | [a, b, c] => some ⟨a, b, c⟩
  | _ => none

/-- The components as a triple. -/
def toTriple (v : Vec3) : Float × Float × Float := (v.x, v.y, v.z)

/-- The vector of a triple of components. -/
def ofTriple (t : Float × Float × Float) : Vec3 := ⟨t.1, t.2.1, t.2.2⟩

instance : Add Vec3 := ⟨fun a b => ⟨a.x + b.x, a.y + b.y, a.z + b.z⟩⟩
instance : Sub Vec3 := ⟨fun a b => ⟨a.x - b.x, a.y - b.y, a.z - b.z⟩⟩
instance : Neg Vec3 := ⟨fun a => ⟨-a.x, -a.y, -a.z⟩⟩

/-- A scalar times a vector, `s * v_i` for each component. -/
def smul (s : Float) (v : Vec3) : Vec3 := ⟨s * v.x, s * v.y, s * v.z⟩

/-- A vector times a scalar, `v_i * s` for each component. -/
def mulScalar (v : Vec3) (s : Float) : Vec3 := ⟨v.x * s, v.y * s, v.z * s⟩

/-- Componentwise product. -/
def hadamard (a b : Vec3) : Vec3 := ⟨a.x * b.x, a.y * b.y, a.z * b.z⟩

/-- A vector divided by a scalar, component by component. -/
def divScalar (v : Vec3) (s : Float) : Vec3 := ⟨v.x / s, v.y / s, v.z / s⟩

/-- A function applied to each component. -/
def map (f : Float → Float) (v : Vec3) : Vec3 := ⟨f v.x, f v.y, f v.z⟩

/-- The inner product, accumulated by fused multiply-add from zero in index order. -/
def dot (a b : Vec3) : Float :=
  Binary64.fma a.z b.z (Binary64.fma a.y b.y (Binary64.fma a.x b.x 0.0))

/-- The Euclidean length, the square root of the inner product with itself. -/
def norm (v : Vec3) : Float := (dot v v).sqrt

/-- The cross product, each component a difference of two rounded products. -/
def cross (a b : Vec3) : Vec3 :=
  ⟨a.y * b.z - a.z * b.y, a.z * b.x - a.x * b.z, a.x * b.y - a.y * b.x⟩

/-- The component at an index. -/
def get (v : Vec3) (i : Fin 3) : Float :=
  match i.val with
  | 0 => v.x
  | 1 => v.y
  | _ => v.z

/-- The vector with the component at an index replaced. -/
def set (v : Vec3) (i : Fin 3) (a : Float) : Vec3 :=
  match i.val with
  | 0 => { v with x := a }
  | 1 => { v with y := a }
  | _ => { v with z := a }

/-- Whether all components are finite. -/
def isFinite (v : Vec3) : Bool := v.x.isFinite && v.y.isFinite && v.z.isFinite

/-- Each component clipped to `[lo, hi]` as `clamp` does. -/
def clip (v : Vec3) (lo hi : Float) : Vec3 := v.map (clamp · lo hi)

end Vec3

/-- The inner product of two lists, accumulated by fused multiply-add from zero. -/
def dotList (a b : List Float) : Float :=
  (a.zip b).foldl (fun acc (u, v) => Binary64.fma u v acc) 0.0

/-- The Euclidean length of a list of components. -/
def normList (a : List Float) : Float := (dotList a a).sqrt

/-- A 3×3 matrix given by its rows. -/
structure Mat3 where
  r0 : Vec3
  r1 : Vec3
  r2 : Vec3
deriving Inhabited

namespace Mat3

/-- The row at an index. -/
def row (m : Mat3) (i : Fin 3) : Vec3 :=
  match i.val with
  | 0 => m.r0
  | 1 => m.r1
  | _ => m.r2

/-- The entry at a row and a column. -/
def get (m : Mat3) (i j : Fin 3) : Float := (m.row i).get j

/-- The matrix with one entry replaced. -/
def set (m : Mat3) (i j : Fin 3) (a : Float) : Mat3 :=
  match i.val with
  | 0 => { m with r0 := m.r0.set j a }
  | 1 => { m with r1 := m.r1.set j a }
  | _ => { m with r2 := m.r2.set j a }

/-- The identity matrix. -/
def identity : Mat3 := ⟨⟨1.0, 0.0, 0.0⟩, ⟨0.0, 1.0, 0.0⟩, ⟨0.0, 0.0, 1.0⟩⟩

/-- A diagonal matrix. -/
def diag (d : Vec3) : Mat3 := ⟨⟨d.x, 0.0, 0.0⟩, ⟨0.0, d.y, 0.0⟩, ⟨0.0, 0.0, d.z⟩⟩

/-- The rows as lists. -/
def toLists (m : Mat3) : List (List Float) := [m.r0.toList, m.r1.toList, m.r2.toList]

/-- The columns. -/
def c0 (m : Mat3) : Vec3 := ⟨m.r0.x, m.r1.x, m.r2.x⟩
def c1 (m : Mat3) : Vec3 := ⟨m.r0.y, m.r1.y, m.r2.y⟩
def c2 (m : Mat3) : Vec3 := ⟨m.r0.z, m.r1.z, m.r2.z⟩

/-- The transpose. -/
def transpose (m : Mat3) : Mat3 := ⟨m.c0, m.c1, m.c2⟩

/-- The diagonal. -/
def diagonal (m : Mat3) : Vec3 := ⟨m.r0.x, m.r1.y, m.r2.z⟩

/-- One entry of a matrix-vector product: the middle term rounded, the first and the last
fused onto it, then added to zero. -/
def rowTimes (r v : Vec3) : Float :=
  0.0 + Binary64.fma r.z v.z (Binary64.fma r.x v.x (r.y * v.y))

/-- The product `m v`. -/
def mulVec (m : Mat3) (v : Vec3) : Vec3 := ⟨rowTimes m.r0 v, rowTimes m.r1 v, rowTimes m.r2 v⟩

/-- One entry of a transposed product: the terms fused in index order from zero, then added
to zero. -/
def columnTimes (c v : Vec3) : Float :=
  0.0 + Binary64.fma c.z v.z (Binary64.fma c.y v.y (Binary64.fma c.x v.x 0.0))

/-- The product `mᵀ v`, which is also the row vector product `v m`. -/
def tmulVec (m : Mat3) (v : Vec3) : Vec3 :=
  ⟨columnTimes m.c0 v, columnTimes m.c1 v, columnTimes m.c2 v⟩

/-- The matrix product `a b`, each entry fused in index order from zero. -/
def mul (a b : Mat3) : Mat3 :=
  let row (r : Vec3) : Vec3 := ⟨columnTimes r b.c0, columnTimes r b.c1, columnTimes r b.c2⟩
  ⟨row a.r0, row a.r1, row a.r2⟩

/-- Whether every entry off the diagonal is zero. -/
def isDiagonal (m : Mat3) : Bool :=
  m.r0.y == 0.0 && m.r0.z == 0.0 && m.r1.x == 0.0 && m.r1.z == 0.0 &&
    m.r2.x == 0.0 && m.r2.y == 0.0

/-- A matrix from three rows of three. -/
def ofLists? : List (List Float) → Option Mat3
  | [a, b, c] => do
    let ra ← Vec3.ofList? a
    let rb ← Vec3.ofList? b
    let rc ← Vec3.ofList? c
    pure ⟨ra, rb, rc⟩
  | _ => none

end Mat3

end Spacecraft

/-! ## Physical constants

The Earth model (WGS84 radius and gravitational parameter, EGM96 zonal coefficients, the
sidereal rotation rate), the astronomical unit and solar radius, and the angle conversions.
-/

namespace Spacecraft

/-- Gravitational parameter of the Earth [m³/s²]. -/
def muEarth : Float := 3.986004418e14

/-- Equatorial radius of the Earth [m]. -/
def earthRadius : Float := 6378137.0

/-- Rotation rate of the Earth [rad/s]. -/
def earthRate : Float := 7.2921159e-5

/-- Unnormalized zonal coefficients of the geopotential. -/
def zonalJ2 : Float := 1.08262668e-3
def zonalJ3 : Float := -2.53265649e-6
def zonalJ4 : Float := -1.61962159e-6

/-- Radius below which the harmonic series is not evaluated [m]. -/
def minGravityRadius : Float := 1.0e6

/-- Astronomical unit [m]. -/
def astronomicalUnit : Float := 1.495978707e11

/-- Radius of the Sun [m]. -/
def sunRadius : Float := 6.957e8

/-- π to binary64 precision. -/
def pi : Float := 3.141592653589793

/-- Degrees to radians: a product with the binary64 value of `π / 180`. -/
def radians (deg : Float) : Float := deg * (pi / 180.0)

end Spacecraft
