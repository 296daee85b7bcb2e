import Spacecraft.Numeric.Vec3
import Spacecraft.Numeric.Binary64
import Spacecraft.Fault

/-!
# Eigenvalues of a symmetric 3×3 matrix

The eigenvalues in increasing order, by the classical two-stage method. A Householder
reflection built from the lower triangle reduces the matrix to a symmetric tridiagonal one
with the same eigenvalues; its vector products are fused multiply-adds. The tridiagonal
matrix is then diagonalized by the square-root-free implicit QL iteration (QR when the
bottom of a block is smaller than its top) with Wilkinson-like shifts, splitting the matrix
where an off-diagonal entry is negligible and solving each remaining 2×2 block in closed
form. Thirty shifted sweeps per row are allowed; a matrix that needs more is refused.
-/

namespace Spacecraft

namespace Eigen

/-- The unit roundoff of binary64, 2⁻⁵³. -/
def roundoff : Float := 1.1102230246251565e-16

/-- The square of the unit roundoff. -/
def roundoffSq : Float := roundoff * roundoff

/-- The magnitude of `a` with the sign of `b`, a negative zero counting as negative. -/
def withSignOf (a b : Float) : Float :=
  if Binary64.signBitSet b then -a.abs else a.abs

/-- `√(x² + y²)` without needless overflow; an undefined argument gives an undefined
result. -/
def hypot (x y : Float) : Float :=
  if x.isNaN then x else if y.isNaN then y else
  let w := if x.abs ≥ y.abs then x.abs else y.abs
  let z := if x.abs ≥ y.abs then y.abs else x.abs
  if z == 0.0 || w > 1.7976931348623157e308 then w
  else w * (1.0 + (z / w) * (z / w)).sqrt

/-- The eigenvalues of the symmetric 2×2 matrix `[[a, b], [b, c]]`, larger magnitude first;
the smaller is recovered from the determinant to keep it accurate. -/
def pairValues (a b c : Float) : Float × Float :=
  let sm := a + c
  let adf := (a - c).abs
  let ab := (b + b).abs
  let (acmx, acmn) := if a.abs > c.abs then (a, c) else (c, a)
  let rt :=
    if adf > ab then adf * (1.0 + (ab / adf) * (ab / adf)).sqrt
    else if adf < ab then ab * (1.0 + (adf / ab) * (adf / ab)).sqrt
    else ab * (2.0 : Float).sqrt
  if sm < 0.0 then
    let rt1 := 0.5 * (sm - rt)
    (rt1, (acmx / rt1) * acmn - (b / rt1) * b)
  else if sm > 0.0 then
    let rt1 := 0.5 * (sm + rt)
    (rt1, (acmx / rt1) * acmn - (b / rt1) * b)
  else (0.5 * rt, -0.5 * rt)

/-- A symmetric tridiagonal matrix during the iteration: its diagonal, its off-diagonal
(squared once a block is being iterated) and the number of shifted sweeps made so far. -/
structure Tridiagonal where
  diag : Array Float
  off : Array Float
  sweeps : Nat := 0

namespace Tridiagonal

/-- Diagonal entry `i`. -/
def d (t : Tridiagonal) (i : Nat) : Float := t.diag.getD i 0.0

/-- Off-diagonal entry `i`. -/
def e (t : Tridiagonal) (i : Nat) : Float := t.off.getD i 0.0

/-- Replaces diagonal entry `i`. -/
def setD (t : Tridiagonal) (i : Nat) (x : Float) : Tridiagonal :=
  { t with diag := t.diag.setIfInBounds i x }

/-- Replaces off-diagonal entry `i`. -/
def setE (t : Tridiagonal) (i : Nat) (x : Float) : Tridiagonal :=
  { t with off := t.off.setIfInBounds i x }

/-- The shift of a sweep from the top two rows of the block (entries `top`, `next` and the
off-diagonal `link` between them). -/
def shift (t : Tridiagonal) (top next link : Nat) : Float :=
  let p := t.d top
  let rte := (t.e link).sqrt
  let sigma := (t.d next - p) / (2.0 * rte)
  let r := hypot sigma 1.0
  p - rte / (sigma + withSignOf r sigma)

/-- One rotation of a sweep: the state `(t, c, s, γ, p)` after treating off-diagonal entry
`i`, whose diagonal neighbour away from the sweep's start is `far`, writing the rotated
entry `near`; `first` says whether this is the sweep's first rotation and `back` is the
off-diagonal entry that receives the previous rotation's product. -/
def rotate (sigma : Float) (state : Tridiagonal × Float × Float × Float × Float)
    (i far near back : Nat) (first : Bool) : Tridiagonal × Float × Float × Float × Float :=
  let (t, c, s, gamma, p) := state
  let bb := t.e i
  let r := p + bb
  let t := if first then t else t.setE back (s * r)
  let c' := p / r
  let s' := bb / r
  let alpha := t.d far
  let gamma' := c' * (alpha - sigma) - s' * gamma
  let t := t.setD near (gamma + (alpha - gamma'))
  let p' := if c' != 0.0 then (gamma' * gamma') / c' else c * bb
  (t, c', s', gamma', p')

/-- Implicit QL iteration on rows `l … lend` (with `l ≤ lend`), deflating from the top. -/
def iterateDown (limit : Nat) : Nat → Tridiagonal → Nat → Nat → Tridiagonal
  | 0, t, _, _ => t
  | fuel + 1, t, l, lend =>
    let m := ((List.range' l (lend - l)).find? fun m =>
      (t.e m).abs ≤ roundoffSq * (t.d m * t.d (m + 1)).abs).getD lend
    let t := if m < lend then t.setE m 0.0 else t
    if m == l then
      if l + 1 ≤ lend then iterateDown limit fuel t (l + 1) lend else t
    else if m == l + 1 then
      let (r1, r2) := pairValues (t.d l) (t.e l).sqrt (t.d (l + 1))
      let t := ((t.setD l r1).setD (l + 1) r2).setE l 0.0
      if l + 2 ≤ lend then iterateDown limit fuel t (l + 2) lend else t
    else if t.sweeps == limit then t
    else
      let t := { t with sweeps := t.sweeps + 1 }
      let sigma := t.shift l (l + 1) l
      let gamma := t.d m - sigma
      let (t, _, s, gamma, p) := ((List.range' l (m - l)).reverse).foldl
        (fun st i => rotate sigma st i i (i + 1) (i + 1) (i + 1 == m))
        (t, 1.0, 0.0, gamma, gamma * gamma)
      iterateDown limit fuel ((t.setE l (s * p)).setD l (sigma + gamma)) l lend

/-- Implicit QR iteration on rows `lend … l` (with `lend < l`), deflating from the bottom. -/
def iterateUp (limit : Nat) : Nat → Tridiagonal → Nat → Nat → Tridiagonal
  | 0, t, _, _ => t
  | fuel + 1, t, l, lend =>
    let m := ((List.range' (lend + 1) (l - lend)).reverse.find? fun m =>
      (t.e (m - 1)).abs ≤ roundoffSq * (t.d m * t.d (m - 1)).abs).getD lend
    let t := if m > lend then t.setE (m - 1) 0.0 else t
    if m == l then
      if l ≥ lend + 1 then iterateUp limit fuel t (l - 1) lend else t
    else if m + 1 == l then
      let (r1, r2) := pairValues (t.d l) (t.e (l - 1)).sqrt (t.d (l - 1))
      let t := ((t.setD l r1).setD (l - 1) r2).setE (l - 1) 0.0
      if l ≥ lend + 2 then iterateUp limit fuel t (l - 2) lend else t
    else if t.sweeps == limit then t
    else
      let t := { t with sweeps := t.sweeps + 1 }
      let sigma := t.shift l (l - 1) (l - 1)
      let gamma := t.d m - sigma
      let (t, _, s, gamma, p) := (List.range' m (l - m)).foldl
        (fun st i => rotate sigma st i (i + 1) i (i - 1) (i == m))
        (t, 1.0, 0.0, gamma, gamma * gamma)
      iterateUp limit fuel ((t.setE (l - 1) (s * p)).setD l (sigma + gamma)) l lend

/-- The largest magnitude of the entries of a block, an undefined entry winning. -/
def blockNorm (t : Tridiagonal) (l lend : Nat) : Float :=
  let entries := (List.range' l (lend - l)).flatMap fun i => [t.d i, t.e i]
  entries.foldl (fun a x => if a < x.abs || x.abs.isNaN then x.abs else a) (t.d lend).abs

/-- Splits the matrix into unreduced blocks from row `start` on and diagonalizes each. -/
def diagonalize (limit : Nat) : Nat → Tridiagonal → Nat → Tridiagonal
  | 0, t, _ => t
  | fuel + 1, t, start =>
    let n := t.diag.size
    if start ≥ n then t else
    let t := if start > 0 then t.setE (start - 1) 0.0 else t
    let found := (List.range' start (n - 1 - start)).find? fun m =>
      (t.e m).abs ≤ ((t.d m).abs.sqrt * (t.d (m + 1)).abs.sqrt) * roundoff
    let t := match found with
      | some m => t.setE m 0.0
      | none => t
    let lend := found.getD (n - 1)
    if lend == start || t.blockNorm start lend == 0.0 then diagonalize limit fuel t (lend + 1) else
    let t := (List.range' start (lend - start)).foldl (fun t i => t.setE i (t.e i * t.e i)) t
    let budget := limit + n + 1
    let t := if (t.d lend).abs < (t.d start).abs then iterateUp limit budget t lend start
      else iterateDown limit budget t start lend
    if t.sweeps < limit then diagonalize limit fuel t (lend + 1) else t

/-- Inserts a value into an increasing list after every entry that is not above it. -/
def insertSorted (x : Float) : List Float → List Float
  | [] => [x]
  | y :: ys => if x < y then x :: y :: ys else y :: insertSorted x ys

end Tridiagonal

/-- The tridiagonal form of a symmetric matrix, read from its lower triangle: one
Householder reflection clears entry (3, 1). -/
def tridiagonalOf (a : Mat3) : Tridiagonal :=
  let alpha := a.r1.x
  let x := a.r2.x
  if x.abs == 0.0 then ⟨#[a.r0.x, a.r1.y, a.r2.z], #[alpha, a.r2.y], 0⟩ else
  let beta := -withSignOf (hypot alpha x.abs) alpha
  let tau := (beta - alpha) / beta
  let v := x * (1.0 / (alpha - beta))
  let fma := Binary64.fma
  -- y = τ B u for the trailing block B and u = (1, v)
  let y0 := fma tau a.r1.y 0.0
  let y1 := fma tau a.r2.y 0.0
  let y0 := fma tau (fma a.r2.y v 0.0) y0
  let y1 := fma (tau * v) a.r2.z y1
  let y1 := fma tau 0.0 y1
  -- w = y - ½ τ (y · u) u
  let k := -0.5 * tau * fma y1 v (fma y0 1.0 0.0)
  let w0 := fma k 1.0 y0
  let w1 := fma k v y1
  -- B - u wᵀ - w uᵀ on the lower triangle
  let b11 := fma (-w0) 1.0 (fma (-1.0) w0 a.r1.y)
  let b21 := fma (-w0) v (fma (-1.0) w1 a.r2.y)
  let b22 := fma (-w1) v (fma (-v) w1 a.r2.z)
  ⟨#[a.r0.x, b11, b22], #[beta, b21], 0⟩

/-- The eigenvalues of a symmetric matrix in increasing order; a matrix on which the
iteration does not settle is refused. -/
def symmetricValues (a : Mat3) : Outcome (List Float) :=
  let limit := 3 * 30
  let t := (tridiagonalOf a).diagonalize limit 4 0
  if t.sweeps ≥ limit && t.off.any (· != 0.0) then .error .noConvergence
  else .ok (t.diag.toList.foldl (fun acc x => Tridiagonal.insertSorted x acc) [])

end Eigen

end Spacecraft
