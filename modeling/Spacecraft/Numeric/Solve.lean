import Spacecraft.Numeric.Vec3
import Spacecraft.Fault

/-!
# Solving 3×3 linear systems

The LU factorization with partial pivoting of LAPACK's `gesv`, in its left-looking (column by
column) order:
each column first receives the earlier row exchanges, then its upper part is reduced by
inner products with the finished rows of the lower factor, then its lower part by the
finished columns, and finally its pivot is chosen as the first entry of largest magnitude
and the entries below it are scaled by the pivot's reciprocal. A zero pivot makes the matrix
singular. The triangular solves subtract with fused multiply-add and divide by the diagonal.
-/

namespace Spacecraft

namespace Linear

/-- The indices below `n`. -/
def below (n : Nat) : List (Fin 3) := (List.finRange 3).filter (·.val < n)

/-- Exchanges entries `i` and `k` of column `j`. -/
def swapInColumn (g : Mat3) (i k j : Fin 3) : Mat3 :=
  let a := g.get i j
  let b := g.get k j
  (g.set i j b).set k j a

/-- The first index of largest magnitude among rows `j, j+1, …` of column `j`. -/
def pivotRow (g : Mat3) (j : Fin 3) : Fin 3 :=
  (List.finRange 3).foldl (fun best i =>
    if i.val > j.val && (g.get i j).abs > (g.get best j).abs then i else best) j

/-- Entry `(i, j)` less the inner product of row `i` of the lower factor and column `j` of
the upper factor over the first `n` indices. -/
def reduceEntry (g : Mat3) (i j : Fin 3) (n : Nat) : Mat3 :=
  g.set i j (g.get i j - dotList ((below n).map (g.get i ·)) ((below n).map (g.get · j)))

/-- Processes column `j` of the elimination: the factors so far, the pivot rows chosen and
whether a zero pivot was met. -/
def eliminateColumn (state : Mat3 × List (Fin 3) × Bool) (j : Fin 3) :
    Mat3 × List (Fin 3) × Bool :=
  let (g, pivots, singular) := state
  let g := (pivots.zip (below j.val)).foldl (fun g (p, i) => swapInColumn g i p j) g
  let g := (below j.val).foldl (fun g i => if i.val = 0 then g else reduceEntry g i j i.val) g
  let g := if j.val = 0 then g else
    (List.finRange 3).foldl (fun g i => if i.val < j.val then g else reduceEntry g i j j.val) g
  let p := pivotRow g j
  let t := g.get p j
  if t == 0.0 then (g, pivots ++ [p], true) else
  let g := if p = j then g else (below (j.val + 1)).foldl (fun g c => swapInColumn g j p c) g
  let r := 1.0 / t
  let g := (List.finRange 3).foldl (fun g i =>
    if i.val > j.val then g.set i j (g.get i j * r) else g) g
  (g, pivots ++ [p], singular)

/-- The solution of `m x = b` by the pivoted LU factors, as `gesv` computes it; a singular
matrix is refused. -/
def solve (m : Mat3) (b : Vec3) : Outcome Vec3 :=
  let (g, pivots, singular) := (List.finRange 3).foldl eliminateColumn (m, [], false)
  if singular then .error .singularMatrix else
  let v := (pivots.zip (List.finRange 3)).foldl (fun v (p, i) =>
    (v.set i (v.get p)).set p (v.get i)) b
  let v := (List.finRange 3).foldl (fun v j =>
    (List.finRange 3).foldl (fun v r =>
      if r.val > j.val then v.set r (Binary64.fma (-(v.get j)) (g.get r j) (v.get r)) else v) v) v
  let v := (List.finRange 3).reverse.foldl (fun v j =>
    let xj := v.get j / g.get j j
    (List.finRange 3).foldl (fun v r =>
      if r.val < j.val then v.set r (Binary64.fma (-xj) (g.get r j) (v.get r)) else v)
      (v.set j xj)) v
  .ok v

end Linear

end Spacecraft
