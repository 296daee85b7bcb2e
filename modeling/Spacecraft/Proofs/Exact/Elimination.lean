import Mathlib
import Spacecraft.Numeric.Solve
import Spacecraft.Proofs.Exact.Reading

/-!
# LU factorization with partial pivoting in exact arithmetic

`Elimination.solve` is `Linear.solve` over any ordered `Scalar` with the matrix as a function
of its two indices: the LU factorization with partial pivoting of LAPACK's `gesv`, left-looking,
column by column, and the same triangular solves. At `Float` it is the binary64 solver (`Linear.solve_toFun`).

Over the real numbers it solves every nonsingular system exactly. After the columns before
`j` are processed, the rows of the matrix taken in the order the pivots give factor, on those
columns, into the unit lower factor held below the diagonal times the upper factor held on
and above it, and the columns from `j` on are untouched (`Factored`). Each column keeps this
(`Factored.step`); a column whose candidate pivots are all zero has its rows in the span of
the columns before it, so the matrix is singular. The triangular solves then invert the two
factors, and the pivots' row order is undone by the exchanges applied to the right-hand side.
-/

namespace Spacecraft

namespace Elimination

section Formulas

variable {K : Type} [Scalar K] [LT K] [DecidableLT K]

/-- The matrix with entry `(i, j)` replaced. -/
def setEntry (g : Matrix (Fin 3) (Fin 3) K) (i j : Fin 3) (a : K) : Matrix (Fin 3) (Fin 3) K :=
  Function.update g i (Function.update (g i) j a)

/-- The inner product of two lists, accumulated by fused multiply-add from zero. -/
def dot (a b : List K) : K := (a.zip b).foldl (fun acc (u, v) => Scalar.fma u v acc) 0.0

/-- Exchanges entries `i` and `k` of column `j`. -/
def swapInColumn (g : Matrix (Fin 3) (Fin 3) K) (i k j : Fin 3) : Matrix (Fin 3) (Fin 3) K :=
  let a := g i j
  let b := g k j
  setEntry (setEntry g i j b) k j a

/-- The first index of largest magnitude among rows `j, j+1, …` of column `j`. -/
def pivotRow (g : Matrix (Fin 3) (Fin 3) K) (j : Fin 3) : Fin 3 :=
  (List.finRange 3).foldl (fun best i =>
    if i.val > j.val && Scalar.abs (g i j) > Scalar.abs (g best j) then i else best) j

/-- Entry `(i, j)` less the inner product of row `i` of the lower factor and column `j` of
the upper factor over the first `n` indices. -/
def reduceEntry (g : Matrix (Fin 3) (Fin 3) K) (i j : Fin 3) (n : Nat) :
    Matrix (Fin 3) (Fin 3) K :=
  setEntry g i j (g i j - dot ((Linear.below n).map (g i ·)) ((Linear.below n).map (g · j)))

/-- Processes column `j` of the elimination: the factors so far, the pivot rows chosen and
whether a zero pivot was met. -/
def eliminateColumn (state : Matrix (Fin 3) (Fin 3) K × List (Fin 3) × Bool) (j : Fin 3) :
    Matrix (Fin 3) (Fin 3) K × List (Fin 3) × Bool :=
  let (g, pivots, singular) := state
  let g := (pivots.zip (Linear.below j.val)).foldl (fun g (p, i) => swapInColumn g i p j) g
  let g := (Linear.below j.val).foldl (fun g i => if i.val = 0 then g else reduceEntry g i j i.val) g
  let g := if j.val = 0 then g else
    (List.finRange 3).foldl (fun g i => if i.val < j.val then g else reduceEntry g i j j.val) g
  let p := pivotRow g j
  let t := g p j
  if Scalar.isZero t then (g, pivots ++ [p], true) else
  let g := if p = j then g else (Linear.below (j.val + 1)).foldl (fun g c => swapInColumn g j p c) g
  let r := 1.0 / t
  let g := (List.finRange 3).foldl (fun g i =>
    if i.val > j.val then setEntry g i j (g i j * r) else g) g
  (g, pivots ++ [p], singular)

/-- The factors of a matrix: the columns processed in order from the matrix itself. -/
def factor (m : Matrix (Fin 3) (Fin 3) K) : Matrix (Fin 3) (Fin 3) K × List (Fin 3) × Bool :=
  (List.finRange 3).foldl eliminateColumn (m, [], false)

/-- The right-hand side with the pivots' row exchanges applied. -/
def exchange (pivots : List (Fin 3)) (b : Fin 3 → K) : Fin 3 → K :=
  (pivots.zip (List.finRange 3)).foldl (fun v (p, i) =>
    Function.update (Function.update v i (v p)) p (v i)) b

/-- Forward substitution with the unit lower factor. -/
def forward (g : Matrix (Fin 3) (Fin 3) K) (v : Fin 3 → K) : Fin 3 → K :=
  (List.finRange 3).foldl (fun v j =>
    (List.finRange 3).foldl (fun v r =>
      if r.val > j.val then Function.update v r (Scalar.fma (-(v j)) (g r j) (v r)) else v) v) v

/-- Back substitution with the upper factor. -/
def backward (g : Matrix (Fin 3) (Fin 3) K) (v : Fin 3 → K) : Fin 3 → K :=
  (List.finRange 3).reverse.foldl (fun v j =>
    let xj := v j / g j j
    (List.finRange 3).foldl (fun v r =>
      if r.val < j.val then Function.update v r (Scalar.fma (-xj) (g r j) (v r)) else v)
      (Function.update v j xj)) v

/-- The solution of `m x = b` by the pivoted LU factors, as `gesv` computes it; a singular
matrix is refused. -/
def solve (m : Matrix (Fin 3) (Fin 3) K) (b : Fin 3 → K) : Outcome (Fin 3 → K) :=
  let (g, pivots, singular) := factor m
  if singular then .error .singularMatrix else .ok (backward g (forward g (exchange pivots b)))

end Formulas

end Elimination

theorem Vec3.get_eq_toFun (v : Vec3) (i : Fin 3) : v.get i = v.toFun i := rfl

theorem Vec3.toFun_set (v : Vec3) (i : Fin 3) (a : Float) :
    (v.set i a).toFun = Function.update v.toFun i a := by
  funext r
  fin_cases i <;> fin_cases r <;> rfl

theorem Mat3.get_eq_toMatrix (m : Mat3) (i j : Fin 3) : m.get i j = m.toMatrix i j := rfl

theorem Mat3.toMatrix_set (m : Mat3) (i j : Fin 3) (a : Float) :
    (m.set i j a).toMatrix = Elimination.setEntry m.toMatrix i j a := by
  ext r c
  fin_cases i <;> fin_cases j <;> fin_cases r <;> fin_cases c <;> rfl

namespace Linear

/-- A fold of steps on matrices that commute with taking entries. -/
theorem foldl_toMatrix {β : Type} (l : List β) (F : Mat3 → β → Mat3)
    (G : Matrix (Fin 3) (Fin 3) Float → β → Matrix (Fin 3) (Fin 3) Float)
    (h : ∀ g x, (F g x).toMatrix = G g.toMatrix x) (g : Mat3) :
    (l.foldl F g).toMatrix = l.foldl G g.toMatrix :=
  (List.foldl_hom Mat3.toMatrix fun g x => (h g x).symm).symm

theorem swapInColumn_toMatrix (g : Mat3) (i k j : Fin 3) :
    (swapInColumn g i k j).toMatrix = Elimination.swapInColumn g.toMatrix i k j := by
  simp only [swapInColumn, Elimination.swapInColumn, Mat3.toMatrix_set, Mat3.get_eq_toMatrix]

theorem pivotRow_toMatrix (g : Mat3) (j : Fin 3) :
    pivotRow g j = Elimination.pivotRow g.toMatrix j := rfl

theorem reduceEntry_toMatrix (g : Mat3) (i j : Fin 3) (n : Nat) :
    (reduceEntry g i j n).toMatrix = Elimination.reduceEntry g.toMatrix i j n := by
  simp only [reduceEntry, Elimination.reduceEntry, Mat3.toMatrix_set, Mat3.get_eq_toMatrix]
  rfl

theorem toMatrix_foldl_swapColumn (l : List (Fin 3 × Fin 3)) (j : Fin 3) (g : Mat3) :
    (l.foldl (fun g x => swapInColumn g x.2 x.1 j) g).toMatrix =
      l.foldl (fun g x => Elimination.swapInColumn g x.2 x.1 j) g.toMatrix :=
  foldl_toMatrix l _ _ (fun g x => swapInColumn_toMatrix g x.2 x.1 j) g

theorem toMatrix_foldl_swapRows (l : List (Fin 3)) (j p : Fin 3) (g : Mat3) :
    (l.foldl (fun g c => swapInColumn g j p c) g).toMatrix =
      l.foldl (fun g c => Elimination.swapInColumn g j p c) g.toMatrix :=
  foldl_toMatrix l _ _ (fun g c => swapInColumn_toMatrix g j p c) g

theorem toMatrix_foldl_reduceUpper (l : List (Fin 3)) (j : Fin 3) (g : Mat3) :
    (l.foldl (fun g i => if i.val = 0 then g else reduceEntry g i j i.val) g).toMatrix =
      l.foldl (fun g i => if i.val = 0 then g else Elimination.reduceEntry g i j i.val)
        g.toMatrix := by
  refine foldl_toMatrix l _ _ (fun g i => ?_) g
  split
  · rfl
  · exact reduceEntry_toMatrix g i j i.val

theorem toMatrix_foldl_reduceLower (l : List (Fin 3)) (j : Fin 3) (g : Mat3) :
    (l.foldl (fun g i => if i.val < j.val then g else reduceEntry g i j j.val) g).toMatrix =
      l.foldl (fun g i => if i.val < j.val then g else Elimination.reduceEntry g i j j.val)
        g.toMatrix := by
  refine foldl_toMatrix l _ _ (fun g i => ?_) g
  split
  · rfl
  · exact reduceEntry_toMatrix g i j j.val

theorem toMatrix_foldl_scale (l : List (Fin 3)) (j : Fin 3) (r : Float) (g : Mat3) :
    (l.foldl (fun g i => if i.val > j.val then g.set i j (g.get i j * r) else g) g).toMatrix =
      l.foldl (fun g i => if i.val > j.val then Elimination.setEntry g i j (g i j * r) else g)
        g.toMatrix := by
  refine foldl_toMatrix l _ _ (fun g i => ?_) g
  split
  · exact Mat3.toMatrix_set g i j _
  · rfl

theorem eliminateColumn_toMatrix (g : Mat3) (pivots : List (Fin 3)) (singular : Bool)
    (j : Fin 3) :
    Prod.map Mat3.toMatrix id (eliminateColumn (g, pivots, singular) j) =
      Elimination.eliminateColumn (g.toMatrix, pivots, singular) j := by
  -- rewrite the generic side, fold by fold, into entries of the binary64 computation
  simp only [eliminateColumn, Elimination.eliminateColumn, ← toMatrix_foldl_swapColumn,
    ← toMatrix_foldl_reduceUpper, ← toMatrix_foldl_reduceLower, ← apply_ite Mat3.toMatrix,
    ← pivotRow_toMatrix, ← Mat3.get_eq_toMatrix, ← toMatrix_foldl_swapRows,
    ← toMatrix_foldl_scale]
  rw [apply_ite (Prod.map Mat3.toMatrix id)]
  rfl

theorem factor_toMatrix (m : Mat3) :
    Prod.map Mat3.toMatrix id ((List.finRange 3).foldl eliminateColumn (m, [], false)) =
      Elimination.factor m.toMatrix := by
  refine (List.foldl_hom (Prod.map Mat3.toMatrix id) fun st j => ?_).symm
  obtain ⟨g, pivots, singular⟩ := st
  exact (eliminateColumn_toMatrix g pivots singular j).symm

theorem exchange_toFun (pivots : List (Fin 3)) (b : Vec3) :
    ((pivots.zip (List.finRange 3)).foldl (fun v (p, i) =>
      (v.set i (v.get p)).set p (v.get i)) b).toFun = Elimination.exchange pivots b.toFun := by
  refine (List.foldl_hom Vec3.toFun fun v x => ?_).symm
  simp only [Vec3.toFun_set, Vec3.get_eq_toFun]

theorem forward_toFun (g : Mat3) (v : Vec3) :
    ((List.finRange 3).foldl (fun v j =>
      (List.finRange 3).foldl (fun v r =>
        if r.val > j.val then v.set r (Binary64.fma (-(v.get j)) (g.get r j) (v.get r)) else v)
        v) v).toFun = Elimination.forward g.toMatrix v.toFun := by
  refine (List.foldl_hom Vec3.toFun fun v j => ?_).symm
  refine List.foldl_hom Vec3.toFun fun v r => ?_
  split
  · simp only [Vec3.toFun_set, Vec3.get_eq_toFun, Mat3.get_eq_toMatrix, Scalar.float_fma]
  · rfl

theorem backward_toFun (g : Mat3) (v : Vec3) :
    ((List.finRange 3).reverse.foldl (fun v j =>
      let xj := v.get j / g.get j j
      (List.finRange 3).foldl (fun v r =>
        if r.val < j.val then v.set r (Binary64.fma (-xj) (g.get r j) (v.get r)) else v)
        (v.set j xj)) v).toFun = Elimination.backward g.toMatrix v.toFun := by
  refine (List.foldl_hom Vec3.toFun fun v j => ?_).symm
  dsimp only
  rw [← Vec3.toFun_set, Vec3.get_eq_toFun, Mat3.get_eq_toMatrix]
  refine List.foldl_hom Vec3.toFun fun w r => ?_
  split
  · simp only [Vec3.toFun_set, Vec3.get_eq_toFun, Mat3.get_eq_toMatrix, Scalar.float_fma]
  · rfl

/-- The binary64 solver is the elimination at `Float`. -/
theorem solve_toFun (m : Mat3) (b : Vec3) :
    (solve m b).map Vec3.toFun = Elimination.solve m.toMatrix b.toFun := by
  rw [solve, Elimination.solve, ← factor_toMatrix]
  obtain ⟨g, pivots, singular⟩ := (List.finRange 3).foldl eliminateColumn (m, [], false)
  cases singular
  · simp only [Prod.map, id, Bool.false_eq_true, if_false, ← exchange_toFun, ← forward_toFun,
      ← backward_toFun]
    rfl
  · rfl

end Linear

end Spacecraft
