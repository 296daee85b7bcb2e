import Spacecraft.Numeric.Vec3

/-!
# Summation orders

A floating-point sum depends on the order of its terms, so every sum of more than two
terms that the integrators form is written here with its order spelled out.

* `pairwise` sums a list in eight interleaved partial sums (blocks of at most 128 terms,
  longer lists split in halves), and `mean` adds that to the first term before dividing
  by the count. The error norm of an adaptive step is a mean of this kind.
* `combine` forms the weighted sum `Σⱼ wⱼ cⱼ` of equally long columns, entry by entry.
  One column is scaled; a one-entry state gets a fused multiply-add chain over the
  columns. Otherwise the entries are taken in blocks of four rows, where the columns go
  four at a time, then a pair, then a single column (`blockEntry`), and the entries past
  the last block of four are fused multiply-add chains (paired column by column when the
  state has only two or three entries).
* `mulRows` multiplies a square matrix by a vector with short rows summed by fused
  multiply-add from the last product inwards.
-/

namespace Spacecraft

namespace Summation

/-- The terms added one after another to a starting value. -/
def sequential (xs : List Float) (start : Float := 0.0) : Float := xs.foldl (· + ·) start

/-- Consecutive groups of eight terms; a shorter last group is left out. -/
def octets : List Float → List (List Float)
  | a0 :: a1 :: a2 :: a3 :: a4 :: a5 :: a6 :: a7 :: rest =>
    [a0, a1, a2, a3, a4, a5, a6, a7] :: octets rest
  | _ => []

/-- The total of eight partial sums, added as a balanced tree. -/
def treeOfEight : List Float → Float
  | [r0, r1, r2, r3, r4, r5, r6, r7] => ((r0 + r1) + (r2 + r3)) + ((r4 + r5) + (r6 + r7))
  | rs => sequential rs

/-- The pairwise total of a list: fewer than eight terms are added in order; up to 128
terms go into eight interleaved partial sums, whose tree total then takes the terms left
over after the last full group of eight; a longer list is split at a multiple of eight
near its middle and the two totals are added. -/
def pairwise (xs : List Float) : Float :=
  if xs.length < 8 then sequential xs
  else if xs.length ≤ 128 then
    match octets xs with
    | [] => sequential xs
    | first :: groups =>
      let lanes := groups.foldl (List.zipWith (· + ·)) first
      sequential (xs.drop (8 * (groups.length + 1))) (treeOfEight lanes)
  else
    let half := xs.length / 2 - xs.length / 2 % 8
    pairwise (xs.take half) + pairwise (xs.drop half)
termination_by xs.length
decreasing_by
  all_goals simp only [List.length_take, List.length_drop]
  all_goals omega

/-- The mean of a list: the first term plus the pairwise total of the others, divided by
the count. The mean of nothing is undefined. -/
def mean : List Float → Float
  | [] => 0.0 / 0.0
  | x :: rest => (x + pairwise rest) / (rest.length + 1).toFloat

/-- The root mean square of a list. -/
def rootMeanSquare (xs : List Float) : Float := (mean (xs.map fun x => x * x)).sqrt

/-- One entry of a weighted column sum inside a block of four rows, from the pairs
(weight, entry) in column order. Four columns give `a₀x₀ + a₁x₁ + a₂x₂ + a₃x₃` with the
product `a₁x₁` rounded and the other three fused in turn, then added to the entry; a pair
left over is `a₀x₀` fused onto the rounded `a₁x₁`, then added; a single column is a rounded
product added to the entry. -/
def blockEntry (terms : List (Float × Float)) (acc : Float := 0.0) : Float :=
  match terms with
  | (x0, a0) :: (x1, a1) :: (x2, a2) :: (x3, a3) :: rest =>
    let sum := Binary64.fma a3 x3 (Binary64.fma a2 x2 (Binary64.fma a0 x0 (a1 * x1)))
    blockEntry rest (sum + acc)
  | (x0, a0) :: (x1, a1) :: rest => blockEntry rest (Binary64.fma a0 x0 (a1 * x1) + acc)
  | [(x, a)] => acc + a * x
  | [] => acc

/-- One entry of a weighted column sum past the blocks of four rows: a fused multiply-add
chain over the columns from zero, then added to a zero entry. -/
def chainEntry (terms : List (Float × Float)) : Float :=
  terms.foldl (fun acc (x, a) => Binary64.fma a x acc) 0.0 + 0.0

/-- One entry of a weighted column sum of a two- or three-entry state: the columns go four
at a time as two pairs, each pair one fused multiply-add over a product added to the
running sum, and the columns left over extend the sum by fused multiply-add. -/
def pairedEntry (terms : List (Float × Float)) (acc : Float := 0.0) : Float :=
  match terms with
  | (x0, a0) :: (x1, a1) :: (x2, a2) :: (x3, a3) :: rest =>
    pairedEntry rest ((acc + Binary64.fma a0 x0 (a1 * x1)) + Binary64.fma a2 x2 (a3 * x3))
  | rest => rest.foldl (fun acc (x, a) => Binary64.fma a x acc) acc + 0.0

/-- Row `i` of a list of columns. -/
def rowOf (columns : List (List Float)) (i : Nat) : List Float := columns.map (·.getD i 0.0)

/-- The weighted sum `Σⱼ wⱼ cⱼ` of equally long columns. -/
def combine (weights : List Float) (columns : List (List Float)) : List Float :=
  let m := (columns.head?.map List.length).getD 0
  match weights, columns with
  | [w], [c] => if m = 1 then c.map (w * ·) else c.map fun x => w * x + 0.0
  | _, _ =>
    if m = 1 then [dotList weights (rowOf columns 0)]
    else
      let blocked := m - m % 4
      (List.range m).map fun i =>
        let terms := weights.zip (rowOf columns i)
        if i < blocked then blockEntry terms
        else if m < 4 then pairedEntry terms
        else chainEntry terms

/-- One entry of a matrix-vector product, from the row and the vector: one term is a fused
multiply-add into zero; two or three terms are fused multiply-adds around the product of
the second terms, added to a zero entry; longer rows are fused multiply-add chains. -/
def rowDot (row x : List Float) : Float :=
  match row, x with
  | [a], [u] => Binary64.fma a u 0.0
  | [a0, a1], [u0, u1] => 0.0 + Binary64.fma a0 u0 (a1 * u1)
  | [a0, a1, a2], [u0, u1, u2] => 0.0 + Binary64.fma a2 u2 (Binary64.fma a0 u0 (a1 * u1))
  | row, x => dotList row x + 0.0

/-- A matrix given by its rows times a vector. -/
def mulRows (rows : List (List Float)) (x : List Float) : List Float := rows.map (rowDot · x)

end Summation

end Spacecraft
