import Mathlib
import Spacecraft.Proofs.Exact.RungeKutta
import Spacecraft.Proofs.Binary64.Sign

/-!
# The Dormand–Prince pair in exact arithmetic

`Dopri.trial` is the trial step of `Integrator.dormandPrince` over any `Scalar`: the seven
stage rates of the Dormand–Prince tableau, the fifth-order solution and the error estimate,
each weighted sum formed with the block and chain orders of `Summation.combine`
(`WeightedSum.combine`). At `Float` the adaptive trial step is this step followed by the error
test (`Integrator.attempt_dormandPrince`).

Over the real numbers every order of summation gives the weighted sum, and the pair has the
orders it is built for. On a linear system `y' = A y` the solution is `P(hA) y`, where `P` is
the exponential series through degree five with `z⁶/600` added, and the error estimate is
`Q(hA) y` with `Q` starting at degree five. On a rate that is a polynomial of degree at most
four in time the solution adds the rate's integral over the step, and below degree four the
error estimate vanishes.

In binary64 an accepted step always has a finite error norm of at most one, and the next
step lies in the step limits unless it is NaN, which a NaN safety factor makes it.
-/

namespace Spacecraft

namespace WeightedSum

section Formula

variable {K : Type} [Scalar K]

/-- The inner product of two lists by fused multiply-add from zero, in index order. -/
def dot (a b : List K) : K := (a.zip b).foldl (fun acc (u, v) => Scalar.fma u v acc) 0.0

/-- One entry of a weighted column sum inside a block of four rows (`Summation.blockEntry`). -/
def blockEntry (terms : List (K × K)) (acc : K := 0.0) : K :=
  match terms with
  | (x0, a0) :: (x1, a1) :: (x2, a2) :: (x3, a3) :: rest =>
    let sum := Scalar.fma a3 x3 (Scalar.fma a2 x2 (Scalar.fma a0 x0 (a1 * x1)))
    blockEntry rest (sum + acc)
  | (x0, a0) :: (x1, a1) :: rest => blockEntry rest (Scalar.fma a0 x0 (a1 * x1) + acc)
  | [(x, a)] => acc + a * x
  | [] => acc

/-- One entry of a weighted column sum past the blocks of four rows
(`Summation.chainEntry`). -/
def chainEntry (terms : List (K × K)) : K :=
  terms.foldl (fun acc (x, a) => Scalar.fma a x acc) 0.0 + 0.0

/-- One entry of a weighted column sum of a two- or three-entry state
(`Summation.pairedEntry`). -/
def pairedEntry (terms : List (K × K)) (acc : K := 0.0) : K :=
  match terms with
  | (x0, a0) :: (x1, a1) :: (x2, a2) :: (x3, a3) :: rest =>
    pairedEntry rest ((acc + Scalar.fma a0 x0 (a1 * x1)) + Scalar.fma a2 x2 (a3 * x3))
  | rest => rest.foldl (fun acc (x, a) => Scalar.fma a x acc) acc + 0.0

/-- Row `i` of a list of columns. -/
def rowOf (columns : List (List K)) (i : Nat) : List K := columns.map (·.getD i 0.0)

/-- The weighted sum `Σⱼ wⱼ cⱼ` of equally long columns (`Summation.combine`). -/
def combine (weights : List K) (columns : List (List K)) : List K :=
  let m := (columns.head?.map List.length).getD 0
  match weights, columns with
  | [w], [c] => if m = 1 then c.map (w * ·) else c.map fun x => w * x + 0.0
  | _, _ =>
    if m = 1 then [dot weights (rowOf columns 0)]
    else
      let blocked := m - m % 4
      (List.range m).map fun i =>
        let terms := weights.zip (rowOf columns i)
        if i < blocked then blockEntry terms
        else if m < 4 then pairedEntry terms
        else chainEntry terms

end Formula

section Binary64

theorem blockEntry_float (terms : List (Float × Float)) (acc : Float) :
    blockEntry terms acc = Summation.blockEntry terms acc := by
  fun_induction Summation.blockEntry terms acc <;> simp +zetaDelta [blockEntry, *]

theorem pairedEntry_float (terms : List (Float × Float)) (acc : Float) :
    pairedEntry terms acc = Summation.pairedEntry terms acc := by
  fun_induction Summation.pairedEntry terms acc <;> simp [pairedEntry, *]

/-- At `Float` the weighted column sum is the model's. -/
theorem combine_float (weights : List Float) (columns : List (List Float)) :
    combine weights columns = Summation.combine weights columns := by
  -- the two matches reduce once both lists are cut to the depth of the first pattern
  rcases weights with _ | ⟨w, _ | ⟨w', ws⟩⟩ <;> rcases columns with _ | ⟨c, _ | ⟨c', cs⟩⟩ <;>
    simp only [combine, Summation.combine, blockEntry_float, pairedEntry_float] <;> rfl

end Binary64

section Real

variable {n : ℕ}

/-- The weighted sum `Σⱼ wⱼ kⱼ` of vectors, over the pairs of the two lists. -/
def vecSum (w : List ℝ) (ks : List (Fin n → ℝ)) : Fin n → ℝ :=
  ((w.zip ks).map fun p => p.1 • p.2).sum

theorem zero_real : (0.0 : ℝ) = 0 := by norm_num

theorem foldl_add_eq (g : ℝ × ℝ → ℝ) (terms : List (ℝ × ℝ)) (acc : ℝ) :
    terms.foldl (fun acc p => g p + acc) acc = acc + (terms.map g).sum := by
  induction terms generalizing acc with
  | nil => simp
  | cons p terms ih =>
    rw [List.foldl_cons, ih, List.map_cons, List.sum_cons]
    ring

theorem foldl_fma_real (terms : List (ℝ × ℝ)) (acc : ℝ) :
    terms.foldl (fun acc (x, a) => Scalar.fma a x acc) acc =
      acc + (terms.map fun p => p.1 * p.2).sum := by
  simp only [Scalar.real_fma]
  exact (foldl_add_eq (fun p => p.2 * p.1) terms acc).trans (by simp only [mul_comm])

theorem dot_real (a b : List ℝ) : dot a b = ((a.zip b).map fun p => p.1 * p.2).sum := by
  simp only [dot, Scalar.real_fma]
  exact (foldl_add_eq (fun p => p.1 * p.2) _ _).trans (by rw [zero_real, zero_add])

theorem blockEntry_real (terms : List (ℝ × ℝ)) (acc : ℝ) :
    blockEntry terms acc = acc + (terms.map fun p => p.1 * p.2).sum := by
  fun_induction blockEntry terms acc with
  | case1 acc x0 a0 x1 a1 x2 a2 x3 a3 rest sum ih =>
    rw [ih]
    simp only [sum, Scalar.real_fma, Scalar.real_mul, Scalar.real_add, List.map_cons,
      List.sum_cons]
    ring
  | case2 acc x0 a0 x1 a1 rest _ ih =>
    rw [ih]
    simp only [Scalar.real_fma, Scalar.real_mul, Scalar.real_add, List.map_cons, List.sum_cons]
    ring
  | case3 acc x a =>
    simp only [Scalar.real_mul, Scalar.real_add, List.map_cons, List.map_nil, List.sum_cons,
      List.sum_nil, add_zero]
    ring
  | case4 acc => simp

theorem pairedEntry_real (terms : List (ℝ × ℝ)) (acc : ℝ) :
    pairedEntry terms acc = acc + (terms.map fun p => p.1 * p.2).sum := by
  fun_induction pairedEntry terms acc with
  | case1 acc x0 a0 x1 a1 x2 a2 x3 a3 rest ih =>
    rw [ih]
    simp only [Scalar.real_fma, Scalar.real_mul, Scalar.real_add, List.map_cons, List.sum_cons]
    ring
  | case2 acc rest _ =>
    rw [Scalar.real_add, foldl_fma_real, zero_real, add_zero]

theorem chainEntry_real (terms : List (ℝ × ℝ)) :
    chainEntry terms = (terms.map fun p => p.1 * p.2).sum := by
  rw [chainEntry, Scalar.real_add, foldl_fma_real, zero_real, add_zero, zero_add]

theorem rowOf_ofFn (ks : List (Fin n → ℝ)) {i : ℕ} (hi : i < n) :
    rowOf (ks.map List.ofFn) i = ks.map fun k => k ⟨i, hi⟩ := by
  simp [rowOf, hi]

theorem vecSum_apply (w : List ℝ) (ks : List (Fin n → ℝ)) (j : Fin n) :
    vecSum w ks j = ((w.zip (ks.map fun k => k j)).map fun p => p.1 * p.2).sum := by
  simp [vecSum, Pi.list_sum_apply, List.zip_map_right, Function.comp_def]

/-- Over the reals every summation order of `combine` gives the weighted sum of the columns. -/
theorem combine_real (w : List ℝ) {ks : List (Fin n → ℝ)} (hks : ks ≠ []) :
    combine w (ks.map List.ofFn) = List.ofFn (vecSum w ks) := by
  obtain ⟨k, ks', rfl⟩ := List.exists_cons_of_ne_nil hks
  have hm : (((k :: ks').map List.ofFn).head?.map List.length).getD 0 = n := by simp
  -- each entry is the weighted sum of its row, whichever of the three orders forms it
  have hrow : ∀ (i : ℕ) (hi : i < n),
      ((w.zip (rowOf ((k :: ks').map List.ofFn) i)).map fun p => p.1 * p.2).sum =
        vecSum w (k :: ks') ⟨i, hi⟩ := by
    intro i hi
    rw [rowOf_ofFn _ hi, vecSum_apply]
  unfold combine
  rw [hm]
  split
  · rename_i w0 c hc
    obtain ⟨rfl, rfl⟩ : List.ofFn k = c ∧ ks' = [] := by simpa using hc
    have hsum : vecSum [w0] [k] = w0 • k := by simp [vecSum]
    rw [hsum]
    dsimp only
    split_ifs <;> apply List.ext_getElem <;> simp [zero_real]
  · dsimp only
    by_cases h1 : n = 1
    · subst h1
      rw [if_pos rfl, dot_real, hrow 0 Nat.one_pos]
      rfl
    · rw [if_neg h1]
      apply List.ext_getElem
      · simp
      · intro i hi _
        rw [List.length_map, List.length_range] at hi
        simp only [List.getElem_map, List.getElem_range, List.getElem_ofFn]
        split_ifs
        · rw [blockEntry_real, zero_real, zero_add, hrow i hi]
        · rw [pairedEntry_real, zero_real, zero_add, hrow i hi]
        · rw [chainEntry_real, hrow i hi]

end Real

end WeightedSum

namespace Dopri

section Formula

variable {K : Type} [Scalar K]

/-- The stage times as fractions of the step. -/
def nodes : List K := [0.0, 1.0 / 5.0, 3.0 / 10.0, 4.0 / 5.0, 8.0 / 9.0, 1.0, 1.0]

/-- The stage weights: row `i` combines the first `i` stage rates. -/
def stageWeights : List (List K) :=
  [[],
   [1.0 / 5.0],
   [3.0 / 40.0, 9.0 / 40.0],
   [44.0 / 45.0, -56.0 / 15.0, 32.0 / 9.0],
   [19372.0 / 6561.0, -25360.0 / 2187.0, 64448.0 / 6561.0, -212.0 / 729.0],
   [9017.0 / 3168.0, -355.0 / 33.0, 46732.0 / 5247.0, 49.0 / 176.0, -5103.0 / 18656.0],
   [35.0 / 384.0, 0.0, 500.0 / 1113.0, 125.0 / 192.0, -2187.0 / 6784.0, 11.0 / 84.0]]

/-- The weights of the fifth-order solution. -/
def fifthOrder : List K :=
  [35.0 / 384.0, 0.0, 500.0 / 1113.0, 125.0 / 192.0, -2187.0 / 6784.0, 11.0 / 84.0, 0.0]

/-- The weights of the embedded fourth-order solution. -/
def fourthOrder : List K :=
  [5179.0 / 57600.0, 0.0, 7571.0 / 16695.0, 393.0 / 640.0, -92097.0 / 339200.0,
    187.0 / 2100.0, 1.0 / 40.0]

/-- The weights of the error estimate: fifth order minus fourth order. -/
def errorWeights : List K := List.zipWith (· - ·) fifthOrder fourthOrder

/-- One stage: the rate at the stage time, from the state moved along the weighted rates so
far, appended to them. -/
def stage (f : K → List K → Outcome (List K)) (t : K) (y : List K) (h : K) (ks : List (List K))
    (row : K × List K) : Outcome (List (List K)) := do
  let k ← f (t + row.1 * h) (RungeKutta.addScaled y h (WeightedSum.combine row.2 ks))
  pure (ks ++ [k])

/-- The stage rates after the first, each from the rates before it. -/
def stages (f : K → List K → Outcome (List K)) (t : K) (y : List K) (h : K) (k0 : List K) :
    Outcome (List (List K)) :=
  ((nodes.zip stageWeights).drop 1).foldlM (stage f t y h) [k0]

/-- The trial step of size `h` from `t` and `y`: the fifth-order solution and the error
estimate. -/
def trial (f : K → List K → Outcome (List K)) (t : K) (y : List K) (h : K) :
    Outcome (List K × List K) := do
  let k0 ← f t y
  let ks ← stages f t y h k0
  pure (RungeKutta.addScaled y h (WeightedSum.combine fifthOrder ks),
    (WeightedSum.combine errorWeights ks).map (h * ·))

end Formula

section Binary64

theorem stages_float (f : RateFunction) (t : Float) (y : List Float) (h : Float)
    (k0 : List Float) : stages f t y h k0 = DormandPrince.stages f t y h k0 := by
  have hn : (nodes : List Float) = DormandPrince.nodes := rfl
  have hw : (stageWeights : List (List Float)) = DormandPrince.stageWeights := rfl
  simp only [stages, DormandPrince.stages, hn, hw]
  congr 1
  funext ks row
  rw [stage, WeightedSum.combine_float]
  rfl

end Binary64

section Real

open WeightedSum

variable {n : ℕ}

/-- The stage rates as vectors for a rate `F` on vectors, by the recursion of `stages`: each
row of the tableau appends the rate at its time, from the state moved along the weighted
rates so far. -/
def stageRates (F : ℝ → (Fin n → ℝ) → Fin n → ℝ) (t : ℝ) (y : Fin n → ℝ) (h : ℝ)
    (ks : List (Fin n → ℝ)) (rows : List (ℝ × List ℝ)) : List (Fin n → ℝ) :=
  rows.foldl (fun ks row => ks ++ [F (t + row.1 * h) (y + h • vecSum row.2 ks)]) ks

theorem stageRates_ne_nil (F : ℝ → (Fin n → ℝ) → Fin n → ℝ) (t : ℝ) (y : Fin n → ℝ) (h : ℝ)
    (rows : List (ℝ × List ℝ)) : ∀ {ks : List (Fin n → ℝ)}, ks ≠ [] →
      stageRates F t y h ks rows ≠ [] := by
  induction rows with
  | nil => exact id
  | cons row rows ih => exact fun _ => ih (by simp)

section Rate

variable {f : ℝ → List ℝ → Outcome (List ℝ)} {F : ℝ → (Fin n → ℝ) → Fin n → ℝ}
  (hf : ∀ t v, f t (List.ofFn v) = pure (List.ofFn (F t v)))
include hf

theorem stage_ofFn (t : ℝ) (y : Fin n → ℝ) (h : ℝ) {ks : List (Fin n → ℝ)} (hks : ks ≠ [])
    (row : ℝ × List ℝ) :
    stage f t (List.ofFn y) h (ks.map List.ofFn) row =
      pure ((ks ++ [F (t + row.1 * h) (y + h • vecSum row.2 ks)]).map List.ofFn) := by
  simp only [stage, combine_real _ hks, RungeKutta.addScaled_ofFn, hf, pure_bind,
    List.map_append, List.map_cons, List.map_nil]

/-- Over vectors the stage recursion runs as `stageRates`; it never refuses. -/
theorem foldlM_stage_ofFn (t : ℝ) (y : Fin n → ℝ) (h : ℝ) (rows : List (ℝ × List ℝ)) :
    ∀ {ks : List (Fin n → ℝ)}, ks ≠ [] →
      rows.foldlM (stage f t (List.ofFn y) h) (ks.map List.ofFn) =
        pure ((stageRates F t y h ks rows).map List.ofFn) := by
  induction rows with
  | nil => intro ks _; rfl
  | cons row rows ih =>
    intro ks hks
    rw [List.foldlM_cons, stage_ofFn hf t y h hks, pure_bind, ih (by simp)]
    rfl

/-- Over the reals a trial step on a rate that maps vectors to vectors is the fifth-order
combination of the stage rates, with the error estimate their error-weighted combination. -/
theorem trial_ofFn (t : ℝ) (y : Fin n → ℝ) (h : ℝ) :
    trial f t (List.ofFn y) h =
      let ks := stageRates F t y h [F t y] ((nodes.zip stageWeights).drop 1)
      pure (List.ofFn (y + h • vecSum fifthOrder ks), List.ofFn (h • vecSum errorWeights ks)) := by
  have hstages := foldlM_stage_ofFn hf t y h ((nodes.zip stageWeights).drop 1)
    (List.cons_ne_nil (F t y) [])
  simp only [List.map_cons, List.map_nil] at hstages
  simp only [trial, stages, hf, pure_bind, hstages]
  have hne := stageRates_ne_nil F t y h ((nodes.zip stageWeights).drop 1)
    (List.cons_ne_nil (F t y) [])
  rw [combine_real _ hne, combine_real _ hne, RungeKutta.addScaled_ofFn, List.map_ofFn]
  rfl

end Rate

section Linear

open Matrix Polynomial

variable (A : Matrix (Fin n) (Fin n) ℝ) (h : ℝ) (y : Fin n → ℝ)

/-- The state polynomials of a tableau on a linear system: stage `i` evaluates the rate at
`qᵢ(hA) y`, and the row of a new stage gives `1 + z Σⱼ aᵢⱼ qⱼ`. -/
noncomputable def statePolys (rows : List (ℝ × List ℝ)) (qs : List ℝ[X]) : List ℝ[X] :=
  rows.foldl (fun qs row => qs ++ [1 + X * ((row.2.zip qs).map fun p => C p.1 * p.2).sum]) qs

/-- A weighted sum of linear stage rates, times the step, is a polynomial in `hA` applied to
the state. -/
theorem smul_vecSum_linear (w : List ℝ) (qs : List ℝ[X]) :
    h • vecSum w (qs.map fun q => A *ᵥ (aeval (h • A) q *ᵥ y)) =
      aeval (h • A) (X * ((w.zip qs).map fun p => C p.1 * p.2).sum) *ᵥ y := by
  induction w generalizing qs with
  | nil => simp [vecSum]
  | cons a w ih =>
    cases qs with
    | nil => simp [vecSum]
    | cons q qs =>
      have hrest := ih qs
      simp only [vecSum, List.map_cons, List.zip_cons_cons, List.sum_cons] at hrest ⊢
      rw [smul_add, hrest, mul_add, map_add, add_mulVec]
      congr 1
      simp only [map_mul, aeval_X, aeval_C, Algebra.algebraMap_eq_smul_one, smul_mul_assoc,
        Matrix.one_mul, smul_mulVec, ← mulVec_mulVec, mulVec_smul, smul_comm h a]

/-- On a linear system the stage rates are the rate at the state polynomials' values. -/
theorem stageRates_linear (t : ℝ) (rows : List (ℝ × List ℝ)) (qs : List ℝ[X]) :
    stageRates (fun _ v => A *ᵥ v) t y h (qs.map fun q => A *ᵥ (aeval (h • A) q *ᵥ y)) rows =
      (statePolys rows qs).map fun q => A *ᵥ (aeval (h • A) q *ᵥ y) := by
  induction rows generalizing qs with
  | nil => rfl
  | cons row rows ih =>
    have hstate : y + h • vecSum row.2 (qs.map fun q => A *ᵥ (aeval (h • A) q *ᵥ y)) =
        aeval (h • A) (1 + X * ((row.2.zip qs).map fun p => C p.1 * p.2).sum) *ᵥ y := by
      rw [smul_vecSum_linear, map_add, aeval_one, add_mulVec, one_mulVec]
    have happ : ∀ q' : ℝ[X], qs.map (fun q => A *ᵥ (aeval (h • A) q *ᵥ y)) ++
        [A *ᵥ (aeval (h • A) q' *ᵥ y)] = (qs ++ [q']).map fun q => A *ᵥ (aeval (h • A) q *ᵥ y) :=
      fun q' => by simp
    simp only [stageRates, List.foldl_cons] at ih ⊢
    rw [hstate, happ, ih]
    rfl

/-- The fifth-order solution's polynomial: the exponential series through degree five, with
`z⁶/600` after it. -/
theorem solution_poly :
    (1 + X * (((fifthOrder : List ℝ).zip
        (statePolys ((nodes.zip stageWeights).drop 1) [1])).map fun p => C p.1 * p.2).sum :
      ℝ[X]) =
      1 + X + (2⁻¹ : ℝ) • X ^ 2 + (6⁻¹ : ℝ) • X ^ 3 + (24⁻¹ : ℝ) • X ^ 4 + (120⁻¹ : ℝ) • X ^ 5 +
        (600⁻¹ : ℝ) • X ^ 6 := by
  refine Polynomial.funext fun r => ?_
  simp only [statePolys, nodes, stageWeights, fifthOrder, List.zip_cons_cons,
    List.drop_succ_cons, List.drop_zero, List.foldl_cons, List.foldl_nil, List.cons_append,
    List.nil_append, List.zip_nil_right, List.map_cons, List.map_nil, List.sum_cons, List.sum_nil,
    eval_add, eval_mul, eval_one, eval_X, eval_C, eval_smul, eval_pow, smul_eq_mul,
    Scalar.real_neg]
  norm_num
  ring

/-- The error estimate's polynomial starts at degree five. -/
theorem error_poly :
    (X * (((errorWeights : List ℝ).zip
        (statePolys ((nodes.zip stageWeights).drop 1) [1])).map fun p => C p.1 * p.2).sum :
      ℝ[X]) =
      -(97 / 120000 : ℝ) • X ^ 5 + (13 / 40000 : ℝ) • X ^ 6 - (1 / 24000 : ℝ) • X ^ 7 := by
  refine Polynomial.funext fun r => ?_
  simp only [statePolys, nodes, stageWeights, errorWeights, fifthOrder, fourthOrder,
    List.zipWith_cons_cons, List.zipWith_nil_left, List.zip_cons_cons,
    List.drop_succ_cons, List.drop_zero, List.foldl_cons, List.foldl_nil, List.cons_append,
    List.nil_append, List.zip_nil_right, List.map_cons, List.map_nil, List.sum_cons, List.sum_nil,
    eval_add, eval_sub, eval_mul, eval_one, eval_X, eval_C, eval_smul, eval_pow,
    smul_eq_mul, Scalar.real_neg, Scalar.real_sub]
  norm_num
  ring

/-- On a linear system `y' = A y` the trial step gives `P(hA) y`, with `P` the exponential
series through degree five and `z⁶/600` after it, and the error estimate `Q(hA) y`, with `Q`
starting at degree five. -/
theorem trial_linearRate (t : ℝ) :
    trial (RungeKutta.linearRate A) t (List.ofFn y) h =
      pure (List.ofFn ((1 + h • A + (2⁻¹ : ℝ) • (h • A) ^ 2 + (6⁻¹ : ℝ) • (h • A) ^ 3 +
          (24⁻¹ : ℝ) • (h • A) ^ 4 + (120⁻¹ : ℝ) • (h • A) ^ 5 + (600⁻¹ : ℝ) • (h • A) ^ 6) *ᵥ y),
        List.ofFn ((-(97 / 120000 : ℝ) • (h • A) ^ 5 + (13 / 40000 : ℝ) • (h • A) ^ 6 -
          (1 / 24000 : ℝ) • (h • A) ^ 7) *ᵥ y)) := by
  -- the first stage rate is the rate at the state itself, the polynomial `1`
  have h0 : [A *ᵥ y] = [(1 : ℝ[X])].map fun q => A *ᵥ (aeval (h • A) q *ᵥ y) := by simp
  rw [trial_ofFn (RungeKutta.linearRate_ofFn A)]
  dsimp only
  rw [h0, stageRates_linear, smul_vecSum_linear, smul_vecSum_linear, error_poly]
  have hsol : y + aeval (h • A) (X * (((fifthOrder : List ℝ).zip
      (statePolys ((nodes.zip stageWeights).drop 1) [1])).map fun p => C p.1 * p.2).sum) *ᵥ y =
      aeval (h • A) (1 + X * (((fifthOrder : List ℝ).zip
        (statePolys ((nodes.zip stageWeights).drop 1) [1])).map fun p => C p.1 * p.2).sum) *ᵥ y := by
    rw [map_add, aeval_one, add_mulVec, one_mulVec]
  rw [hsol, solution_poly]
  simp only [map_add, map_sub, map_smul, aeval_one, aeval_X, aeval_X_pow]

end Linear

section Quadrature

open Polynomial

/-- The stage rates of a rate that depends on time alone are its values at the stage times. -/
theorem stageRates_time (G : ℝ → Fin n → ℝ) (t : ℝ) (y : Fin n → ℝ) (h : ℝ)
    (rows : List (ℝ × List ℝ)) (ks : List (Fin n → ℝ)) :
    stageRates (fun s _ => G s) t y h ks rows = ks ++ rows.map fun row => G (t + row.1 * h) := by
  induction rows generalizing ks with
  | nil => simp [stageRates]
  | cons row rows ih =>
    simp only [stageRates, List.foldl_cons] at ih ⊢
    rw [ih, List.map_cons, List.append_assoc, List.singleton_append]

/-- A weighted sum of the values of a rate at the stage times, entry by entry. -/
theorem vecSum_nodes (w : List ℝ) (G : ℝ → Fin n → ℝ) (t h : ℝ) (j : Fin n) :
    vecSum w ((nodes : List ℝ).map fun c => G (t + c * h)) j =
      ((w.zip nodes).map fun q => q.1 * G (t + q.2 * h) j).sum := by
  rw [vecSum_apply, List.map_map, List.zip_map_right, List.map_map]
  rfl

theorem stageRates_nodes (G : ℝ → Fin n → ℝ) (t : ℝ) (y : Fin n → ℝ) (h : ℝ) :
    stageRates (fun s _ => G s) t y h [G t] ((nodes.zip stageWeights).drop 1) =
      (nodes : List ℝ).map fun c => G (t + c * h) := by
  rw [stageRates_time]
  simp [nodes, stageWeights, zero_real]

/-- The fifth-order weights at the stage times integrate every polynomial of degree at most
four exactly. -/
theorem integral_eq_fifthOrder {P : ℝ[X]} (hP : P.natDegree ≤ 4) (a h : ℝ) :
    ∫ s in a..a + h, P.eval s =
      h * (((fifthOrder : List ℝ).zip nodes).map fun q => q.1 * P.eval (a + q.2 * h)).sum := by
  have hP' : P.natDegree < 5 := by omega
  simp only [eval_eq_sum_range' hP']
  rw [intervalIntegral.integral_finsetSum]
  · simp only [intervalIntegral.integral_const_mul, integral_pow, Finset.sum_range_succ,
      Finset.sum_range_zero, fifthOrder, nodes, List.zip_cons_cons, List.zip_nil_right,
      List.map_cons, List.map_nil, List.sum_cons, List.sum_nil, Scalar.real_neg]
    norm_num
    ring
  · intro i _
    exact (continuous_const.mul (continuous_pow i)).intervalIntegrable _ _

/-- The error weights at the stage times cancel every polynomial of degree at most three. -/
theorem errorWeights_cancel {P : ℝ[X]} (hP : P.natDegree ≤ 3) (a h : ℝ) :
    (((errorWeights : List ℝ).zip nodes).map fun q => q.1 * P.eval (a + q.2 * h)).sum = 0 := by
  have hP' : P.natDegree < 4 := by omega
  simp only [eval_eq_sum_range' hP', Finset.sum_range_succ, Finset.sum_range_zero,
    errorWeights, fifthOrder, fourthOrder, nodes, List.zipWith_cons_cons, List.zipWith_nil_left,
    List.zip_cons_cons, List.zip_nil_right, List.map_cons, List.map_nil, List.sum_cons,
    List.sum_nil, Scalar.real_neg, Scalar.real_sub]
  norm_num
  ring

variable (p : Fin n → ℝ[X]) (t h : ℝ) (y : Fin n → ℝ)

/-- On a rate that is a polynomial of degree at most four in time, the trial step adds the
integral of the rate over the step. -/
theorem trial_polynomialRate_solution (hp : ∀ i, (p i).natDegree ≤ 4) :
    Prod.fst <$> trial (RungeKutta.polynomialRate p) t (List.ofFn y) h =
      pure (List.ofFn fun i => y i + ∫ s in t..t + h, (p i).eval s) := by
  rw [trial_ofFn (F := fun s _ i => (p i).eval s) (fun _ _ => rfl)]
  dsimp only
  rw [stageRates_nodes (fun s i => (p i).eval s)]
  simp only [map_pure]
  congr 2
  funext i
  have hsum := vecSum_nodes fifthOrder (fun s i => (p i).eval s) t h i
  rw [Pi.add_apply, Pi.smul_apply, smul_eq_mul, hsum, integral_eq_fifthOrder (hp i)]

/-- On a rate that is a polynomial of degree at most three in time, the error estimate is
zero. -/
theorem trial_polynomialRate_error (hp : ∀ i, (p i).natDegree ≤ 3) :
    Prod.snd <$> trial (RungeKutta.polynomialRate p) t (List.ofFn y) h =
      pure (List.ofFn (0 : Fin n → ℝ)) := by
  rw [trial_ofFn (F := fun s _ i => (p i).eval s) (fun _ _ => rfl)]
  dsimp only
  rw [stageRates_nodes (fun s i => (p i).eval s)]
  simp only [map_pure]
  congr 2
  funext i
  have hsum := vecSum_nodes errorWeights (fun s i => (p i).eval s) t h i
  rw [Pi.smul_apply, smul_eq_mul, hsum, errorWeights_cancel (hp i), mul_zero, Pi.zero_apply]

end Quadrature

end Real

end Dopri

namespace Integrator

/-- An adaptive trial step is the Dormand–Prince trial step followed by the error test: it is
refused unless the scaled error norm is finite and at most one. -/
theorem attempt_dormandPrince (c : StepControl) (f : RateFunction) (t : Float)
    (y : List Float) (h : Float) :
    (dormandPrince c).attempt f t y h = Dopri.trial f t y h >>= fun (y1, error) =>
      let err := c.errorNorm y y1 error
      if !err.isFinite || err > 1.0 then throw (.stepRejected t h err)
      else pure { state := y1, nextStep := c.nextStep h err, errorNorm := err } := by
  have h5 : (Dopri.fifthOrder : List Float) = DormandPrince.fifthOrder := rfl
  have he : (Dopri.errorWeights : List Float) = DormandPrince.errorWeights := rfl
  simp only [attempt, Dopri.trial, Dopri.stages_float, h5, he, WeightedSum.combine_float,
    bind_assoc, pure_bind]
  rfl

section Acceptance

open Binary64

variable {c : StepControl} {f : RateFunction} {t : Float} {y : List Float} {h : Float}

/-- A finite error norm passes the test exactly when it is at most one. -/
theorem passes_iff {err : Float} :
    (!err.isFinite || err > 1.0) = false ↔ err.isFinite = true ∧ err ≤ 1.0 := by
  have hone : view (1.0 : Float) ≠ .notANumber := isNaN_eq_false_iff.1 (by decide)
  simp only [Bool.or_eq_false_iff, Bool.not_eq_false', decide_eq_false_iff_not]
  constructor
  · rintro ⟨hfin, hgt⟩
    exact ⟨hfin, float_le_of_not_lt hone (ne_nan_of_isFinite hfin) hgt⟩
  · rintro ⟨hfin, hle⟩
    exact ⟨hfin, not_lt_of_float_le hle⟩

/-- An adaptive step is accepted exactly when its trial step succeeds with a finite error
norm of at most one; the step then suggests `nextStep` of that norm. -/
theorem attempt_dormandPrince_eq_ok {o : StepOutcome} :
    (dormandPrince c).attempt f t y h = .ok o ↔
      ∃ y1 error, Dopri.trial f t y h = .ok (y1, error) ∧
        (c.errorNorm y y1 error).isFinite = true ∧ c.errorNorm y y1 error ≤ 1.0 ∧
        o = { state := y1, nextStep := c.nextStep h (c.errorNorm y y1 error),
              errorNorm := c.errorNorm y y1 error } := by
  rw [attempt_dormandPrince]
  rcases Dopri.trial f t y h with e | ⟨y1, error⟩
  · simp only [bind, Except.bind, reduceCtorEq, false_and, exists_false]
  · simp only [bind, Except.bind, Except.ok.injEq, Prod.mk.injEq]
    split
    · rename_i hfail
      simp only [throw, throwThe, MonadExceptOf.throw, reduceCtorEq, false_iff, not_exists,
        not_and]
      rintro _ _ ⟨rfl, rfl⟩ hfin hle _
      rw [passes_iff.2 ⟨hfin, hle⟩] at hfail
      exact Bool.false_ne_true hfail
    · rename_i hpass
      have hp := passes_iff.1 (Bool.not_eq_true _ ▸ hpass)
      simp only [pure, Except.pure, Except.ok.injEq]
      constructor
      · rintro rfl
        exact ⟨y1, error, ⟨rfl, rfl⟩, hp.1, hp.2, rfl⟩
      · rintro ⟨_, _, ⟨rfl, rfl⟩, _, _, rfl⟩
        rfl

/-- A trial step whose error norm is not finite or above one is refused with
`Fault.stepRejected`. -/
theorem attempt_dormandPrince_rejected {y1 error : List Float}
    (htrial : Dopri.trial f t y h = .ok (y1, error))
    (hfail : ¬((c.errorNorm y y1 error).isFinite = true ∧ c.errorNorm y y1 error ≤ 1.0)) :
    (dormandPrince c).attempt f t y h = .error (.stepRejected t h (c.errorNorm y y1 error)) := by
  rw [← passes_iff, Bool.not_eq_false] at hfail
  rw [attempt_dormandPrince, htrial]
  simp only [bind, Except.bind, hfail, if_true]
  rfl

end Acceptance

end Integrator

namespace StepControl

open Binary64

/-- The suggested step lies in the step limits unless it is NaN. -/
theorem nextStep_mem (c : StepControl) (hle : c.minStep ≤ c.maxStep) (h err : Float)
    (hn : (c.nextStep h err).isNaN = false) :
    c.minStep ≤ c.nextStep h err ∧ c.nextStep h err ≤ c.maxStep := by
  unfold nextStep at hn ⊢
  rw [clamp_isNaN _ hle] at hn
  exact clamp_mem hn hle

/-- A NaN safety factor makes the step suggested after a nonzero error norm NaN. -/
theorem nextStep_isNaN_of_safety (c : StepControl) (hs : c.safety.isNaN = true)
    (hle : c.minStep ≤ c.maxStep) (h : Float) {err : Float} (herr : (err == 0.0) = false) :
    (c.nextStep h err).isNaN = true := by
  have hfactor : (0.2 : Float) ≤ 5.0 := by decide
  unfold nextStep
  simp only [clamp_isNaN _ hle, herr, Bool.false_eq_true, if_false]
  exact isNaN_mul_right h (by rw [clamp_isNaN _ hfactor]; exact isNaN_mul_left _ hs)

end StepControl

open Matrix Polynomial in
/-- The Dormand–Prince pair has the orders it is built for, and its step control keeps its
promises up to NaN. The adaptive trial step is `Dopri.trial` followed by the error test. Over
the reals, on a linear system `y' = A y` the solution is `P(hA) y` with `P` the exponential
series through degree five and `z⁶/600` after it, and the error estimate is `Q(hA) y` with `Q`
starting at degree five; on a rate that is a polynomial of degree at most four in time the
solution adds the rate's integral over the step, and below degree four the error estimate is
zero. In binary64 a step is accepted exactly when its error norm is finite and at most one,
refused with `Fault.stepRejected` otherwise, and the suggested step lies in the step limits
unless it is NaN. -/
theorem dormandPrince_orders :
    (∀ (c : StepControl) (f : RateFunction) (t : Float) (y : List Float) (h : Float),
      (Integrator.dormandPrince c).attempt f t y h = Dopri.trial f t y h >>= fun (y1, error) =>
        let err := c.errorNorm y y1 error
        if !err.isFinite || err > 1.0 then throw (.stepRejected t h err)
        else pure { state := y1, nextStep := c.nextStep h err, errorNorm := err }) ∧
    (∀ (n : ℕ) (A : Matrix (Fin n) (Fin n) ℝ) (y : Fin n → ℝ) (t h : ℝ),
      Dopri.trial (RungeKutta.linearRate A) t (List.ofFn y) h =
        pure (List.ofFn ((1 + h • A + (2⁻¹ : ℝ) • (h • A) ^ 2 + (6⁻¹ : ℝ) • (h • A) ^ 3 +
            (24⁻¹ : ℝ) • (h • A) ^ 4 + (120⁻¹ : ℝ) • (h • A) ^ 5 +
            (600⁻¹ : ℝ) • (h • A) ^ 6) *ᵥ y),
          List.ofFn ((-(97 / 120000 : ℝ) • (h • A) ^ 5 + (13 / 40000 : ℝ) • (h • A) ^ 6 -
            (1 / 24000 : ℝ) • (h • A) ^ 7) *ᵥ y))) ∧
    (∀ (n : ℕ) (p : Fin n → ℝ[X]), (∀ i, (p i).natDegree ≤ 4) → ∀ (y : Fin n → ℝ) (t h : ℝ),
      Prod.fst <$> Dopri.trial (RungeKutta.polynomialRate p) t (List.ofFn y) h =
        pure (List.ofFn fun i => y i + ∫ s in t..t + h, (p i).eval s)) ∧
    (∀ (n : ℕ) (p : Fin n → ℝ[X]), (∀ i, (p i).natDegree ≤ 3) → ∀ (y : Fin n → ℝ) (t h : ℝ),
      Prod.snd <$> Dopri.trial (RungeKutta.polynomialRate p) t (List.ofFn y) h =
        pure (List.ofFn (0 : Fin n → ℝ))) ∧
    (∀ (c : StepControl) (f : RateFunction) (t : Float) (y : List Float) (h : Float)
        (o : StepOutcome),
      (Integrator.dormandPrince c).attempt f t y h = .ok o ↔
        ∃ y1 error, Dopri.trial f t y h = .ok (y1, error) ∧
          (c.errorNorm y y1 error).isFinite = true ∧ c.errorNorm y y1 error ≤ 1.0 ∧
          o = { state := y1, nextStep := c.nextStep h (c.errorNorm y y1 error),
                errorNorm := c.errorNorm y y1 error }) ∧
    (∀ (c : StepControl) (f : RateFunction) (t : Float) (y : List Float) (h : Float)
        (y1 error : List Float), Dopri.trial f t y h = .ok (y1, error) →
      ¬((c.errorNorm y y1 error).isFinite = true ∧ c.errorNorm y y1 error ≤ 1.0) →
      (Integrator.dormandPrince c).attempt f t y h =
        .error (.stepRejected t h (c.errorNorm y y1 error))) ∧
    (∀ c : StepControl, c.minStep ≤ c.maxStep → ∀ h err : Float,
      (c.nextStep h err).isNaN = false →
        c.minStep ≤ c.nextStep h err ∧ c.nextStep h err ≤ c.maxStep) :=
  ⟨Integrator.attempt_dormandPrince, fun _ A y t h => Dopri.trial_linearRate A h y t,
    fun _ p hp y t h => Dopri.trial_polynomialRate_solution p t h y hp,
    fun _ p hp y t h => Dopri.trial_polynomialRate_error p t h y hp,
    fun _ _ _ _ _ _ => Integrator.attempt_dormandPrince_eq_ok,
    fun _ _ _ _ _ _ _ htrial hfail => Integrator.attempt_dormandPrince_rejected htrial hfail,
    fun c hle h err hn => StepControl.nextStep_mem c hle h err hn⟩

open Polynomial in
/-- A step of size one from zero on the rate `t⁴` adds `∫₀¹ t⁴ dt = 1/5`; on `t³` its error
estimate is zero; and after a zero error norm the default control suggests five times the
step. -/
theorem quartic_rate_dopri_step :
    Prod.fst <$> Dopri.trial (RungeKutta.polynomialRate ![(X ^ 4 : ℝ[X])]) 0 (List.ofFn ![0]) 1 =
      pure [1 / 5] ∧
    Prod.snd <$> Dopri.trial (RungeKutta.polynomialRate ![(X ^ 3 : ℝ[X])]) 0 (List.ofFn ![0]) 1 =
      pure [0] ∧
    (1.0e-6 : Float) ≤ 60.0 ∧ (1.0e-6 : Float) ≤ ({} : StepControl).nextStep 1.0 0.0 ∧
      ({} : StepControl).nextStep 1.0 0.0 ≤ 60.0 := by
  have hlim : ({} : StepControl).minStep ≤ ({} : StepControl).maxStep := by decide
  refine ⟨?_, ?_, hlim, dormandPrince_orders.2.2.2.2.2.2 {} hlim 1.0 0.0 (by decide +kernel)⟩
  · rw [dormandPrince_orders.2.2.1 1 ![X ^ 4] (fun i => by fin_cases i; simp) ![0] 0 1]
    norm_num [integral_pow]
  · rw [dormandPrince_orders.2.2.2.1 1 ![X ^ 3] (fun i => by fin_cases i; simp) ![0] 0 1]
    rfl

/-- With a NaN safety factor an accepted step suggests a NaN next step, outside every step
limit: on `y' = y` from `y = 1` with `h = 0.1` and tolerances `10⁻⁶` the step is accepted with
a nonzero error norm. -/
theorem nan_safety_next_step :
    ∃ o, (Integrator.dormandPrince { atol := 1.0e-6, rtol := 1.0e-6, safety := 0.0 / 0.0 }).attempt
        (AffineSystem.linear [[1.0]]).rate 0.0 [1.0] 0.1 = .ok o ∧ o.nextStep.isNaN = true := by
  have hrun : ((Integrator.dormandPrince { atol := 1.0e-6, rtol := 1.0e-6, safety := 0.0 / 0.0 }).attempt
      (AffineSystem.linear [[1.0]]).rate 0.0 [1.0] 0.1).toOption.map (·.errorNorm == 0.0) =
        some false := by
    decide +kernel
  obtain ⟨o, ho, hnz⟩ := Option.map_eq_some_iff.1 hrun
  have hok : ∀ r : Outcome StepOutcome, r.toOption = some o → r = .ok o := by
    rintro (e | r) h <;> simp only [Except.toOption, reduceCtorEq, Option.some.injEq] at h
    rw [h]
  refine ⟨o, hok _ ho, ?_⟩
  obtain ⟨y1, error, -, -, -, rfl⟩ := Integrator.attempt_dormandPrince_eq_ok.1 (hok _ ho)
  exact StepControl.nextStep_isNaN_of_safety _ (by decide) (by decide) _ hnz

end Spacecraft
