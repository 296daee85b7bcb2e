import Mathlib
import Spacecraft.Proofs.Exact.Elimination

/-!
# The factorization that elimination computes

Over the real numbers `Elimination.solve` solves every nonsingular system exactly and refuses
exactly the singular ones (`Elimination.solve_eq`).

The proof follows the columns. A column is processed in four phases: the earlier row exchanges
are applied to it (`exchangeColumn`), it is reduced against the finished factors
(`reduceColumn`), the pivot row is exchanged with row `j` in the columns up to `j`
(`exchangeRows`) and the entries below the pivot are divided by it (`scaleColumn`). After the
columns before `j`, the rows of the matrix in the order the pivots give are, on those columns,
the unit lower factor held below the diagonal times the upper factor held on and above it
(`Factored`), and one more column keeps this (`Factored.eliminateColumn`). A zero pivot leaves a
zero on the diagonal of the upper factor, so the determinant is zero.
-/

namespace Spacecraft

namespace Elimination

section Phases

variable {K : Type} [Scalar K]

/-- Column `j` with the row exchanges of the earlier pivots applied. -/
def exchangeColumn (g : Matrix (Fin 3) (Fin 3) K) (pivots : List (Fin 3)) (j : Fin 3) :
    Matrix (Fin 3) (Fin 3) K :=
  (pivots.zip (Linear.below j.val)).foldl (fun g (p, i) => swapInColumn g i p j) g

/-- Column `j` reduced against the finished rows of the upper factor and the finished columns
of the lower one. -/
def reduceColumn (g : Matrix (Fin 3) (Fin 3) K) (j : Fin 3) : Matrix (Fin 3) (Fin 3) K :=
  let g := (Linear.below j.val).foldl
    (fun g i => if i.val = 0 then g else reduceEntry g i j i.val) g
  if j.val = 0 then g else
    (List.finRange 3).foldl (fun g i => if i.val < j.val then g else reduceEntry g i j j.val) g

/-- Rows `j` and `p` exchanged in the columns up to `j`. -/
def exchangeRows (g : Matrix (Fin 3) (Fin 3) K) (j p : Fin 3) : Matrix (Fin 3) (Fin 3) K :=
  if p = j then g else (Linear.below (j.val + 1)).foldl (fun g c => swapInColumn g j p c) g

/-- The entries of column `j` below the diagonal multiplied by `s`. -/
def scaleColumn (g : Matrix (Fin 3) (Fin 3) K) (j : Fin 3) (s : K) : Matrix (Fin 3) (Fin 3) K :=
  (List.finRange 3).foldl (fun g i => if i.val > j.val then setEntry g i j (g i j * s) else g) g

/-- A column step is its four phases: a zero pivot stops it after the reduction. -/
theorem eliminateColumn_eq [LT K] [DecidableLT K] (g : Matrix (Fin 3) (Fin 3) K) (pivots : List (Fin 3))
    (singular : Bool) (j : Fin 3) :
    eliminateColumn (g, pivots, singular) j =
      let g := reduceColumn (exchangeColumn g pivots j) j
      let p := pivotRow g j
      if Scalar.isZero (g p j) then (g, pivots ++ [p], true)
      else (scaleColumn (exchangeRows g j p) j (1.0 / g p j), pivots ++ [p], singular) :=
  rfl

omit [Scalar K] in
theorem setEntry_apply (g : Matrix (Fin 3) (Fin 3) K) (i j : Fin 3) (a : K) (r c : Fin 3) :
    setEntry g i j a r c = if r = i ∧ c = j then a else g r c := by
  by_cases hr : r = i <;> by_cases hc : c = j <;> simp [setEntry, Function.update, hr, hc]

omit [Scalar K] in
theorem swapInColumn_apply (g : Matrix (Fin 3) (Fin 3) K) (i k j r c : Fin 3) :
    swapInColumn g i k j r c = if c = j then g (Equiv.swap i k r) c else g r c := by
  simp only [swapInColumn, setEntry_apply, Equiv.swap_apply_def]
  split_ifs <;> simp_all

omit [Scalar K] in
/-- Exchanges in one column, applied in turn, permute that column by their product. -/
theorem foldl_swapInColumn_apply (l : List (Fin 3 × Fin 3)) (g : Matrix (Fin 3) (Fin 3) K)
    (j r c : Fin 3) :
    l.foldl (fun g (p, i) => swapInColumn g i p j) g r c =
      if c = j then g ((l.map fun x => Equiv.swap x.2 x.1).prod r) c else g r c := by
  induction l generalizing g with
  | nil => simp
  | cons x l ih =>
    simp only [List.foldl_cons, ih, swapInColumn_apply, List.map_cons, List.prod_cons,
      Equiv.Perm.coe_mul, Function.comp_apply]
    split_ifs <;> simp_all

omit [Scalar K] in
/-- Rows `j` and `p` exchanged in each column of a list without repeats. -/
theorem foldl_swapRows_apply (l : List (Fin 3)) (hl : l.Nodup) (g : Matrix (Fin 3) (Fin 3) K)
    (j p r c : Fin 3) :
    l.foldl (fun g c => swapInColumn g j p c) g r c =
      if c ∈ l then g (Equiv.swap j p r) c else g r c := by
  induction l generalizing g with
  | nil => simp
  | cons c₀ l ih =>
    obtain ⟨hc₀, hl⟩ := List.nodup_cons.mp hl
    simp only [List.foldl_cons, ih hl, swapInColumn_apply, List.mem_cons]
    by_cases hc : c = c₀
    · subst hc
      simp [hc₀]
    · simp [hc]

/-- Entries of column `j` multiplied, each once, at the rows of a list without repeats. -/
theorem foldl_scale_apply (l : List (Fin 3)) (hl : l.Nodup) (g : Matrix (Fin 3) (Fin 3) K)
    (j : Fin 3) (s : K) (r c : Fin 3) :
    l.foldl (fun g i => if i.val > j.val then setEntry g i j (g i j * s) else g) g r c =
      if c = j ∧ j < r ∧ r ∈ l then g r c * s else g r c := by
  induction l generalizing g with
  | nil => simp
  | cons i l ih =>
    obtain ⟨hi, hl⟩ := List.nodup_cons.mp hl
    simp only [List.foldl_cons, ih hl, List.mem_cons]
    by_cases hr : r = i
    · subst hr
      split_ifs <;> simp_all [setEntry_apply]
    · split_ifs <;> simp_all [setEntry_apply]

omit [Scalar K] in
theorem exchangeColumn_apply (g : Matrix (Fin 3) (Fin 3) K) (pivots : List (Fin 3))
    (j r c : Fin 3) :
    exchangeColumn g pivots j r c =
      if c = j then g (((pivots.zip (Linear.below j.val)).map fun x => Equiv.swap x.2 x.1).prod r) c
      else g r c :=
  foldl_swapInColumn_apply _ g j r c

omit [Scalar K] in
theorem exchangeRows_apply (g : Matrix (Fin 3) (Fin 3) K) (j p r c : Fin 3) :
    exchangeRows g j p r c = if c ≤ j then g (Equiv.swap j p r) c else g r c := by
  unfold exchangeRows
  split
  · subst p
    simp
  · have hmem : c ∈ Linear.below (j.val + 1) ↔ c ≤ j := by
      simp only [Linear.below, List.mem_filter, List.mem_finRange, true_and, decide_eq_true_eq]
      omega
    rw [foldl_swapRows_apply (Linear.below (j.val + 1)) ((List.nodup_finRange 3).filter _)]
    simp only [hmem]

theorem scaleColumn_apply (g : Matrix (Fin 3) (Fin 3) K) (j : Fin 3) (s : K) (r c : Fin 3) :
    scaleColumn g j s r c = if c = j ∧ j < r then g r c * s else g r c := by
  rw [scaleColumn, foldl_scale_apply _ (List.nodup_finRange 3)]
  simp

end Phases

section Real

open Matrix

theorem finRange_three : List.finRange 3 = [0, 1, 2] := by decide

theorem below_zero : Linear.below 0 = [] := by decide

theorem below_one : Linear.below 1 = [0] := by decide

theorem below_two : Linear.below 2 = [0, 1] := by decide

/-- The unit lower triangular matrix holding the entries of `g` below the diagonal in its
columns before `j`. -/
def lower (g : Matrix (Fin 3) (Fin 3) ℝ) (j : ℕ) : Matrix (Fin 3) (Fin 3) ℝ :=
  Matrix.of fun r m => if m < r ∧ m.val < j then g r m else if m = r then 1 else 0

/-- The upper triangular matrix holding the entries of `g` on and above the diagonal. -/
def upper (g : Matrix (Fin 3) (Fin 3) ℝ) : Matrix (Fin 3) (Fin 3) ℝ :=
  Matrix.of fun m c => if m ≤ c then g m c else 0

theorem reduceColumn_of_ne (g : Matrix (Fin 3) (Fin 3) ℝ) {j c : Fin 3} (hc : c ≠ j) (r : Fin 3) :
    reduceColumn g j r c = g r c := by
  fin_cases j <;> simp only [Fin.zero_eta, Fin.mk_one, Fin.reduceFinMk] at hc <;>
    simp [reduceColumn, below_zero, below_one, below_two, finRange_three, reduceEntry,
      setEntry_apply, hc]

/-- The reduction of column `j` undoes a product with the lower factor of the columns before
it: column `j` before is `lower g j` times column `j` after. -/
theorem reduceColumn_spec (g : Matrix (Fin 3) (Fin 3) ℝ) (j r : Fin 3) :
    g r j = ∑ m, lower g j r m * reduceColumn g j m j := by
  have h0 : (0.0 : ℝ) = 0 := by norm_num
  fin_cases j <;> fin_cases r <;>
    simp [reduceColumn, below_zero, below_one, below_two, finRange_three, reduceEntry, dot,
      setEntry_apply, h0, lower, Fin.sum_univ_three]
  -- the last entry of the last column is reduced by both earlier columns
  ring

/-- The pivot lies on or below the diagonal, has the largest magnitude there, and leaves the
diagonal only for a larger entry. -/
theorem pivotRow_spec (g : Matrix (Fin 3) (Fin 3) ℝ) (j : Fin 3) :
    (pivotRow g j = j ∨ j < pivotRow g j ∧ |g j j| < |g (pivotRow g j) j|) ∧
      ∀ i, j < i → |g i j| ≤ |g (pivotRow g j) j| := by
  suffices h : ∀ (l : List (Fin 3)) (b : Fin 3),
      let q := l.foldl (fun best i =>
        if i.val > j.val && Scalar.abs (g i j) > Scalar.abs (g best j) then i else best) b
      (q = b ∨ j < q ∧ |g b j| < |g q j|) ∧ ∀ i ∈ l, j < i → |g i j| ≤ |g q j| by
    obtain ⟨hq, hl⟩ := h (List.finRange 3) j
    exact ⟨hq, fun i hi => hl i (List.mem_finRange i) hi⟩
  -- the running best moves only to a strictly larger entry below the diagonal
  intro l
  induction l with
  | nil => simp
  | cons i l ih =>
    intro b
    obtain ⟨hq, hl⟩ := ih (if i.val > j.val && Scalar.abs (g i j) > Scalar.abs (g b j) then i else b)
    simp only [List.foldl_cons, List.mem_cons]
    split_ifs at hq hl ⊢ with hi <;> simp only [Scalar.real_abs, Bool.and_eq_true, decide_eq_true_eq] at hi <;> grind

theorem zip_below (pivots : List (Fin 3)) (j : Fin 3) (h : pivots.length = j.val) :
    pivots.zip (Linear.below j.val) = pivots.zip (List.finRange 3) := by
  obtain _ | ⟨a, _ | ⟨b, _ | ⟨c, l⟩⟩⟩ := pivots <;> fin_cases j <;> simp at h ⊢ <;> rfl

/-- The row order the pivots give: row `r` of the factored matrix is row `rowOrder pivots r`
of the matrix. -/
def rowOrder (pivots : List (Fin 3)) : Equiv.Perm (Fin 3) :=
  ((pivots.zip (List.finRange 3)).map fun x => Equiv.swap x.2 x.1).prod

theorem rowOrder_append (pivots : List (Fin 3)) (j p : Fin 3) (h : pivots.length = j.val) :
    rowOrder (pivots ++ [p]) = rowOrder pivots * Equiv.swap j p := by
  obtain _ | ⟨a, _ | ⟨b, _ | ⟨c, l⟩⟩⟩ := pivots <;> fin_cases j <;> simp at h ⊢ <;>
    simp [rowOrder, finRange_three, mul_assoc]

/-- The state of the elimination of `A` after its columns before `j`. -/
structure Factored (A : Matrix (Fin 3) (Fin 3) ℝ) (j : ℕ)
    (state : Matrix (Fin 3) (Fin 3) ℝ × List (Fin 3) × Bool) : Prop where
  /-- One pivot for each column done. -/
  length : state.2.1.length = j
  /-- The columns still to do are the matrix's own. -/
  untouched : ∀ r c, j ≤ c.val → state.1 r c = A r c
  /-- On the columns done, the rows in the pivots' order are the lower factor times the upper. -/
  factors : ∀ r c, c.val < j →
    A (rowOrder state.2.1 r) c = (lower state.1 j * upper state.1) r c
  /-- A zero pivot has been met exactly when the diagonal so far has a zero. -/
  nonsingular : state.2.2 = false ↔ ∀ c : Fin 3, c.val < j → state.1 c c ≠ 0

theorem Factored.start (A : Matrix (Fin 3) (Fin 3) ℝ) : Factored A 0 (A, [], false) where
  length := rfl
  untouched _ _ _ := rfl
  factors _ _ h := absurd h (Nat.not_lt_zero _)
  nonsingular := by simp

/-- Columns before `j` keep their product when the new factors read, before column `j`, the
old lower factor at another row, and the old upper factor. -/
theorem lower_mul_upper_of_lt {g g' : Matrix (Fin 3) (Fin 3) ℝ} {j : ℕ} {c : Fin 3}
    (hc : c.val < j) (r r' : Fin 3)
    (hL : ∀ m : Fin 3, m.val < j → lower g' (j + 1) r m = lower g j r' m)
    (hU : ∀ m, m ≤ c → g' m c = g m c) :
    (lower g' (j + 1) * upper g') r c = (lower g j * upper g) r' c := by
  simp only [Matrix.mul_apply]
  refine Finset.sum_congr rfl fun m _ => ?_
  by_cases hm : m ≤ c
  · have hmj : m.val < j := lt_of_le_of_lt (Fin.le_def.mp hm) hc
    simp only [hL m hmj, upper, Matrix.of_apply, if_pos hm, hU m hm]
  · simp [upper, hm]

theorem swap_of_lt {j p m : Fin 3} (hp : j ≤ p) (hm : m < j) : Equiv.swap j p m = m :=
  Equiv.swap_apply_of_ne_of_ne (ne_of_lt hm) (ne_of_lt (lt_of_lt_of_le hm hp))

/-- Exchanging rows `j` and `p` below the diagonal does not move a row across an index
before `j`. -/
theorem lt_swap_iff {j p m : Fin 3} (hp : j ≤ p) (hm : m < j) (r : Fin 3) :
    m < Equiv.swap j p r ↔ m < r := by
  rw [Equiv.swap_apply_def]
  split_ifs <;> subst_vars <;> simp only [Fin.lt_def, Fin.le_def] at hm hp ⊢ <;> omega

theorem eq_swap_iff_of_lt {j p m : Fin 3} (hp : j ≤ p) (hm : m < j) (r : Fin 3) :
    m = Equiv.swap j p r ↔ m = r := by
  rw [eq_comm, Equiv.swap_apply_eq_iff, swap_of_lt hp hm, eq_comm]

variable {A g g₃ : Matrix (Fin 3) (Fin 3) ℝ} {pivots : List (Fin 3)} {singular : Bool}
  {j : Fin 3}

/-- A zero pivot: column `j` is zero on and below the diagonal, and is left as it is. -/
theorem Factored.zeroPivot (h : Factored A j.val (g, pivots, singular))
    (hg₃ : ∀ r c, c ≠ j → g₃ r c = g r c)
    (hred : ∀ r, A (rowOrder pivots r) j = ∑ m, lower g j r m * g₃ m j)
    (hz : ∀ i, j ≤ i → g₃ i j = 0) :
    Factored A (j.val + 1) (g₃, pivots ++ [j], true) := by
  obtain ⟨hlen, hA, hLU, -⟩ := h
  dsimp only at hlen hA hLU
  have hrow : rowOrder (pivots ++ [j]) = rowOrder pivots := by
    rw [rowOrder_append _ _ _ hlen, Equiv.swap_self]
    rfl
  -- before column `j` the new lower factor reads the old one
  have hL : ∀ r (m : Fin 3), m.val < j.val → lower g₃ (j.val + 1) r m = lower g j.val r m := by
    intro r m hm
    simp only [lower, Matrix.of_apply, hg₃ r m (Fin.ne_of_lt hm), hm, Nat.lt_succ_of_lt hm,
      and_true]
  refine ⟨by simp [hlen], fun r c hc => ?_, fun r c hc => ?_, ?_⟩
  · dsimp only
    rw [hg₃ r c (Fin.ne_of_gt (by omega)), hA r c (by omega)]
  · dsimp only
    rw [hrow]
    rcases Nat.lt_succ_iff_lt_or_eq.mp hc with hc | hc
    · rw [hLU r c hc]
      exact (lower_mul_upper_of_lt hc r r (hL r) fun m _ => hg₃ m c (Fin.ne_of_lt hc)).symm
    · obtain rfl : c = j := Fin.ext hc
      -- termwise: below `j` the factors agree, and from `j` on the column is zero
      rw [hred r, Matrix.mul_apply]
      refine Finset.sum_congr rfl fun m _ => ?_
      by_cases hm : m.val < c.val
      · rw [hL r m hm, upper, Matrix.of_apply, if_pos (Fin.le_def.mpr (le_of_lt hm))]
      · have hzm : g₃ m c = 0 := hz m (Fin.le_def.mpr (not_lt.mp hm))
        simp [upper, hzm]
  · have hjj : g₃ j j = 0 := hz j le_rfl
    simp only [Bool.true_eq_false, false_iff, not_forall]
    exact ⟨j, Nat.lt_succ_self _, fun h => h hjj⟩

/-- A nonzero pivot at row `p`: rows `j` and `p` are exchanged up to column `j`, and the
entries below the pivot are divided by it. -/
theorem Factored.pivot (h : Factored A j.val (g, pivots, singular))
    (hg₃ : ∀ r c, c ≠ j → g₃ r c = g r c)
    (hred : ∀ r, A (rowOrder pivots r) j = ∑ m, lower g j r m * g₃ m j)
    {p : Fin 3} (hp : j ≤ p) (ht : g₃ p j ≠ 0) :
    Factored A (j.val + 1)
      (scaleColumn (exchangeRows g₃ j p) j (1.0 / g₃ p j), pivots ++ [p], singular) := by
  obtain ⟨hlen, hA, hLU, hsing⟩ := h
  dsimp only at hlen hA hLU hsing
  set g₅ := scaleColumn (exchangeRows g₃ j p) j (1.0 / g₃ p j) with hg₅
  have hone : (1.0 : ℝ) = 1 := by norm_num
  have happly : ∀ r c, g₅ r c = if c = j ∧ j < r then g₃ (Equiv.swap j p r) j / g₃ p j
      else if c ≤ j then g₃ (Equiv.swap j p r) c else g₃ r c := by
    intro r c
    rw [hg₅, scaleColumn_apply, exchangeRows_apply]
    split_ifs <;> simp_all [div_eq_mul_inv]
  have hbefore : ∀ r (m : Fin 3), m < j → g₅ r m = g (Equiv.swap j p r) m := by
    intro r m hm
    rw [happly, if_neg fun h => ne_of_lt hm h.1, if_pos (le_of_lt hm), hg₃ _ _ (ne_of_lt hm)]
  -- before column `j` the new lower factor reads the old one at the exchanged row
  have hL : ∀ r (m : Fin 3), m.val < j.val →
      lower g₅ (j.val + 1) r m = lower g j.val (Equiv.swap j p r) m := by
    intro r m hm
    simp only [lower, Matrix.of_apply, hbefore r m hm, lt_swap_iff hp hm r,
      eq_swap_iff_of_lt hp hm r, hm, Nat.lt_succ_of_lt hm, and_true]
  refine ⟨by simp [hlen], fun r c hc => ?_, fun r c hc => ?_, ?_⟩
  · dsimp only
    have hcj : c ≠ j := Fin.ne_of_gt (by omega)
    rw [happly, if_neg fun h => hcj h.1, if_neg (by simp only [Fin.le_def]; omega), hg₃ r c hcj,
      hA r c (by omega)]
  · dsimp only
    rw [rowOrder_append pivots j p hlen, Equiv.Perm.mul_apply]
    rcases Nat.lt_succ_iff_lt_or_eq.mp hc with hc | hc
    · rw [hLU _ c hc]
      refine (lower_mul_upper_of_lt hc r _ (hL r) fun m hm => ?_).symm
      rw [hbefore m c hc, swap_of_lt hp (lt_of_le_of_lt hm hc)]
    · obtain rfl : c = j := Fin.ext hc
      rw [hred, Matrix.mul_apply]
      simp only [Fin.sum_univ_three, lower, upper, Matrix.of_apply, happly]
      fin_cases c <;> fin_cases p <;> simp at hp ht <;> fin_cases r <;>
        simp [hg₃, Equiv.swap_apply_of_ne_of_ne] <;> field_simp
  · -- the new diagonal entry is the pivot; the earlier ones stay
    dsimp only
    rw [hsing]
    constructor
    · intro hdiag c hc
      rcases Nat.lt_succ_iff_lt_or_eq.mp hc with hc | hc
      · rw [hbefore c c hc, swap_of_lt hp hc]
        exact hdiag c hc
      · obtain rfl : c = j := Fin.ext hc
        rw [happly, if_neg fun h => lt_irrefl _ h.2, if_pos le_rfl, Equiv.swap_apply_left]
        exact ht
    · intro hdiag c hc
      have hc' := hdiag c (Nat.lt_succ_of_lt hc)
      rwa [hbefore c c hc, swap_of_lt hp hc] at hc'

/-- One column of elimination keeps the factorization. -/
theorem Factored.eliminateColumn {st : Matrix (Fin 3) (Fin 3) ℝ × List (Fin 3) × Bool}
    (j : Fin 3) (h : Factored A j.val st) :
    Factored A (j.val + 1) (Elimination.eliminateColumn st j) := by
  obtain ⟨g, pivots, singular⟩ := st
  have hlen := h.length
  have hA := h.untouched
  dsimp only at hlen hA
  rw [eliminateColumn_eq]
  dsimp only
  set g₁ := exchangeColumn g pivots j with hg₁
  set g₃ := reduceColumn g₁ j with hg₃def
  have hg₃ : ∀ r c, c ≠ j → g₃ r c = g r c := by
    intro r c hc
    rw [hg₃def, reduceColumn_of_ne _ hc, hg₁, exchangeColumn_apply, if_neg hc]
  -- the earlier exchanges bring column `j` into the pivots' row order, and the reduction
  -- leaves it the lower factor so far times the reduced column
  have hred : ∀ r, A (rowOrder pivots r) j = ∑ m, lower g j r m * g₃ m j := by
    intro r
    have hcol : A (rowOrder pivots r) j = g₁ r j := by
      rw [hg₁, exchangeColumn_apply, if_pos rfl, zip_below pivots j hlen]
      exact (hA _ j le_rfl).symm
    have hlow : lower g₁ j = lower g j := by
      ext r m
      simp only [lower, Matrix.of_apply]
      split_ifs with hm
      · rw [hg₁, exchangeColumn_apply, if_neg (Fin.ne_of_lt hm.2)]
      all_goals rfl
    rw [hcol, reduceColumn_spec g₁ j r, hlow]
  obtain ⟨hpj, hmax⟩ := pivotRow_spec g₃ j
  split_ifs with hz
  · -- a zero pivot is on the diagonal, and the column is zero from there down
    have hz' : g₃ (pivotRow g₃ j) j = 0 := by simpa using hz
    have hp : pivotRow g₃ j = j := by
      rcases hpj with hp | ⟨-, hlt⟩
      · exact hp
      · rw [hz', abs_zero] at hlt
        exact absurd hlt (not_lt.mpr (abs_nonneg _))
    have hzero : ∀ i, j ≤ i → g₃ i j = 0 := by
      intro i hi
      rcases hi.lt_or_eq with hi | rfl
      · have hi' := hmax i hi
        rw [hz', abs_zero] at hi'
        exact abs_nonpos_iff.mp hi'
      · rwa [hp] at hz'
    rw [hp]
    exact h.zeroPivot hg₃ hred hzero
  · have ht : g₃ (pivotRow g₃ j) j ≠ 0 := by simpa using hz
    have hp : j ≤ pivotRow g₃ j := by
      rcases hpj with hp | ⟨hp, -⟩
      · exact hp.ge
      · exact hp.le
    exact h.pivot hg₃ hred hp ht

/-- The elimination of every matrix ends factored. -/
theorem factored_factor (A : Matrix (Fin 3) (Fin 3) ℝ) : Factored A 3 (factor A) :=
  (((Factored.start A).eliminateColumn 0).eliminateColumn 1).eliminateColumn 2

/-- Forward substitution inverts the unit lower factor. -/
theorem lower_mulVec_forward (g : Matrix (Fin 3) (Fin 3) ℝ) (v : Fin 3 → ℝ) :
    lower g 3 *ᵥ forward g v = v := by
  funext r
  fin_cases r <;>
    simp [forward, finRange_three, Function.update_apply, Matrix.mulVec, dotProduct,
      Fin.sum_univ_three, lower] <;>
    ring

/-- Back substitution inverts an upper factor with no zero on its diagonal. -/
theorem upper_mulVec_backward (g : Matrix (Fin 3) (Fin 3) ℝ) (hg : ∀ c, g c c ≠ 0)
    (v : Fin 3 → ℝ) : upper g *ᵥ backward g v = v := by
  have h0 := hg 0
  have h1 := hg 1
  have h2 := hg 2
  funext r
  fin_cases r <;>
    simp [backward, finRange_three, Function.update_apply, Matrix.mulVec, dotProduct,
      Fin.sum_univ_three, upper] <;>
    field_simp <;>
    ring

/-- The exchanges applied to the right-hand side read it in the pivots' row order. -/
theorem exchange_eq (pivots : List (Fin 3)) (b : Fin 3 → ℝ) :
    exchange pivots b = b ∘ rowOrder pivots := by
  have hswap : ∀ (v : Fin 3 → ℝ) (p i : Fin 3),
      Function.update (Function.update v i (v p)) p (v i) = v ∘ Equiv.swap i p := by
    intro v p i
    funext x
    simp only [Function.update_apply, Function.comp_apply, Equiv.swap_apply_def]
    split_ifs <;> simp_all
  unfold exchange rowOrder
  generalize pivots.zip (List.finRange 3) = l
  induction l generalizing b with
  | nil => rfl
  | cons x l ih =>
    obtain ⟨p, i⟩ := x
    simp only [List.foldl_cons]
    rw [hswap, ih, List.map_cons, List.prod_cons, Equiv.Perm.coe_mul]
    rfl

theorem det_lower (g : Matrix (Fin 3) (Fin 3) ℝ) : (lower g 3).det = 1 := by
  simp [det_fin_three, lower]

theorem det_upper (g : Matrix (Fin 3) (Fin 3) ℝ) : (upper g).det = g 0 0 * g 1 1 * g 2 2 := by
  simp [det_fin_three, upper]

variable {st : Matrix (Fin 3) (Fin 3) ℝ × List (Fin 3) × Bool}

/-- Factored, the matrix in the pivots' row order is the lower factor times the upper. -/
theorem Factored.submatrix_eq (h : Factored A 3 st) :
    A.submatrix (rowOrder st.2.1) id = lower st.1 3 * upper st.1 := by
  ext r c
  exact h.factors r c c.isLt

/-- Factored, the determinant is the product of the pivots up to the sign of the row order. -/
theorem Factored.det_eq (h : Factored A 3 st) :
    (Equiv.Perm.sign (rowOrder st.2.1) : ℝ) * A.det = st.1 0 0 * st.1 1 1 * st.1 2 2 := by
  rw [← det_permute, h.submatrix_eq, det_mul, det_lower, det_upper, one_mul]

/-- Factored, a zero pivot was met exactly when the matrix is singular. -/
theorem Factored.singular_iff (h : Factored A 3 st) : st.2.2 = false ↔ A.det ≠ 0 := by
  have hsign : (Equiv.Perm.sign (rowOrder st.2.1) : ℝ) ≠ 0 := by
    rcases Int.units_eq_one_or (Equiv.Perm.sign (rowOrder st.2.1)) with h | h <;> simp [h]
  rw [h.nonsingular, ← mul_ne_zero_iff_left hsign, h.det_eq]
  constructor
  · intro hd
    exact mul_ne_zero (mul_ne_zero (hd 0 (by decide)) (hd 1 (by decide))) (hd 2 (by decide))
  · intro hd c _
    fin_cases c <;> simp_all

/-- Over the real numbers the elimination solves every nonsingular system exactly and refuses
exactly the singular ones. -/
theorem solve_eq (A : Matrix (Fin 3) (Fin 3) ℝ) (b : Fin 3 → ℝ) :
    solve A b = if A.det = 0 then .error .singularMatrix else .ok (A⁻¹ *ᵥ b) := by
  have h := factored_factor A
  unfold solve
  generalize factor A = st at h ⊢
  obtain ⟨g, pivots, singular⟩ := st
  have hsing := h.singular_iff
  dsimp only at hsing ⊢
  cases singular
  · have hdet : A.det ≠ 0 := hsing.mp rfl
    have hdiag : ∀ c, g c c ≠ 0 := fun c => h.nonsingular.mp rfl c c.isLt
    set x := backward g (forward g (exchange pivots b))
    -- in the pivots' row order the factors turn `x` into the exchanged right-hand side
    have hx : A *ᵥ x = b := by
      have hperm : A.submatrix (rowOrder pivots) id *ᵥ x = b ∘ rowOrder pivots := by
        rw [h.submatrix_eq, ← mulVec_mulVec, upper_mulVec_backward g hdiag,
          lower_mulVec_forward, exchange_eq]
      funext i
      have hi : (A *ᵥ x) (rowOrder pivots ((rowOrder pivots).symm i)) =
          b (rowOrder pivots ((rowOrder pivots).symm i)) :=
        congrFun hperm ((rowOrder pivots).symm i)
      rwa [Equiv.apply_symm_apply] at hi
    rw [if_neg hdet]
    simp only [Bool.false_eq_true, if_false]
    congr 1
    rw [← hx, mulVec_mulVec, nonsing_inv_mul A (isUnit_iff_ne_zero.mpr hdet), one_mulVec]
  · have hdet : A.det = 0 := by simpa using hsing
    simp [hdet]

end Real

end Elimination

end Spacecraft
