import Mathlib
import Spacecraft.Proofs.Binary64.Grid

/-!
# The order of binary64 values

A `Float` compares through its unpacked form (`view`), and `UnpackedFloat.compare` orders
finite values lexicographically by exponent and then mantissa. That order is the order of
the numbers only for values in the form unpacking produces (`Canonical`): on the grid, with an
exponent that fits. This module gives every unpacked value a `rank`, its value in units of
`2⁻¹⁰⁷⁴` with the infinities beyond every finite value, and shows that `<`, `≤` and `==` on
floats other than NaN are the comparisons of their ranks.
-/

namespace Spacecraft.Binary64

open Float.Model UnpackedFloat

/-- The unpacked form of a float. -/
def view (x : Float) : UnpackedFloat := x.toModel.unpack

/-- A finite value binary64 holds: on the grid, with an exponent that fits in eleven bits. -/
structure Canonical (m : Nat) (e : Int) : Prop extends OnGrid m e where
  exp_le : e ≤ 971

/-- An unpacked value as unpacking produces it: a finite one is canonical. -/
def Canon : UnpackedFloat → Prop
  | .finite _ m e _ => Canonical m e
  | _ => True

/-- Unpacking 64 bits gives a canonical finite value or a special one. -/
theorem canonical_of_unpack {b : BitVec 64} {s : Sign} {m : Nat} {e : Int} {hm : 0 < m}
    (h : unpack .binary64 b = .finite s m e hm) : Canonical m e := by
  have hE := (@unpackExponent .binary64 b).isLt
  have hM := (@unpackMantissa .binary64 b).isLt
  unfold UnpackedFloat.unpack at h
  simp only at h
  by_cases h1 : @unpackExponent .binary64 b = -1#11
  · rw [if_pos h1] at h
    split at h <;> cases h
  rw [if_neg h1] at h
  by_cases h3 : @unpackExponent .binary64 b = 0#11
  · -- subnormal: the least exponent, no implicit bit
    rw [if_pos h3] at h
    by_cases h4 : @unpackMantissa .binary64 b = 0#52
    · rw [dif_pos h4] at h; cases h
    rw [dif_neg h4] at h
    injection h with _ hm' he'
    subst hm' he'
    refine ⟨⟨?_, ?_, Or.inr ?_⟩, ?_⟩ <;> simp [h3, Format.exponentBias] at hM ⊢
    omega
  · -- normal: the implicit bit makes 53
    rw [if_neg h3] at h
    have h1' : (@unpackExponent .binary64 b).toNat ≠ 2047 := by
      intro h; apply h1; apply BitVec.eq_of_toNat_eq; simpa using h
    have h3' : (@unpackExponent .binary64 b).toNat ≠ 0 := by
      intro h; apply h3; apply BitVec.eq_of_toNat_eq; simpa using h
    injection h with _ hm' he'
    subst hm' he'
    rw [implicit_bit]
    refine ⟨⟨?_, ?_, Or.inl ?_⟩, ?_⟩ <;> simp [Format.exponentBias] at hE hM ⊢ <;> omega

theorem canon_view (x : Float) : Canon (view x) := by
  unfold Canon
  split
  · exact canonical_of_unpack (by assumption)
  · trivial

/-- The exponent of `infRank`, past every finite value. -/
@[irreducible] def unitBits : Nat := 2098

/-- The rank of the infinities, beyond every finite value. -/
def infRank : Nat := 2 ^ unitBits

theorem units_lt_infRank {m : Nat} {e : Int} (h : Canonical m e) : units m e < infRank := by
  have hg : grid e ≤ grid 971 := Nat.pow_le_pow_right (by norm_num) (by have := h.exp_le; omega)
  calc units m e < 2 ^ 53 * grid e := Nat.mul_lt_mul_of_pos_right h.mant_lt (grid_pos e)
    _ ≤ 2 ^ 53 * grid 971 := Nat.mul_le_mul_left _ hg
    _ = infRank := by unfold grid infRank unitBits; rw [← pow_add]; congr 1

theorem units_pos {m : Nat} {e : Int} (hm : 0 < m) : 0 < units m e :=
  Nat.mul_pos hm (grid_pos e)

/-- The place of a value on the number line, in units of `2⁻¹⁰⁷⁴`, with the infinities beyond
every finite value. NaN is given zero, but it compares with nothing. -/
def rank : UnpackedFloat → Int
  | .notANumber => 0
  | .infinity .negative => -(infRank : Int)
  | .infinity .positive => infRank
  | .zero _ => 0
  | .finite s m e _ => s.apply (units m e)

/-- Of two canonical values, the one with the larger exponent is the larger. -/
theorem units_lt_of_canonical {m₁ m₂ : Nat} {e₁ e₂ : Int} (h₁ : OnGrid m₁ e₁) (h₂ : OnGrid m₂ e₂)
    (he : e₁ < e₂) : units m₁ e₁ < units m₂ e₂ := by
  have hn : 2 ^ 52 ≤ m₂ := h₂.normal.resolve_right (by have := h₁.exp_ge; omega)
  exact lt_of_lt_of_le (units_lt_of_exp_lt h₁ he) (Nat.mul_le_mul_right _ hn)

theorem compare_mul_right (a b p : Nat) (hp : 0 < p) : compare (a * p) (b * p) = compare a b := by
  rcases lt_trichotomy a b with h | rfl | h
  · rw [compare_lt_iff_lt.2 h, compare_lt_iff_lt.2 (Nat.mul_lt_mul_of_pos_right h hp)]
  · simp
  · rw [compare_gt_iff_gt.2 h, compare_gt_iff_gt.2 (Nat.mul_lt_mul_of_pos_right h hp)]

/-- The lexicographic order of canonical values is the order of their values. -/
theorem compare_lex_eq_units {m₁ m₂ : Nat} {e₁ e₂ : Int} (h₁ : OnGrid m₁ e₁)
    (h₂ : OnGrid m₂ e₂) :
    (compare e₁ e₂).then (compare m₁ m₂) = compare (units m₁ e₁) (units m₂ e₂) := by
  rcases lt_trichotomy e₁ e₂ with he | rfl | he
  · rw [compare_lt_iff_lt.2 he, compare_lt_iff_lt.2 (units_lt_of_canonical h₁ h₂ he)]; rfl
  · rw [compare_eq_iff_eq.2 rfl]
    exact (compare_mul_right m₁ m₂ (grid e₁) (grid_pos e₁)).symm
  · rw [compare_gt_iff_gt.2 he, compare_gt_iff_gt.2 (units_lt_of_canonical h₂ h₁ he)]; rfl

theorem compare_natCast (a b : Nat) : compare (a : Int) (b : Int) = compare a b := by
  rcases lt_trichotomy a b with h | rfl | h
  · rw [compare_lt_iff_lt.2 h, compare_lt_iff_lt.2 (by exact_mod_cast h)]
  · simp
  · rw [compare_gt_iff_gt.2 h, compare_gt_iff_gt.2 (by exact_mod_cast h)]

theorem compare_neg_neg (a b : Int) : compare (-a) (-b) = (compare a b).swap := by
  rcases lt_trichotomy a b with h | rfl | h
  · rw [compare_lt_iff_lt.2 h, compare_gt_iff_gt.2 (by omega)]; rfl
  · simp
  · rw [compare_gt_iff_gt.2 h, compare_lt_iff_lt.2 (by omega)]; rfl

/-- On canonical values other than NaN, the comparison of `Float.Model` is the comparison of
ranks. -/
theorem compare_eq_rank {u v : UnpackedFloat} (hu : Canon u) (hv : Canon v)
    (hun : u ≠ .notANumber) (hvn : v ≠ .notANumber) :
    u.compare v = some (compare (rank u) (rank v)) := by
  have hB : 0 < infRank := Nat.two_pow_pos _
  -- every case compares two numbers of known signs, or two finite magnitudes
  cases u with
  | notANumber => exact absurd rfl hun
  | infinity s₁ =>
    cases v with
    | notANumber => exact absurd rfl hvn
    | infinity s₂ =>
      cases s₁ <;> cases s₂ <;> simp only [UnpackedFloat.compare, rank]
      · rw [compare_eq_iff_eq.2 rfl]; rfl
      · rw [compare_lt_iff_lt.2 (by omega)]; rfl
      · rw [compare_gt_iff_gt.2 (by omega)]; rfl
      · rw [compare_eq_iff_eq.2 rfl]; rfl
    | zero s₂ =>
      cases s₁ <;> simp only [UnpackedFloat.compare, rank]
      · rw [compare_lt_iff_lt.2 (by omega)]
      · rw [compare_gt_iff_gt.2 (by omega)]
    | finite s₂ m₂ e₂ hm₂ =>
      have := units_lt_infRank (m := m₂) (e := e₂) hv
      cases s₁ <;> cases s₂ <;> simp only [UnpackedFloat.compare, rank, Sign.apply]
      · rw [compare_lt_iff_lt.2 (by omega)]
      · rw [compare_lt_iff_lt.2 (by omega)]
      · rw [compare_gt_iff_gt.2 (by omega)]
      · rw [compare_gt_iff_gt.2 (by omega)]
  | zero s₁ =>
    cases v with
    | notANumber => exact absurd rfl hvn
    | infinity s₂ =>
      cases s₂ <;> simp only [UnpackedFloat.compare, rank]
      · rw [compare_gt_iff_gt.2 (by omega)]
      · rw [compare_lt_iff_lt.2 (by omega)]
    | zero s₂ => simp only [UnpackedFloat.compare, rank]; rw [compare_eq_iff_eq.2 rfl]
    | finite s₂ m₂ e₂ hm₂ =>
      have := units_pos (e := e₂) hm₂
      cases s₂ <;> simp only [UnpackedFloat.compare, rank, Sign.apply]
      · rw [compare_gt_iff_gt.2 (by omega)]
      · rw [compare_lt_iff_lt.2 (by omega)]
  | finite s₁ m₁ e₁ hm₁ =>
    cases v with
    | notANumber => exact absurd rfl hvn
    | infinity s₂ =>
      have := units_lt_infRank (m := m₁) (e := e₁) hu
      cases s₁ <;> cases s₂ <;> simp only [UnpackedFloat.compare, rank, Sign.apply]
      · rw [compare_gt_iff_gt.2 (by omega)]
      · rw [compare_lt_iff_lt.2 (by omega)]
      · rw [compare_gt_iff_gt.2 (by omega)]
      · rw [compare_lt_iff_lt.2 (by omega)]
    | zero s₂ =>
      have := units_pos (e := e₁) hm₁
      cases s₁ <;> simp only [UnpackedFloat.compare, rank, Sign.apply]
      · rw [compare_lt_iff_lt.2 (by omega)]
      · rw [compare_gt_iff_gt.2 (by omega)]
    | finite s₂ m₂ e₂ hm₂ =>
      have h₁ := units_pos (e := e₁) hm₁
      have h₂ := units_pos (e := e₂) hm₂
      have hlex := compare_lex_eq_units (Canonical.toOnGrid hu) (Canonical.toOnGrid hv)
      cases s₁ <;> cases s₂ <;> simp only [UnpackedFloat.compare, rank, Sign.apply]
      · rw [hlex, compare_neg_neg, compare_natCast]
      · rw [compare_lt_iff_lt.2 (by omega)]
      · rw [compare_gt_iff_gt.2 (by omega)]
      · rw [hlex, compare_natCast]

theorem rank_zero (s : Sign) : rank (.zero s) = 0 := rfl

theorem rank_finite (s : Sign) (m : Nat) (e : Int) (hm : 0 < m) :
    rank (.finite s m e hm) = s.apply (units m e) := by
  cases s <;> rfl

@[simp] theorem rank_posInf : rank (.infinity .positive) = infRank := rfl

@[simp] theorem rank_negInf : rank (.infinity .negative) = -(infRank : Int) := rfl

theorem infRank_pos : (0 : Int) < infRank := by
  have := Nat.two_pow_pos unitBits; unfold infRank; omega

theorem rank_le_infRank {u : UnpackedFloat} (hu : Canon u) : -(infRank : Int) ≤ rank u ∧ rank u ≤ infRank := by
  cases u with
  | infinity s => cases s <;> simp [rank]
  | notANumber => simp [rank]
  | zero s => simp [rank]
  | finite s m e hm =>
    have := units_lt_infRank (m := m) (e := e) hu
    cases s <;> simp only [rank, Sign.apply] <;> omega

theorem ne_nan_of_isFinite {u : UnpackedFloat} (h : u.isFinite = true) : u ≠ .notANumber := by
  rintro rfl; simp [UnpackedFloat.isFinite] at h

theorem rank_lt_infRank {u : UnpackedFloat} (hu : Canon u) (hf : u.isFinite = true) :
    -(infRank : Int) < rank u ∧ rank u < infRank := by
  cases u with
  | zero s => have := infRank_pos; simp only [rank]; omega
  | finite s m e hm =>
    have := units_lt_infRank (m := m) (e := e) hu
    cases s <;> simp only [rank, Sign.apply] <;> omega
  | _ => simp [UnpackedFloat.isFinite] at hf

/-! ### Comparisons of floats -/

theorem lt_iff_compare {x y : Float} : x < y ↔ (view x).compare (view y) = some .lt := by
  show x.lt y = true ↔ _
  simp [Float.lt, LT.lt, Float.Model.lt, UnpackedFloat.lt, view]

theorem le_iff_compare {x y : Float} :
    x ≤ y ↔ (view x).compare (view y) = some .lt ∨ (view x).compare (view y) = some .eq := by
  have h : x ≤ y ↔ (view x).le (view y) = true := by
    show x.le y = true ↔ _
    simp only [Float.le, LE.le, Float.Model.le, view]
    exact ⟨of_decide_eq_true, decide_eq_true⟩
  rw [h, UnpackedFloat.le]
  cases (view x).compare (view y) with
  | none => simp
  | some o => cases o <;> simp [Ordering.isLE]

theorem beq_iff_compare {x y : Float} : (x == y) = true ↔ (view x).compare (view y) = some .eq := by
  show x.beq y = true ↔ _
  simp only [Float.beq, BEq.beq, Float.Model.beq, UnpackedFloat.beq, view]
  cases (x.toModel.unpack.compare y.toModel.unpack) with
  | none => simp only [reduceCtorEq, iff_false]; decide
  | some o => cases o <;> simp <;> rfl

theorem isNaN_eq_false_iff {x : Float} : x.isNaN = false ↔ view x ≠ .notANumber := by
  show x.toModel.unpack.isNaN = false ↔ _
  rw [view]
  cases x.toModel.unpack <;> simp [UnpackedFloat.isNaN]

theorem isNaN_eq_true_iff {x : Float} : x.isNaN = true ↔ view x = .notANumber := by
  rw [← Bool.not_eq_false, isNaN_eq_false_iff, not_not]

theorem isFinite_iff {x : Float} : x.isFinite = true ↔ (view x).isFinite = true := Iff.rfl

section Ranks

variable {x y : Float} (hx : view x ≠ .notANumber) (hy : view y ≠ .notANumber)
include hx hy

theorem lt_iff_rank : x < y ↔ rank (view x) < rank (view y) := by
  rw [lt_iff_compare, compare_eq_rank (canon_view x) (canon_view y) hx hy, Option.some.injEq,
    compare_lt_iff_lt]

theorem le_iff_rank : x ≤ y ↔ rank (view x) ≤ rank (view y) := by
  rw [le_iff_compare, compare_eq_rank (canon_view x) (canon_view y) hx hy, Option.some.injEq,
    Option.some.injEq, compare_lt_iff_lt, compare_eq_iff_eq]
  omega

theorem beq_iff_rank : (x == y) = true ↔ rank (view x) = rank (view y) := by
  rw [beq_iff_compare, compare_eq_rank (canon_view x) (canon_view y) hx hy, Option.some.injEq,
    compare_eq_iff_eq]

end Ranks

/-- A NaN compares with nothing. -/
theorem compare_nan_left (u : UnpackedFloat) : UnpackedFloat.compare .notANumber u = none := by
  cases u <;> rfl

theorem compare_nan_right (u : UnpackedFloat) : u.compare .notANumber = none := by
  cases u <;> rfl

theorem not_lt_of_nan_left {x : Float} (y : Float) (hx : view x = .notANumber) : ¬ x < y := by
  rw [lt_iff_compare, hx, compare_nan_left]; simp

theorem not_lt_of_nan_right (x : Float) {y : Float} (hy : view y = .notANumber) : ¬ x < y := by
  rw [lt_iff_compare, hy, compare_nan_right]; simp

theorem not_le_of_nan_left {x : Float} (y : Float) (hx : view x = .notANumber) : ¬ x ≤ y := by
  rw [le_iff_compare, hx, compare_nan_left]; simp

theorem not_le_of_nan_right (x : Float) {y : Float} (hy : view y = .notANumber) : ¬ x ≤ y := by
  rw [le_iff_compare, hy, compare_nan_right]; simp

theorem ne_nan_of_lt_left {x y : Float} (h : x < y) : view x ≠ .notANumber :=
  fun hx => not_lt_of_nan_left y hx h

theorem ne_nan_of_lt_right {x y : Float} (h : x < y) : view y ≠ .notANumber :=
  fun hy => not_lt_of_nan_right x hy h

theorem ne_nan_of_le_left {x y : Float} (h : x ≤ y) : view x ≠ .notANumber :=
  fun hx => not_le_of_nan_left y hx h

theorem ne_nan_of_le_right {x y : Float} (h : x ≤ y) : view y ≠ .notANumber :=
  fun hy => not_le_of_nan_right x hy h

theorem view_zero : view 0 = .zero .positive := rfl

theorem pos_iff_rank {x : Float} (hx : view x ≠ .notANumber) : 0 < x ↔ 0 < rank (view x) := by
  rw [lt_iff_rank (by rw [view_zero]; simp) hx, view_zero, rank_zero]

theorem nonneg_iff_rank {x : Float} (hx : view x ≠ .notANumber) : 0 ≤ x ↔ 0 ≤ rank (view x) := by
  rw [le_iff_rank (by rw [view_zero]; simp) hx, view_zero, rank_zero]

end Spacecraft.Binary64
