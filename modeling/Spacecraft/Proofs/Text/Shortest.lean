import Mathlib
import Spacecraft.Proofs.Binary64.Nearest

/-!
# The shortest digits round back

The shortest digits of a finite nonzero float `m · 2^q` are searched for with one, two, …
seventeen significant digits on the grid `10^(k - n + 1)`, where `k` is the decimal exponent
of the value. This module shows that the search always succeeds and that what it finds lies
in the rounding interval of the float (`RoundsTo`), so that a correctly rounded reader gives
the float back.

* The candidate for a digit count, when there is one, lies between the two ends of the
  interval, with the ends included exactly when `m` is even (`candidate_spec`).
* The estimate of the decimal exponent, `⌊l · 78913 / 2^18⌋` for the binary logarithm `l`, is
  at most one too large, and the two corrections bring it to at most `log₁₀` of the value
  (`pow_log10Floor_le`); the constant is checked against `log₁₀ 2` by comparing powers.
* The interval is wider than `10^(k - 16)`, so a seventeen-digit candidate exists
  (`interval_wider`).
-/

namespace Spacecraft

namespace Decimal

open Binary64

/-- The number a decimal stands for. -/
def value (d : Decimal) : ℚ := d.digits * 10 ^ d.exp10

theorem normalize_go (d : Decimal) (fuel : ℕ) :
    value (normalize.go d fuel) = value d ∧
      (0 < d.digits → 0 < (normalize.go d fuel).digits) := by
  induction fuel generalizing d with
  | zero => exact ⟨rfl, id⟩
  | succ fuel ih =>
    unfold normalize.go
    split_ifs with h
    · simp only [Bool.and_eq_true, decide_eq_true_eq] at h
      obtain ⟨h0, h10⟩ := h
      obtain ⟨hv, hp⟩ := ih ⟨d.digits / 10, d.exp10 + 1⟩
      refine ⟨hv.trans ?_, fun _ => hp (by dsimp only; omega)⟩
      -- a trailing zero moves into the exponent
      obtain ⟨c, hc⟩ := Nat.dvd_of_mod_eq_zero h10
      simp only [value, hc, Nat.mul_div_cancel_left c (by norm_num : 0 < 10)]
      rw [zpow_add_one₀ (by norm_num)]
      push_cast
      ring
    · exact ⟨rfl, id⟩

theorem value_normalize (d : Decimal) : value (normalize d) = value d :=
  (normalize_go d _).1

theorem digits_normalize_pos {d : Decimal} (h : 0 < d.digits) : 0 < (normalize d).digits :=
  (normalize_go d _).2 h

/-- A power of an integer split into its positive and negative parts. -/
theorem zpow_eq_div (b : ℚ) (z : ℤ) : b ^ z = b ^ z.toNat / b ^ (-z).toNat := by
  rcases le_total 0 z with hz | hz
  · rw [show (-z).toNat = 0 by omega, pow_zero, div_one, ← zpow_natCast, Int.toNat_of_nonneg hz]
  · rw [show z.toNat = 0 by omega, pow_zero, ← zpow_natCast, Int.toNat_of_nonneg (by omega),
      zpow_neg, one_div, inv_inv]

theorem ratio_pos (a : ℕ) (e2 e10 : ℤ) : 0 < (ratio a e2 e10).2 := by
  simp [ratio, Nat.pow_eq]

theorem ratio_div (a : ℕ) (e2 e10 : ℤ) :
    ((ratio a e2 e10).1 : ℚ) / (ratio a e2 e10).2 = a * 2 ^ e2 * 10 ^ e10 := by
  rw [zpow_eq_div 2, zpow_eq_div 10]
  simp only [ratio, Nat.pow_eq]
  push_cast
  field_simp

/-- Comparing with a power of ten compares the value. -/
theorem cmpPow10_eq_lt (a : ℕ) (e2 k : ℤ) :
    cmpPow10 a e2 k = .lt ↔ (a : ℚ) * 2 ^ e2 < 10 ^ k := by
  unfold cmpPow10
  simp only
  rw [Nat.compare_eq_lt, ← Nat.cast_lt (α := ℚ), ← div_lt_one (by exact_mod_cast ratio_pos a e2 (-k)),
    ratio_div, zpow_neg, ← div_eq_mul_inv, div_lt_one (zpow_pos (by norm_num) k)]

/-! ## Rounded quotients -/

section Quotients

variable (num : ℕ) {den : ℕ}

theorem lt_ceilDiv (hden : 0 < den) : (num : ℚ) / den < ceilDiv num den true := by
  have hdq : (0 : ℚ) < den := by exact_mod_cast hden
  rw [ceilDiv, if_pos rfl, div_lt_iff₀ hdq]
  have : num < (num / den + 1) * den := by
    rw [Nat.add_mul, Nat.one_mul]
    exact Nat.lt_div_mul_add hden
  exact_mod_cast this

theorem le_ceilDiv (hden : 0 < den) : (num : ℚ) / den ≤ ceilDiv num den false := by
  have hdq : (0 : ℚ) < den := by exact_mod_cast hden
  rw [ceilDiv, if_neg (by simp), div_le_iff₀ hdq]
  have h1 := Nat.div_add_mod (num + den - 1) den
  have h2 := Nat.mod_lt (num + den - 1) hden
  rw [Nat.mul_comm] at h1
  have : num ≤ (num + den - 1) / den * den := by
    generalize (num + den - 1) / den * den = P at h1 ⊢
    omega
  exact_mod_cast this

theorem ceilDiv_le (hden : 0 < den) (strict : Bool) : ceilDiv num den strict ≤ num / den + 1 := by
  unfold ceilDiv
  split_ifs
  · exact le_rfl
  · calc (num + den - 1) / den ≤ (num + den) / den := Nat.div_le_div_right (by omega)
      _ = num / den + 1 := Nat.add_div_right num hden

theorem floorDiv_eq (den : ℕ) (strict : Bool) :
    floorDiv num den strict =
      if strict && num % den = 0 then ((num / den : ℕ) : ℤ) - 1 else ((num / den : ℕ) : ℤ) := by
  simp only [floorDiv, Int.natCast_div]

theorem floorDiv_lt (hden : 0 < den) : (floorDiv num den true : ℚ) < num / den := by
  have hdq : (0 : ℚ) < den := by exact_mod_cast hden
  have hle : ((num / den : ℕ) : ℚ) ≤ num / den := by
    rw [le_div_iff₀ hdq]
    exact_mod_cast Nat.div_mul_le_self num den
  rw [floorDiv_eq num]
  split_ifs with h
  · rw [Int.cast_sub, Int.cast_natCast, Int.cast_one]
    linarith
  · simp only [Bool.true_and, decide_eq_true_eq] at h
    rw [Int.cast_natCast, lt_div_iff₀ hdq]
    have h1 := Nat.div_add_mod num den
    have : num / den * den < num := by
      have := Nat.pos_of_ne_zero h
      nlinarith
    exact_mod_cast this

theorem floorDiv_le (hden : 0 < den) : (floorDiv num den false : ℚ) ≤ num / den := by
  have hdq : (0 : ℚ) < den := by exact_mod_cast hden
  rw [floorDiv_eq num, if_neg (by simp), Int.cast_natCast, le_div_iff₀ hdq]
  exact_mod_cast Nat.div_mul_le_self num den

/-- Every natural below the quotient is at most the rounded-down quotient. -/
theorem le_floorDiv (hden : 0 < den) {z : ℕ} (h : (z : ℚ) < num / den) (strict : Bool) :
    (z : ℤ) ≤ floorDiv num den strict := by
  have hdq : (0 : ℚ) < den := by exact_mod_cast hden
  rw [lt_div_iff₀ hdq] at h
  have hz : z * den < num := by exact_mod_cast h
  have hq : z ≤ num / den := (Nat.le_div_iff_mul_le hden).2 hz.le
  rw [floorDiv_eq num]
  split_ifs with hs
  · simp only [Bool.and_eq_true, decide_eq_true_eq] at hs
    have h1 := Nat.div_add_mod num den
    rw [hs.2, Nat.add_zero] at h1
    have : z < num / den := by
      by_contra hc
      have : num / den * den ≤ z * den := Nat.mul_le_mul_right _ (by omega)
      rw [Nat.mul_comm] at h1
      omega
    omega
  · exact_mod_cast hq

/-- The rounded-up lower end is at least `num / den`, and above it when the end is left out. -/
theorem ceilDiv_bound (hden : 0 < den) (closed : Bool) :
    if closed then (num : ℚ) / den ≤ ceilDiv num den (!closed)
    else (num : ℚ) / den < ceilDiv num den (!closed) := by
  cases closed
  · exact lt_ceilDiv num hden
  · exact le_ceilDiv num hden

/-- The rounded-down upper end is at most `num / den`, and below it when the end is left out. -/
theorem floorDiv_bound (hden : 0 < den) (closed : Bool) :
    if closed then (floorDiv num den (!closed) : ℚ) ≤ num / den
    else (floorDiv num den (!closed) : ℚ) < num / den := by
  cases closed
  · exact floorDiv_lt num hden
  · exact floorDiv_le num hden

end Quotients

/-! ## Candidates -/

/-- The digits kept between the rounded ends of the interval stay between them. -/
theorem clamp_between (dn : ℕ) {dl : ℕ} {dh : ℤ} (hle : (dl : ℤ) ≤ dh) :
    (dl : ℤ) ≤ ((if dn < dl then dl else if (dn : ℤ) > dh then dh.toNat else dn : ℕ) : ℤ) ∧
      ((if dn < dl then dl else if (dn : ℤ) > dh then dh.toNat else dn : ℕ) : ℤ) ≤ dh := by
  split_ifs <;> omega

/-- A grid point between the rounded ends of `A / t` and `B / t` lies, scaled by `t`, between
`A` and `B`. -/
theorem scaled_between {A B t dl dh d : ℚ} (ht : 0 < t) (closed : Bool)
    (hl : if closed then A / t ≤ dl else A / t < dl) (hh : if closed then dh ≤ B / t else dh < B / t)
    (hdl : dl ≤ d) (hdh : d ≤ dh) :
    if closed then A ≤ d * t ∧ d * t ≤ B else A < d * t ∧ d * t < B := by
  cases closed with
  | false =>
    simp only [Bool.false_eq_true, if_false, div_lt_iff₀ ht, lt_div_iff₀ ht] at hl hh ⊢
    constructor <;> nlinarith
  | true =>
    simp only [if_true, div_le_iff₀ ht, le_div_iff₀ ht] at hl hh ⊢
    constructor <;> nlinarith

/-- The decimal a digit count gives has positive digits and lies in the interval. -/
theorem candidate_spec {v lo hi : ℕ} {e2 k : ℤ} {closed : Bool} {n : ℕ} {dec : Decimal}
    (hlo : 0 < lo) (h : candidate v lo hi e2 closed k n = some dec) :
    0 < dec.digits ∧
      if closed then (lo : ℚ) * 2 ^ e2 ≤ dec.value ∧ dec.value ≤ hi * 2 ^ e2
      else (lo : ℚ) * 2 ^ e2 < dec.value ∧ dec.value < hi * 2 ^ e2 := by
  unfold candidate at h
  simp only at h
  generalize k - ↑n + 1 = j at h
  have hle : (ceilDiv (ratio lo e2 (-j)).1 (ratio lo e2 (-j)).2 (!closed) : ℤ) ≤
      floorDiv (ratio hi e2 (-j)).1 (ratio hi e2 (-j)).2 (!closed) := by
    by_contra hle
    rw [if_neg hle] at h
    cases h
  rw [if_pos hle, Option.some.injEq] at h
  subst h
  obtain ⟨hdl, hdh⟩ := clamp_between (roundHalfEven (ratio v e2 (-j)).1 (ratio v e2 (-j)).2) hle
  generalize (if (_ : ℕ) < (_ : ℕ) then (_ : ℕ) else (_ : ℕ) : ℕ) = d at hdl hdh ⊢
  rw [value_normalize]
  have h10 : (0 : ℚ) < 10 ^ j := zpow_pos (by norm_num) j
  have hA := ratio_div lo e2 (-j)
  have hB := ratio_div hi e2 (-j)
  rw [zpow_neg, ← div_eq_mul_inv] at hA hB
  have hb := scaled_between (d := (d : ℚ)) h10 closed
    (by rw [← hA]; exact ceilDiv_bound (ratio lo e2 (-j)).1 (ratio_pos lo e2 (-j)) closed)
    (by rw [← hB]; exact floorDiv_bound (ratio hi e2 (-j)).1 (ratio_pos hi e2 (-j)) closed)
    (by exact_mod_cast hdl) (by exact_mod_cast hdh)
  simp only [value]
  refine ⟨digits_normalize_pos ?_, hb⟩
  -- the digits are positive since the lower end is
  have hlo0 : (0 : ℚ) < lo * 2 ^ e2 := by
    have : (0 : ℚ) < lo := by exact_mod_cast hlo
    positivity
  have hd : (0 : ℚ) * 10 ^ j < d * 10 ^ j := by
    cases closed <;> linarith [hb.1]
  exact_mod_cast lt_of_mul_lt_mul_right hd h10.le

/-- Some decimal with `n` significant digits lies inside an interval that is wider than the
grid `10^(k - n + 1)` of those digits. -/
theorem candidate_isSome {v lo hi : ℕ} {e2 k : ℤ} {n : ℕ} (closed : Bool)
    (h : (lo : ℚ) * 2 ^ e2 + 10 ^ (k - n + 1) < hi * 2 ^ e2) :
    (candidate v lo hi e2 closed k n).isSome := by
  unfold candidate
  simp only
  generalize k - ↑n + 1 = j at h
  have h10 : (0 : ℚ) < 10 ^ j := zpow_pos (by norm_num) j
  have hA := ratio_div lo e2 (-j)
  have hB := ratio_div hi e2 (-j)
  rw [zpow_neg, ← div_eq_mul_inv] at hA hB
  have hwide : (lo : ℚ) * 2 ^ e2 / 10 ^ j + 1 < hi * 2 ^ e2 / 10 ^ j := by
    rw [div_add_one h10.ne', div_lt_div_iff_of_pos_right h10]
    linarith
  -- the lower end rounded up is still below the upper end
  have hdl : ((ceilDiv (ratio lo e2 (-j)).1 (ratio lo e2 (-j)).2 (!closed) : ℕ) : ℚ) ≤
      lo * 2 ^ e2 / 10 ^ j + 1 := by
    have h1 : ((ceilDiv (ratio lo e2 (-j)).1 (ratio lo e2 (-j)).2 (!closed) : ℕ) : ℚ) ≤
        (((ratio lo e2 (-j)).1 / (ratio lo e2 (-j)).2 : ℕ) : ℚ) + 1 := by
      exact_mod_cast ceilDiv_le (ratio lo e2 (-j)).1 (ratio_pos lo e2 (-j)) (!closed)
    have h2 : (((ratio lo e2 (-j)).1 / (ratio lo e2 (-j)).2 : ℕ) : ℚ) ≤ lo * 2 ^ e2 / 10 ^ j := by
      rw [← hA]
      exact Nat.cast_div_le
    linarith
  have hle := le_floorDiv (ratio hi e2 (-j)).1 (ratio_pos hi e2 (-j))
    (z := ceilDiv (ratio lo e2 (-j)).1 (ratio lo e2 (-j)).2 (!closed)) (by rw [hB]; linarith) (!closed)
  rw [if_pos hle]
  rfl

/-! ## The decimal exponent -/

/-- `78913 / 262144` lies just below `log₁₀ 2`, so its multiples never overshoot. -/
theorem ten_pow_le_two_pow {k l : ℕ} (h : 262144 * k ≤ 78913 * l) : 10 ^ k ≤ 2 ^ l := by
  have key : (10 : ℕ) ^ 78913 < 2 ^ 262144 := by decide +kernel
  rw [← Nat.pow_le_pow_iff_left (n := 262144) (by norm_num)]
  calc (10 ^ k) ^ 262144 = 10 ^ (262144 * k) := by rw [← pow_mul, mul_comm]
    _ ≤ 10 ^ (78913 * l) := Nat.pow_le_pow_right (by norm_num) h
    _ = (10 ^ 78913) ^ l := by rw [pow_mul]
    _ ≤ (2 ^ 262144) ^ l := Nat.pow_le_pow_left key.le l
    _ = (2 ^ l) ^ 262144 := by rw [← pow_mul, ← pow_mul, mul_comm]

/-- On the negative side the estimate undershoots by less than one for `l ≤ 262144`. -/
theorem two_pow_le_ten_pow {k l : ℕ} (hl : l ≤ 262144) (h : 78913 * l ≤ 262144 * k) :
    2 ^ l ≤ 10 ^ (k + 1) := by
  have key : (2 : ℕ) ^ 262144 < 10 ^ 78914 := by decide +kernel
  rw [← Nat.pow_le_pow_iff_left (n := 262144) (by norm_num)]
  calc (2 ^ l) ^ 262144 = (2 ^ 262144) ^ l := by rw [← pow_mul, ← pow_mul, mul_comm]
    _ ≤ (10 ^ 78914) ^ l := Nat.pow_le_pow_left key.le l
    _ = 10 ^ (78914 * l) := by rw [← pow_mul]
    _ ≤ 10 ^ (262144 * (k + 1)) := Nat.pow_le_pow_right (by norm_num) (by omega)
    _ = (10 ^ (k + 1)) ^ 262144 := by rw [← pow_mul, mul_comm]

/-- The first estimate of the decimal exponent, less one, is never too large. -/
theorem ten_zpow_estimate_le {l : ℤ} (hl : -262144 ≤ l) :
    (10 : ℚ) ^ (Int.fdiv (l * 78913) 262144 - 1) ≤ 2 ^ l := by
  rw [Int.fdiv_eq_ediv, if_pos (Or.inl (by norm_num)), sub_zero]
  have hk := Int.ediv_mul_le (l * 78913) (b := 262144) (by norm_num)
  generalize l * 78913 / 262144 = k0 at hk
  rcases le_total 0 l with h0 | h0
  · -- both exponents are natural: compare the powers directly
    obtain ⟨L, rfl⟩ := Int.eq_ofNat_of_zero_le h0
    rcases le_total 0 k0 with hk0 | hk0
    · obtain ⟨K, rfl⟩ := Int.eq_ofNat_of_zero_le hk0
      have hKL : (10 : ℚ) ^ K ≤ 2 ^ L := by
        exact_mod_cast ten_pow_le_two_pow (k := K) (l := L) (by omega)
      calc (10 : ℚ) ^ ((K : ℤ) - 1) ≤ 10 ^ (K : ℤ) := zpow_le_zpow_right₀ (by norm_num) (by omega)
        _ = 10 ^ K := zpow_natCast _ _
        _ ≤ 2 ^ L := hKL
        _ = 2 ^ (L : ℤ) := (zpow_natCast _ _).symm
    · calc (10 : ℚ) ^ (k0 - 1) ≤ 10 ^ (0 : ℤ) := zpow_le_zpow_right₀ (by norm_num) (by omega)
        _ = 1 := zpow_zero _
        _ ≤ 2 ^ (L : ℤ) := one_le_zpow₀ (by norm_num) (by omega)
  · -- both exponents are negative: compare the reciprocal powers
    obtain ⟨L, hL⟩ := Int.eq_ofNat_of_zero_le (neg_nonneg.2 h0)
    obtain ⟨K, hK⟩ := Int.eq_ofNat_of_zero_le (show 0 ≤ -k0 by omega)
    have hLK : (2 : ℚ) ^ L ≤ 10 ^ (K + 1) := by
      exact_mod_cast two_pow_le_ten_pow (k := K) (l := L) (by omega) (by omega)
    have hl' : l = -(L : ℤ) := by omega
    have hk' : k0 - 1 = -((K + 1 : ℕ) : ℤ) := by push_cast; omega
    rw [hl', hk', zpow_neg, zpow_neg, zpow_natCast, zpow_natCast]
    exact inv_anti₀ (by positivity) hLK

/-- A power of two at the binary exponent of `a` is at most `a`. -/
theorem two_zpow_log2_le {a : ℕ} (ha : 0 < a) (e2 : ℤ) :
    (2 : ℚ) ^ ((a.log2 : ℤ) + e2) ≤ a * 2 ^ e2 := by
  rw [zpow_add₀ two_ne_zero, zpow_natCast]
  have : (2 : ℚ) ^ a.log2 ≤ a := by exact_mod_cast Nat.log2_self_le ha.ne'
  exact mul_le_mul_of_nonneg_right this (two_zpow_pos e2).le

theorem le_of_cmpPow10_ne_lt {a : ℕ} {e2 k : ℤ} (h : cmpPow10 a e2 k ≠ .lt) :
    (10 : ℚ) ^ k ≤ a * 2 ^ e2 :=
  not_lt.1 (mt (cmpPow10_eq_lt a e2 k).2 h)

/-- A correction step of the exponent keeps it at most the logarithm. -/
theorem cmpPow10_step_le {a : ℕ} {e2 k : ℤ} (hk : (10 : ℚ) ^ k ≤ a * 2 ^ e2) :
    (10 : ℚ) ^ (if (cmpPow10 a e2 (k + 1) != .lt) = true then k + 1 else k) ≤ a * 2 ^ e2 := by
  split_ifs with h
  · exact le_of_cmpPow10_ne_lt (bne_iff_ne.1 h)
  · exact hk

/-- The decimal exponent found for `a · 2^e2` is at most its logarithm: `10^k ≤ a · 2^e2`. -/
theorem pow_log10Floor_le {a : ℕ} {e2 : ℤ} (ha : 0 < a) (hl : -262144 ≤ (a.log2 : ℤ) + e2) :
    (10 : ℚ) ^ log10Floor a e2 ≤ a * 2 ^ e2 := by
  have h0 := (ten_zpow_estimate_le hl).trans (two_zpow_log2_le ha e2)
  unfold log10Floor
  simp only
  refine cmpPow10_step_le (cmpPow10_step_le ?_)
  split_ifs with h
  · exact h0
  · exact le_of_cmpPow10_ne_lt (by simpa using h)

/-! ## The shortest digits -/

/-- The search over digit counts finds a decimal in the interval as soon as a seventeen-digit
one exists. -/
theorem search_spec {v lo hi : ℕ} {e2 k : ℤ} {closed : Bool} (hlo : 0 < lo)
    (h17 : (candidate v lo hi e2 closed k (16 + 1)).isSome) :
    ∃ dec, ((List.range 17).findSome? fun i => candidate v lo hi e2 closed k (i + 1)) = some dec ∧
      0 < dec.digits ∧
      if closed then (lo : ℚ) * 2 ^ e2 ≤ dec.value ∧ dec.value ≤ hi * 2 ^ e2
      else (lo : ℚ) * 2 ^ e2 < dec.value ∧ dec.value < hi * 2 ^ e2 := by
  have hne : ((List.range 17).findSome? fun i => candidate v lo hi e2 closed k (i + 1)) ≠ none := by
    rw [Ne, List.findSome?_eq_none_iff]
    intro hall
    rw [hall 16 (by simp)] at h17
    cases h17
  obtain ⟨dec, hdec⟩ := Option.ne_none_iff_exists'.1 hne
  obtain ⟨i, -, hi⟩ := List.exists_of_findSome?_eq_some hdec
  exact ⟨dec, hdec, candidate_spec hlo hi⟩

/-- Seventeen digits always fit: the rounding interval of `m · 2^q` is wider than the grid
`10^(k - 16)`, where `10^k ≤ m · 2^q < 2^53 · 2^q`. -/
theorem interval_wider {m : ℕ} {q k : ℤ} (hm : 0 < m) (hlt : m < 2 ^ 53)
    (hk : (10 : ℚ) ^ k ≤ m * 2 ^ q) :
    (((4 * m - lowGap m q : ℕ) : ℚ) * 2 ^ (q - 2) + 10 ^ (k - ((16 + 1 : ℕ) : ℤ) + 1) <
      ((4 * m + 2 : ℕ) : ℚ) * 2 ^ (q - 2)) := by
  have hgap : lowGap m q ≤ 2 := by unfold lowGap; split_ifs <;> omega
  have hm4 : lowGap m q ≤ 4 * m := by omega
  have hwidth : 4 * (m : ℚ) < (2 + lowGap m q) * 10 ^ 16 := by
    unfold lowGap
    split_ifs with h
    · rw [h.1]
      norm_num
    · have : (m : ℚ) < 2 ^ 53 := by exact_mod_cast hlt
      push_cast
      linarith
  have ht : (0 : ℚ) < 2 ^ (q - 2) := two_zpow_pos _
  have h16 : (10 : ℚ) ^ (k - ((16 + 1 : ℕ) : ℤ) + 1) * 10 ^ 16 = 10 ^ k := by
    rw [← zpow_natCast, ← zpow_add₀ (by norm_num)]
    congr 1
    push_cast
    ring
  -- the grid step times 10^16 is at most the value, which is below the interval's width
  have hX : (10 : ℚ) ^ (k - ((16 + 1 : ℕ) : ℤ) + 1) * 10 ^ 16 <
      (2 + lowGap m q) * 2 ^ (q - 2) * 10 ^ 16 := by
    calc (10 : ℚ) ^ (k - ((16 + 1 : ℕ) : ℤ) + 1) * 10 ^ 16 = 10 ^ k := h16
      _ ≤ m * 2 ^ q := hk
      _ = 4 * m * 2 ^ (q - 2) := by rw [quarter_eq]; ring
      _ < (2 + lowGap m q) * 10 ^ 16 * 2 ^ (q - 2) := mul_lt_mul_of_pos_right hwidth ht
      _ = (2 + lowGap m q) * 2 ^ (q - 2) * 10 ^ 16 := by ring
  have hX' := lt_of_mul_lt_mul_right hX (by positivity)
  rw [Nat.cast_sub hm4]
  push_cast at hX' ⊢
  linarith

/-- The shortest digits of `m · 2^q` are positive and lie in its rounding interval. -/
theorem shortestOf_spec {m : ℕ} {q : ℤ} (hm : 0 < m) (hlt : m < 2 ^ 53) (hq : -1074 ≤ q) :
    0 < (shortestOf m q).digits ∧ RoundsTo m q (shortestOf m q).value := by
  unfold shortestOf
  simp only
  have hg : (if (decide (m = Nat.pow 2 52) && decide (q > -1074)) = true then 1 else 2) =
      lowGap m q := by
    simp only [lowGap, Nat.pow_eq, Bool.and_eq_true, decide_eq_true_eq, gt_iff_lt]
  rw [hg]
  have hgap : lowGap m q ≤ 2 := by unfold lowGap; split_ifs <;> omega
  -- the decimal exponent of the value 4m · 2^(q-2) = m · 2^q
  have hk : (10 : ℚ) ^ log10Floor (4 * m) (q - 2) ≤ m * 2 ^ q := by
    have h := pow_log10Floor_le (show 0 < 4 * m by omega)
      (show -262144 ≤ ((4 * m).log2 : ℤ) + (q - 2) by omega)
    calc (10 : ℚ) ^ log10Floor (4 * m) (q - 2) ≤ ((4 * m : ℕ) : ℚ) * 2 ^ (q - 2) := h
      _ = m * 2 ^ q := by rw [quarter_eq]; push_cast; ring
  obtain ⟨dec, hdec, hpos, hb⟩ := search_spec (show 0 < 4 * m - lowGap m q by omega)
    (candidate_isSome _ (interval_wider hm hlt hk))
  rw [hdec, Option.getD_some]
  refine ⟨hpos, ?_⟩
  simpa only [RoundsTo, decide_eq_true_eq] using hb

/-- The shortest digits of a finite nonzero float are positive and lie in its rounding
interval, so a correctly rounded reader turns them back into the float. -/
theorem shortest_spec {x : Float} {d : Dyadic} (hx : decode x = some d) (hm : 0 < d.mant) :
    0 < (shortest x).digits ∧ RoundsTo d.mant d.exp (shortest x).value := by
  have hc := canonical_of_decode hx
  unfold shortest
  rw [hx]
  simp only [if_neg hm.ne']
  exact shortestOf_spec hm hc.mant_lt hc.exp_ge

end Decimal

end Spacecraft
