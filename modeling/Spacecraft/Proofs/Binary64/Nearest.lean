import Mathlib
import Spacecraft.Proofs.Binary64.Bits
import Spacecraft.Text.Shortest

/-!
# Reading a ratio back as the float it rounds to

`ofRatio` rounds `num / den` to binary64: it finds the binade of the ratio from the lengths of
the two naturals (`binade`), keeps it above the least exponent (`roundingExponent`), scales the
ratio to 53 bits there and rounds the quotient half to even, a carry out of 53 bits moving one
exponent up (`roundRatio_eq`).

The values that round to a finite float `m · 2^e` lie within half a step of it, the ends
included when `m` is even; at a power of two above the least exponent the step below is half
as wide, so the lower end is a quarter step away (`RoundsTo`, after the round-trip interval of
shortest decimal conversion). Every ratio in that interval is rounded to `m · 2^e` itself
(`roundRatio_eq_of_roundsTo`): at the float's own exponent the scaled ratio is within half a
step of `m`, except just below a power of two, where the binade is one lower and rounding
carries back up. So such a ratio is read as the float, its bits included
(`ofRatio_eq_of_roundsTo`).
-/

namespace Spacecraft.Binary64

/-! ## Rounding a quotient of naturals -/

/-- A quotient within half a step of `M` rounds to `M`; a tie is broken towards `M` only when
`M` is even. -/
theorem roundHalfEven_eq {n d M : ℕ} (hd : 0 < d)
    (hlo : (M : ℚ) - 1 / 2 ≤ n / d) (hhi : (n : ℚ) / d ≤ M + 1 / 2)
    (hodd : M % 2 = 1 → (M : ℚ) - 1 / 2 < n / d ∧ (n : ℚ) / d < M + 1 / 2) :
    Decimal.roundHalfEven n d = M := by
  have hdq : (0 : ℚ) < d := by exact_mod_cast hd
  -- the bounds as inequalities of naturals
  have lo : 2 * M * d ≤ 2 * n + d := by
    rw [le_div_iff₀ hdq] at hlo
    have : ((2 * M * d : ℕ) : ℚ) ≤ (2 * n + d : ℕ) := by push_cast; linarith
    exact_mod_cast this
  have hi : 2 * n ≤ 2 * M * d + d := by
    rw [div_le_iff₀ hdq] at hhi
    have : ((2 * n : ℕ) : ℚ) ≤ (2 * M * d + d : ℕ) := by push_cast; linarith
    exact_mod_cast this
  have odd : M % 2 = 1 → 2 * M * d < 2 * n + d ∧ 2 * n < 2 * M * d + d := by
    intro h
    obtain ⟨h1, h2⟩ := hodd h
    rw [lt_div_iff₀ hdq] at h1
    rw [div_lt_iff₀ hdq] at h2
    have e1 : ((2 * M * d : ℕ) : ℚ) < (2 * n + d : ℕ) := by push_cast; linarith
    have e2 : ((2 * n : ℕ) : ℚ) < (2 * M * d + d : ℕ) := by push_cast; linarith
    exact ⟨by exact_mod_cast e1, by exact_mod_cast e2⟩
  have hdm := Nat.div_add_mod n d
  have hr := Nat.mod_lt n hd
  set q := n / d
  set r := n % d
  -- the quotient is `M` or `M - 1`
  have hq1 : q ≤ M := by
    by_contra h
    have : (2 * M + 2) * d ≤ 2 * (d * q) := by nlinarith
    nlinarith
  have hq2 : M ≤ q + 1 := by
    by_contra h
    have : (2 * q + 4) * d ≤ 2 * M * d := by nlinarith
    nlinarith
  unfold Decimal.roundHalfEven
  simp only [Bool.or_eq_true, decide_eq_true_eq, Bool.and_eq_true]
  rcases Nat.eq_or_lt_of_le hq1 with hqM | hqM
  · -- at most half a step above `M`: no carry
    have h2r : 2 * r ≤ d := by rw [← hqM] at hi; nlinarith
    have hnot : ¬ (2 * r > d ∨ 2 * r = d ∧ q % 2 = 1) := by
      rintro (h | ⟨h, hq⟩)
      · omega
      · have := (odd (hqM ▸ hq)).2
        rw [← hqM] at this
        nlinarith
    rw [if_neg hnot]
    exact hqM
  · -- at least half a step below `M`: a carry
    have hqM' : q + 1 = M := by omega
    have h2r : d ≤ 2 * r := by rw [← hqM'] at lo; nlinarith
    have hup : 2 * r > d ∨ 2 * r = d ∧ q % 2 = 1 := by
      rcases Nat.eq_or_lt_of_le h2r with h | h
      · refine .inr ⟨h.symm, ?_⟩
        by_contra hq
        have := (odd (by omega)).1
        rw [← hqM'] at this
        nlinarith
      · exact .inl h
    rw [if_pos hup]
    exact hqM'

/-! ## The exponent of a ratio -/

/-- `num / den` divided by `2^s`, as a numerator and a denominator. -/
def scaled (num den : ℕ) (s : ℤ) : ℕ × ℕ :=
  if 0 ≤ s then (num, den * Nat.pow 2 s.toNat) else (num * Nat.pow 2 (-s).toNat, den)

theorem scaled_pos {num den : ℕ} (hden : 0 < den) (s : ℤ) : 0 < (scaled num den s).2 := by
  unfold scaled
  split_ifs <;> simp [Nat.pow_eq, hden]

theorem scaled_div (num den : ℕ) (s : ℤ) :
    ((scaled num den s).1 : ℚ) / (scaled num den s).2 = num / den / 2 ^ s := by
  unfold scaled
  split_ifs with hs
  · obtain ⟨k, rfl⟩ := Int.eq_ofNat_of_zero_le hs
    simp [Nat.pow_eq, div_div]
  · obtain ⟨k, hk⟩ := Int.exists_eq_neg_ofNat (le_of_lt (not_le.1 hs))
    subst hk
    simp [Nat.pow_eq, zpow_neg, div_eq_mul_inv, mul_right_comm]

/-- The exponent `E` with `2^52 ≤ num / den / 2^E < 2^53`: the binary exponent of the ratio
less 52, found from the lengths of the two naturals and one division. -/
def binade (num den : ℕ) : ℤ :=
  let t : ℤ := (num.log2 : ℤ) - (den.log2 : ℤ)
  let p := scaled num den (t - 52)
  if p.1 / p.2 < Nat.pow 2 52 then t - 53 else t - 52

/-- The exponent binary64 gives the ratio: its binade, or the least exponent below it. -/
def roundingExponent (num den : ℕ) : ℤ := max (binade num den) (-1074)

/-- Rounding a ratio scales it to 53 bits at its exponent and rounds half to even; a carry out
of the 53 bits moves to the next exponent. -/
theorem roundRatio_eq (num den : ℕ) :
    roundRatio num den =
      let e := roundingExponent num den
      let p := scaled num den e
      let q := Decimal.roundHalfEven p.1 p.2
      if q = 2 ^ 53 then (2 ^ 52, e + 1) else (q, e) := by
  have h52 : (52 : ℤ) - (↑num.log2 - ↑den.log2) = -(↑num.log2 - ↑den.log2 - 52) := by ring
  unfold roundRatio roundingExponent binade
  simp only [h52, ← scaled.eq_1]
  rcases scaled num den (↑num.log2 - ↑den.log2 - 52) with ⟨n1, d1⟩
  rcases scaled num den (max (if n1 / d1 < Nat.pow 2 52 then ↑num.log2 - ↑den.log2 - 53
    else ↑num.log2 - ↑den.log2 - 52) (-1074)) with ⟨n, d⟩
  rfl

section Binade

variable {num den : ℕ}

theorem two_zpow_pos (s : ℤ) : (0 : ℚ) < 2 ^ s := zpow_pos (by norm_num) s

/-- The ratio lies within a factor of two of `2^t`, `t` the difference of the lengths. -/
theorem ratio_bounds (hnum : 0 < num) (hden : 0 < den) :
    (2 : ℚ) ^ ((num.log2 : ℤ) - den.log2 - 1) < num / den ∧
      (num : ℚ) / den < 2 ^ ((num.log2 : ℤ) - den.log2 + 1) := by
  have hn1 : (2 : ℚ) ^ num.log2 ≤ num := by exact_mod_cast Nat.log2_self_le hnum.ne'
  have hn2 : (num : ℚ) < 2 ^ (num.log2 + 1) := by exact_mod_cast Nat.lt_log2_self
  have hd1 : (2 : ℚ) ^ den.log2 ≤ den := by exact_mod_cast Nat.log2_self_le hden.ne'
  have hd2 : (den : ℚ) < 2 ^ (den.log2 + 1) := by exact_mod_cast Nat.lt_log2_self
  have hdq : (0 : ℚ) < den := by exact_mod_cast hden
  have hz : ∀ k : ℕ, (2 : ℚ) ^ (k : ℤ) = 2 ^ k := fun k => zpow_natCast 2 k
  constructor
  · rw [lt_div_iff₀ hdq, zpow_sub₀ two_ne_zero, zpow_sub₀ two_ne_zero, hz, hz, zpow_one]
    calc 2 ^ num.log2 / 2 ^ den.log2 / 2 * (den : ℚ)
        < 2 ^ num.log2 / 2 ^ den.log2 / 2 * 2 ^ (den.log2 + 1) := by gcongr
      _ = 2 ^ num.log2 := by rw [pow_succ]; field_simp
      _ ≤ num := hn1
  · rw [div_lt_iff₀ hdq, zpow_add₀ two_ne_zero, zpow_sub₀ two_ne_zero, hz, hz, zpow_one]
    calc (num : ℚ) < 2 ^ (num.log2 + 1) := hn2
      _ = 2 ^ num.log2 / 2 ^ den.log2 * 2 * 2 ^ den.log2 := by rw [pow_succ]; field_simp
      _ ≤ 2 ^ num.log2 / 2 ^ den.log2 * 2 * den := by gcongr

/-- The binade holds the ratio in `[2^52, 2^53)` steps of its own size. -/
theorem binade_spec (hnum : 0 < num) (hden : 0 < den) :
    (2 : ℚ) ^ 52 ≤ num / den / 2 ^ binade num den ∧
      (num : ℚ) / den / 2 ^ binade num den < 2 ^ 53 := by
  obtain ⟨hlo, hhi⟩ := ratio_bounds hnum hden
  set t : ℤ := (num.log2 : ℤ) - den.log2
  set x : ℚ := num / den / 2 ^ (t - 52)
  have hpos : 0 < (scaled num den (t - 52)).2 := scaled_pos hden (t - 52)
  have hx : ((scaled num den (t - 52)).1 : ℚ) / (scaled num den (t - 52)).2 = x :=
    scaled_div num den (t - 52)
  have hp : (0 : ℚ) < 2 ^ (t - 52) := two_zpow_pos _
  -- the ratio at exponent `t - 52` lies in `(2^51, 2^53)`
  have e51 : (2 : ℚ) ^ 51 * 2 ^ (t - 52) = 2 ^ (t - 1) := by
    rw [← zpow_natCast, ← zpow_add₀ two_ne_zero]
    congr 1
    push_cast
    ring
  have e53 : (2 : ℚ) ^ 53 * 2 ^ (t - 52) = 2 ^ (t + 1) := by
    rw [← zpow_natCast, ← zpow_add₀ two_ne_zero]
    congr 1
    push_cast
    ring
  have hx1 : (2 : ℚ) ^ 51 < x := by
    rw [lt_div_iff₀ hp, e51]
    exact hlo
  have hx2 : x < 2 ^ 53 := by
    rw [div_lt_iff₀ hp, e53]
    exact hhi
  unfold binade
  simp only
  split_ifs with hsmall
  · -- below `2^52` at `t - 52`: one exponent lower doubles it into range
    change (scaled num den (t - 52)).1 / (scaled num den (t - 52)).2 < 2 ^ 52 at hsmall
    have hlt : x < 2 ^ 52 := by
      rw [← hx, div_lt_iff₀ (by exact_mod_cast hpos)]
      exact_mod_cast (Nat.div_lt_iff_lt_mul hpos).1 hsmall
    have hdouble : (num : ℚ) / den / 2 ^ (t - 53) = 2 * x := by
      rw [show t - 53 = t - 52 - 1 by ring, zpow_sub₀ two_ne_zero, zpow_one]
      simp only [x]
      field_simp
    rw [hdouble]
    constructor <;> linarith
  · change ¬ (scaled num den (t - 52)).1 / (scaled num den (t - 52)).2 < 2 ^ 52 at hsmall
    have hge : (2 : ℚ) ^ 52 ≤ x := by
      rw [← hx, le_div_iff₀ (by exact_mod_cast hpos)]
      exact_mod_cast (Nat.le_div_iff_mul_le hpos).1 (not_lt.1 hsmall)
    exact ⟨hge, hx2⟩

/-- A ratio below `2^53` steps of size `2^E` has its binade at most `E`. -/
theorem binade_le (hnum : 0 < num) (hden : 0 < den) {E : ℤ}
    (h : (num : ℚ) / den < 2 ^ 53 * 2 ^ E) : binade num den ≤ E := by
  by_contra hlt
  have hb := (binade_spec hnum hden).1
  rw [le_div_iff₀ (two_zpow_pos _)] at hb
  have : (2 : ℚ) ^ (E + 1) ≤ 2 ^ binade num den :=
    zpow_le_zpow_right₀ (by norm_num) (by omega)
  rw [zpow_add₀ two_ne_zero, zpow_one] at this
  nlinarith [two_zpow_pos E]

/-- A ratio of at least `2^52` steps of size `2^E` has its binade at least `E`. -/
theorem le_binade (hnum : 0 < num) (hden : 0 < den) {E : ℤ}
    (h : 2 ^ 52 * 2 ^ E ≤ (num : ℚ) / den) : E ≤ binade num den := by
  by_contra hlt
  have hb := (binade_spec hnum hden).2
  rw [div_lt_iff₀ (two_zpow_pos _)] at hb
  have : (2 : ℚ) ^ (binade num den + 1) ≤ 2 ^ E :=
    zpow_le_zpow_right₀ (by norm_num) (by omega)
  rw [zpow_add₀ two_ne_zero, zpow_one] at this
  nlinarith [two_zpow_pos (binade num den)]

end Binade

/-! ## The values that round to a float -/

/-- The quarter steps below `m · 2^e` that still round to it: two, except at a power of two
above the least exponent, where the next value down is only half a step away. -/
def lowGap (m : ℕ) (e : ℤ) : ℕ := if m = 2 ^ 52 ∧ -1074 < e then 1 else 2

/-- The rationals that round to `m · 2^e`, ties to even: from `4m - lowGap` to `4m + 2`
quarter steps `2^(e-2)`, the ends included exactly when `m` is even. -/
def RoundsTo (m : ℕ) (e : ℤ) (r : ℚ) : Prop :=
  let lo : ℚ := ((4 * m - lowGap m e : ℕ) : ℚ) * 2 ^ (e - 2)
  let hi : ℚ := ((4 * m + 2 : ℕ) : ℚ) * 2 ^ (e - 2)
  if m % 2 = 0 then lo ≤ r ∧ r ≤ hi else lo < r ∧ r < hi

section RoundsTo

variable {m : ℕ} {e : ℤ} {r : ℚ}

theorem quarter_eq (e : ℤ) : (2 : ℚ) ^ (e - 2) = 2 ^ e / 4 := by
  rw [zpow_sub₀ two_ne_zero]
  norm_num

/-- A value that rounds to `m · 2^e` lies within half a step of it, and strictly within it when
`m` is odd. -/
theorem RoundsTo.bounds (hm : 0 < m) (h : RoundsTo m e r) :
    ((m : ℚ) - 1 / 2) * 2 ^ e ≤ r ∧ r ≤ ((m : ℚ) + 1 / 2) * 2 ^ e ∧
      (m % 2 = 1 → ((m : ℚ) - 1 / 2) * 2 ^ e < r ∧ r < ((m : ℚ) + 1 / 2) * 2 ^ e) := by
  have hp := two_zpow_pos e
  have hg : lowGap m e ≤ 2 := by unfold lowGap; split_ifs <;> omega
  have hlo : ((m : ℚ) - 1 / 2) * 2 ^ e ≤ ((4 * m - lowGap m e : ℕ) : ℚ) * 2 ^ (e - 2) := by
    rw [quarter_eq, Nat.cast_sub (by omega)]
    push_cast
    have : (lowGap m e : ℚ) ≤ 2 := by exact_mod_cast hg
    nlinarith
  have hhi : ((4 * m + 2 : ℕ) : ℚ) * 2 ^ (e - 2) = ((m : ℚ) + 1 / 2) * 2 ^ e := by
    rw [quarter_eq]
    push_cast
    ring
  unfold RoundsTo at h
  simp only [hhi] at h
  split_ifs at h with hpar
  · exact ⟨hlo.trans h.1, h.2, fun h1 => by omega⟩
  · -- an odd mantissa is not a power of two, so its lower gap is a half step
    have hodd : lowGap m e = 2 := by
      unfold lowGap
      rw [if_neg]
      rintro ⟨rfl, -⟩
      norm_num at hpar
    have hlo' : ((4 * m - lowGap m e : ℕ) : ℚ) * 2 ^ (e - 2) = ((m : ℚ) - 1 / 2) * 2 ^ e := by
      rw [hodd, quarter_eq, Nat.cast_sub (by omega)]
      push_cast
      ring
    rw [hlo'] at h
    exact ⟨h.1.le, h.2.le, fun _ => h⟩

end RoundsTo

/-! ## Rounding a ratio in the rounding interval of a float -/

section Ratio

variable {num den m : ℕ} {e : ℤ}

/-- Rounding at the float's own exponent, the ratio scaled by it lies within half a step of
the mantissa, so it rounds to it. -/
theorem roundHalfEven_scaled (hden : 0 < den) (hm : 0 < m) (hr : RoundsTo m e (num / den)) :
    Decimal.roundHalfEven (scaled num den e).1 (scaled num den e).2 = m := by
  obtain ⟨hlo, hhi, hodd⟩ := hr.bounds hm
  have hp := two_zpow_pos e
  rw [← div_le_iff₀ hp] at hhi
  rw [← le_div_iff₀ hp] at hlo
  refine roundHalfEven_eq (scaled_pos hden e) ?_ ?_ ?_ <;> rw [scaled_div]
  · exact hlo
  · exact hhi
  · intro h
    obtain ⟨h1, h2⟩ := hodd h
    exact ⟨(lt_div_iff₀ hp).2 h1, (div_lt_iff₀ hp).2 h2⟩

theorem num_pos_of_roundsTo (hm : 0 < m) (hr : RoundsTo m e (num / den)) : 0 < num := by
  obtain ⟨hlo, -, -⟩ := hr.bounds hm
  have hmq : (1 : ℚ) ≤ m := by exact_mod_cast hm
  rcases Nat.eq_zero_or_pos num with h0 | h0
  · subst h0
    simp only [Nat.cast_zero, zero_div] at hlo
    nlinarith [two_zpow_pos e]
  · exact h0

/-- A ratio that rounds to a float's mantissa and exponent is rounded to exactly those. -/
theorem roundRatio_eq_of_roundsTo (hden : 0 < den) (hm : 0 < m) (hc : Canonical m e)
    (hr : RoundsTo m e (num / den)) : roundRatio num den = (m, e) := by
  obtain ⟨hlo, hhi, -⟩ := hr.bounds hm
  have hp := two_zpow_pos e
  have hmq : (1 : ℚ) ≤ m := by exact_mod_cast hm
  have hnum := num_pos_of_roundsTo hm hr
  have hm53 : (m : ℚ) + 1 ≤ 2 ^ 53 := by exact_mod_cast Nat.succ_le_of_lt hc.mant_lt
  -- the ratio is below `2^53` steps, so its binade is at most `e`
  have hb_le : binade num den ≤ e := binade_le hnum hden (by nlinarith)
  rw [roundRatio_eq]
  simp only
  by_cases hsame : 2 ^ 52 * 2 ^ e ≤ (num : ℚ) / den ∨ e = -1074
  · -- the ratio keeps the float's exponent
    have he : roundingExponent num den = e := by
      unfold roundingExponent
      rcases hsame with h | h
      · have := le_binade hnum hden h
        have := hc.exp_ge
        omega
      · have := hc.exp_ge
        omega
    rw [he, roundHalfEven_scaled hden hm hr, if_neg (by have := hc.mant_lt; omega)]
  · -- just below a power of two: one exponent lower, rounding carries back up
    rw [not_or, not_le] at hsame
    obtain ⟨hsmall, hne⟩ := hsame
    have hge := hc.exp_ge
    have hm52 : m = 2 ^ 52 := by
      have hn := hc.normal
      have : (m : ℚ) - 1 / 2 < 2 ^ 52 := by nlinarith
      have : m < 2 ^ 52 + 1 := by exact_mod_cast (by linarith : (m : ℚ) < 2 ^ 52 + 1)
      omega
    subst hm52
    -- the lower end is a quarter step below the power of two
    have hgap : lowGap (2 ^ 52) e = 1 := by
      unfold lowGap
      rw [if_pos ⟨rfl, by omega⟩]
    have hlow : (2 ^ 53 - 1 / 2 : ℚ) * 2 ^ (e - 1) ≤ num / den := by
      have h := hr
      unfold RoundsTo at h
      rw [if_pos (by norm_num), hgap] at h
      have hq : (2 : ℚ) ^ (e - 1) = 2 * 2 ^ (e - 2) := by
        rw [show e - 1 = e - 2 + 1 by ring, zpow_add₀ two_ne_zero, zpow_one, mul_comm]
      rw [hq]
      convert h.1 using 1
      norm_num
      ring
    have hp1 := two_zpow_pos (e - 1)
    have hhalf : (2 : ℚ) ^ e = 2 * 2 ^ (e - 1) := by
      rw [show e = e - 1 + 1 by ring, zpow_add₀ two_ne_zero, zpow_one, mul_comm]
      simp
    have hbin : binade num den = e - 1 := by
      have h1 : binade num den ≤ e - 1 := binade_le hnum hden (by rw [hhalf] at hsmall; linarith)
      have h2 : e - 1 ≤ binade num den := le_binade hnum hden (by nlinarith)
      omega
    have he : roundingExponent num den = e - 1 := by
      unfold roundingExponent
      omega
    have hq : Decimal.roundHalfEven (scaled num den (e - 1)).1 (scaled num den (e - 1)).2 =
        2 ^ 53 := by
      refine roundHalfEven_eq (scaled_pos hden _) ?_ ?_ ?_ <;> rw [scaled_div]
      · rw [le_div_iff₀ hp1]
        push_cast
        exact hlow
      · rw [div_le_iff₀ hp1]
        push_cast
        rw [hhalf] at hsmall
        nlinarith
      · intro h
        norm_num at h
    rw [he, hq, if_pos rfl, sub_add_cancel]

/-- A ratio that rounds to a finite nonzero float is read as that float, with its sign. -/
theorem ofRatio_eq_of_roundsTo {x : Float} {d : Dyadic} (hx : decode x = some d)
    (hm : 0 < d.mant) (hden : 0 < den) (hr : RoundsTo d.mant d.exp (num / den)) :
    ofRatio d.neg num den = x := by
  have hc := canonical_of_decode hx
  have hnum := num_pos_of_roundsTo hm hr
  unfold ofRatio
  rw [if_neg (by simp [hnum.ne', hden.ne']), roundRatio_eq_of_roundsTo hden hm hc hr]
  -- the bits stay below those of infinity, since the exponent is at most 971
  have hbits : ¬ (d.exp + 1074).toNat * Nat.pow 2 52 + d.mant ≥ infBits := by
    have he := hc.exp_le
    have hlt := hc.mant_lt
    have : (d.exp + 1074).toNat ≤ 2045 := by omega
    simp only [infBits, Nat.pow_eq, ge_iff_le, not_le]
    omega
  simp only
  rw [if_neg hbits]
  exact ofBitsNat_decode hx

end Ratio

end Spacecraft.Binary64
