import Mathlib

/-!
# Rounding onto the binary64 grid

`Float` arithmetic is modelled in the logic: an operation unpacks its operands into a sign, a
mantissa and an exponent, computes the exact result, rounds it with `UnpackedFloat.round` and
packs it back into 64 bits. This module describes that rounding without its bit-level
machinery.

Values are measured in `units`, multiples of the least subnormal `2⁻¹⁰⁷⁴`, so that every finite
binary64 value is a whole number. The grid at exponent `T` has spacing `grid T`; a value that
binary64 can hold lies on the grid of its own exponent (`OnGrid`). Rounding a value `U` first
finds the exponent `T` binary64 gives it and the quotient `q` of `U` by the grid spacing there
(`Brackets`), then returns `q` or `q + 1` steps. From this alone follows what the arithmetic
proofs use: rounding is faithful, that is, no value on the grid lies strictly between a value
and its rounding (`round_units`). Packing a result on the grid and unpacking it again gives
it back, or an infinity of its sign when its exponent is beyond the largest one
(`unpack_pack_onGrid`).
-/

namespace Spacecraft.Binary64

open Float.Model UnpackedFloat



/-- Shifting a mantissa `k` places to the right keeps `m / 2^k` and records whether a bit
was lost. -/
theorem repeat_shift (m k : Nat) :
    (Nat.repeat ExtendedMantissa.shiftRightOne k ⟨m, false, false⟩).mantissa = m / 2 ^ k ∧
      ((Nat.repeat ExtendedMantissa.shiftRightOne k ⟨m, false, false⟩).roundBit = false ∧
        (Nat.repeat ExtendedMantissa.shiftRightOne k ⟨m, false, false⟩).stickyBit = false ↔
          m % 2 ^ k = 0) := by
  induction k with
  | zero => simp [Nat.repeat, Nat.mod_one]
  | succ k ih =>
    rw [Nat.repeat]
    generalize Nat.repeat ExtendedMantissa.shiftRightOne k ⟨m, false, false⟩ = em at ih
    obtain ⟨hm, hx⟩ := ih
    have hmod : m % 2 ^ (k + 1) = m % 2 ^ k + 2 ^ k * (m / 2 ^ k % 2) := by
      rw [Nat.pow_succ, Nat.mod_mul]
    have hpos : 0 < 2 ^ k := Nat.two_pow_pos k
    refine ⟨by simp [ExtendedMantissa.shiftRightOne, hm, Nat.div_div_eq_div_mul, Nat.pow_succ], ?_⟩
    simp only [ExtendedMantissa.shiftRightOne, hm, bne_eq_false_iff_eq,
      Bool.or_eq_false_iff, hmod]
    constructor
    · rintro ⟨h1, h2, h3⟩
      rw [hx.1 ⟨h2, h3⟩, h1, Nat.mul_zero]
    · intro h
      have h5 : m % 2 ^ k = 0 := by omega
      have h6 : m / 2 ^ k % 2 = 0 := by
        rw [h5, Nat.zero_add] at h
        rcases Nat.mul_eq_zero.1 h with h6 | h6
        · omega
        · exact h6
      exact ⟨h6, hx.2 h5⟩

theorem shift_exact (m k : Nat) :
    ExtendedMantissa.ofMantissaAndAccuracy m .exact >>> k =
      Nat.repeat ExtendedMantissa.shiftRightOne k ⟨m, false, false⟩ := rfl

/-- Rounding the mantissa shifted `k` places gives its quotient by `2^k` or one more, and
exactly the quotient when nothing was lost. -/
theorem rounded_shift (m k : Nat) :
    m / 2 ^ k ≤ (ExtendedMantissa.ofMantissaAndAccuracy m .exact >>> k).roundedMantissa ∧
      (ExtendedMantissa.ofMantissaAndAccuracy m .exact >>> k).roundedMantissa ≤ m / 2 ^ k + 1 ∧
      (m % 2 ^ k = 0 →
        (ExtendedMantissa.ofMantissaAndAccuracy m .exact >>> k).roundedMantissa = m / 2 ^ k) := by
  rw [shift_exact]
  obtain ⟨hm, hx⟩ := repeat_shift m k
  generalize Nat.repeat ExtendedMantissa.shiftRightOne k ⟨m, false, false⟩ = em at hm hx
  obtain ⟨q, rb, sb⟩ := em
  simp only at hm hx
  subst hm
  refine ⟨?_, ?_, ?_⟩
  · cases rb <;> cases sb <;> simp [ExtendedMantissa.roundedMantissa, ExtendedMantissa.accuracy,
      Accuracy.roundToNearestEven]
  · cases rb <;> cases sb <;> simp [ExtendedMantissa.roundedMantissa, ExtendedMantissa.accuracy,
      Accuracy.roundToNearestEven]
    omega
  · intro h
    obtain ⟨rfl, rfl⟩ := hx.2 h
    rfl

theorem log2_mul_pow {m : Nat} (hm : 0 < m) (j : Nat) : (m * 2 ^ j).log2 = m.log2 + j := by
  have h1 := Nat.log2_self_le (Nat.ne_of_gt hm)
  have h2 := @Nat.lt_log2_self m
  rw [Nat.log2_eq_iff (by positivity)]
  constructor
  · rw [pow_add]; exact Nat.mul_le_mul_right _ h1
  · rw [show m.log2 + j + 1 = m.log2 + 1 + j by omega, pow_add]
    exact Nat.mul_lt_mul_of_pos_right h2 (by positivity)


/-- The spacing of the binary64 grid at exponent `T`, in units of `2⁻¹⁰⁷⁴`. -/
def grid (T : Int) : Nat := 2 ^ (T + 1074).toNat

/-- The value of a mantissa at an exponent, in units of the least subnormal `2⁻¹⁰⁷⁴`. -/
def units (m : Nat) (e : Int) : Nat := m * grid e

/-- A mantissa and exponent that binary64 can hold, the exponent range apart: at most 53
bits, and a full 53 unless the exponent is the least one. -/
structure OnGrid (m : Nat) (e : Int) : Prop where
  mant_lt : m < 2 ^ 53
  exp_ge : -1074 ≤ e
  normal : 2 ^ 52 ≤ m ∨ e = -1074

/-- `q` is the quotient of `U` by the grid spacing at `T`, and `T` is the exponent binary64
gives `U`: the quotient has 53 bits unless `T` is the least exponent. -/
structure Brackets (U : Nat) (T : Int) (q : Nat) : Prop where
  mant_lt : q < 2 ^ 53
  exp_ge : -1074 ≤ T
  normal : 2 ^ 52 ≤ q ∨ T = -1074
  lower : q * grid T ≤ U
  upper : U < (q + 1) * grid T

theorem targetExponent_binary64 (t : Int) :
    Format.binary64.targetExponent t = max (t - 53) (-1074) := rfl

/-- The last shift of a rounding leaves a mantissa of at most 53 bits in place. -/
theorem final_shift_of_lt {r : Nat} (hr : r < 2 ^ 53) {T : Int} (hT : -1074 ≤ T) :
    shiftToTargetExponent .binary64 r T .exact = (⟨r, false, false⟩, T) := by
  have hl : r.log2 < 53 := by
    rcases Nat.eq_zero_or_pos r with rfl | hr0
    · decide
    · exact (Nat.log2_lt (Nat.ne_of_gt hr0)).2 hr
  have hk : (Format.binary64.targetExponent (totalExponent r T) - T).toNat = 0 := by
    rw [targetExponent_binary64, totalExponent]; omega
  simp only [shiftToTargetExponent, shiftToExponent, hk, Int.natCast_zero, Int.add_zero]
  rfl

/-- A rounding that carried into a 54th bit is shifted once more. -/
theorem final_shift_top {T : Int} (hT : -1074 ≤ T) :
    shiftToTargetExponent .binary64 (2 ^ 53) T .exact = (⟨2 ^ 52, false, false⟩, T + 1) := by
  have hl : (2 ^ 53 : Nat).log2 = 53 := Nat.log2_two_pow
  have hk : (Format.binary64.targetExponent (totalExponent (2 ^ 53) T) - T).toNat = 1 := by
    rw [targetExponent_binary64, totalExponent, hl]; omega
  simp only [shiftToTargetExponent, shiftToExponent, hk]
  rfl


theorem first_shift (M : Nat) (E : Int) :
    shiftToTargetExponent .binary64 M E .exact =
      (ExtendedMantissa.ofMantissaAndAccuracy M .exact >>>
          (Format.binary64.targetExponent (totalExponent M E) - E).toNat,
        E + ((Format.binary64.targetExponent (totalExponent M E) - E).toNat : Int)) := rfl

theorem grid_pos (e : Int) : 0 < grid e := Nat.two_pow_pos _

theorem grid_add (e : Int) (k : Nat) (he : -1074 ≤ e) : grid (e + k) = grid e * 2 ^ k := by
  unfold grid
  rw [← pow_add]
  congr 1
  omega

/-- The first shift of a rounding brackets the value between two neighbours of the grid at
the target exponent. -/
theorem brackets_of_target {M : Nat} (hM : 0 < M) {E T : Int} (hE : -1074 ≤ E)
    (hT : Format.binary64.targetExponent (totalExponent M E) = T) (hET : E ≤ T) :
    Brackets (units M E) T (M / 2 ^ (T - E).toNat) := by
  set k := (T - E).toNat with hk
  have hG : grid T = grid E * 2 ^ k := by rw [← grid_add E k hE]; congr 1; omega
  rw [targetExponent_binary64, totalExponent] at hT
  have hL := Nat.log2_self_le (Nat.ne_of_gt hM)
  refine ⟨?_, by omega, ?_, ?_, ?_⟩
  · rw [Nat.div_lt_iff_lt_mul (by positivity), ← pow_add]
    calc M < 2 ^ (M.log2 + 1) := Nat.lt_log2_self
      _ ≤ 2 ^ (53 + k) := Nat.pow_le_pow_right (by norm_num) (by omega)
  · by_cases h : T = -1074
    · exact Or.inr h
    · left
      have hk' : M.log2 = 52 + k := by omega
      rw [Nat.le_div_iff_mul_le (by positivity), ← pow_add, ← hk']
      exact hL
  · rw [units, hG, Nat.mul_comm (grid E), ← Nat.mul_assoc]
    exact Nat.mul_le_mul_right _ (Nat.div_mul_le_self M _)
  · rw [units, hG, Nat.mul_comm (grid E), ← Nat.mul_assoc]
    refine Nat.mul_lt_mul_of_pos_right ?_ (grid_pos E)
    rw [Nat.mul_comm]
    exact Nat.lt_mul_div_succ M (by positivity)


/-- Rounding at the target exponent: the result is on the grid and is the lower or the upper
neighbour of the value, the value itself when it lies on the grid. -/
theorem roundWithAccuracy_spec (s : Sign) {M : Nat} (hM : 0 < M) {E T : Int} (hE : -1074 ≤ E)
    (hT : Format.binary64.targetExponent (totalExponent M E) = T) (hET : E ≤ T) :
    ∃ r e hr, roundWithAccuracy .binary64 s M E .exact = .finite s r e hr ∧ OnGrid r e ∧
      ∃ q, Brackets (units M E) T q ∧ (units r e = q * grid T ∨ units r e = (q + 1) * grid T) ∧
        (units M E = q * grid T → units r e = units M E) := by
  have hb := brackets_of_target hM hE hT hET
  have hs : shiftToTargetExponent .binary64 M E .exact =
      (ExtendedMantissa.ofMantissaAndAccuracy M .exact >>> (T - E).toNat, T) := by
    rw [first_shift, hT]; congr 1; omega
  obtain ⟨h1, h2, h3⟩ := rounded_shift M (T - E).toNat
  unfold roundWithAccuracy
  rw [hs]
  simp only
  generalize hk : (T - E).toNat = k at hb h1 h2 h3
  generalize (ExtendedMantissa.ofMantissaAndAccuracy M .exact >>> k).roundedMantissa = r at h1 h2 h3 ⊢
  have hG : grid T = grid E * 2 ^ k := by rw [← grid_add E k hE]; congr 1; omega
  have hq0 : 0 < M / 2 ^ k := by
    rcases hb.normal with h | h
    · exact lt_of_lt_of_le (Nat.two_pow_pos 52) h
    · have : k = 0 := by omega
      rw [this, Nat.pow_zero, Nat.div_one]; exact hM
  have hexact : units M E = M / 2 ^ k * grid T → r = M / 2 ^ k := by
    intro h
    apply h3
    rw [units, hG, Nat.mul_comm (grid E), ← Nat.mul_assoc] at h
    rw [Nat.eq_of_mul_eq_mul_right (grid_pos E) h]
    exact Nat.mul_mod_left _ _
  rcases Nat.lt_or_ge r (2 ^ 53) with hlt | hge
  · -- no carry: the rounded mantissa stays at the target exponent
    rw [final_shift_of_lt hlt hb.exp_ge]
    have hr0 : r ≠ 0 := by omega
    refine ⟨r, T, Nat.pos_of_ne_zero hr0, dif_neg hr0, ⟨hlt, hb.exp_ge, ?_⟩, M / 2 ^ k, hb, ?_, ?_⟩
    · rcases hb.normal with h | h
      · exact Or.inl (by omega)
      · exact Or.inr h
    · rcases (show r = M / 2 ^ k ∨ r = M / 2 ^ k + 1 by omega) with h | h
      · exact Or.inl (by rw [units, h])
      · exact Or.inr (by rw [units, h])
    · intro h
      rw [units, hexact h, h]
  · -- the rounding carried into a 54th bit: one more shift, exactly
    have hr53 : r = 2 ^ 53 := by have := hb.mant_lt; omega
    rw [hr53, final_shift_top hb.exp_ge]
    refine ⟨2 ^ 52, T + 1, Nat.two_pow_pos 52, dif_neg (Nat.ne_of_gt (Nat.two_pow_pos 52)),
      ⟨by norm_num, by omega, Or.inl le_rfl⟩, M / 2 ^ k, hb, Or.inr ?_, ?_⟩
    · have hq : M / 2 ^ k + 1 = 2 ^ 53 := by have := hb.mant_lt; omega
      have h1 : grid (T + 1) = grid T * 2 ^ 1 := grid_add T 1 hb.exp_ge
      rw [units, hq, h1]
      ring
    · intro h
      have := hb.mant_lt
      have := hexact h
      omega

theorem units_shift (M j : Nat) (E : Int) (h : -1074 ≤ E - j) :
    units (M * 2 ^ j) (E - j) = units M E := by
  have : grid E = grid (E - j) * 2 ^ j := by rw [← grid_add (E - j) j h]; congr 1; omega
  rw [units, units, this]
  ring

/-- Rounding a finite value at or above the least exponent: the result is on the grid and is
the lower or the upper neighbour of the value on the grid of its target exponent, the value
itself when it lies on that grid. -/
theorem round_spec (s : Sign) {M : Nat} (hM : 0 < M) {E : Int} (hE : -1074 ≤ E) :
    ∃ r e hr, UnpackedFloat.round .binary64 s M E = .finite s r e hr ∧ OnGrid r e ∧
      ∃ T q, Brackets (units M E) T q ∧
        (units r e = q * grid T ∨ units r e = (q + 1) * grid T) ∧
        (units M E = q * grid T → units r e = units M E) := by
  set T := Format.binary64.targetExponent (totalExponent M E) with hT
  set j := (E - T).toNat with hj
  have hT' : T = max (M.log2 + 1 + E - 53) (-1074) := rfl
  have hround : UnpackedFloat.round .binary64 s M E = roundWithAccuracy .binary64 s (M * 2 ^ j) (E - j) .exact := by
    simp only [UnpackedFloat.round, decreaseExponent, Nat.shiftLeft_eq]; rfl
  have hE' : -1074 ≤ E - j := by omega
  have htot : totalExponent (M * 2 ^ j) (E - j) = totalExponent M E := by
    rw [totalExponent, totalExponent, log2_mul_pow hM]; push_cast; ring
  obtain ⟨r, e, hr, heq, hg, q, hb, hv, hx⟩ := roundWithAccuracy_spec s (Nat.mul_pos hM (Nat.two_pow_pos j))
    hE' (by rw [htot]) (by omega)
  rw [units_shift M j E hE'] at hb hx
  exact ⟨r, e, hr, hround.trans heq, hg, T, q, hb, hv, hx⟩


/-- A value on the grid below exponent `T` is below the least 53-bit mantissa at `T`. -/
theorem units_lt_of_exp_lt {m : Nat} {e T : Int} (hc : OnGrid m e) (h : e < T) :
    units m e < 2 ^ 52 * grid T := by
  have hG : grid T = grid e * 2 ^ (T - e).toNat := by
    rw [← grid_add e _ hc.exp_ge]; congr 1; omega
  have hk : 2 ^ 1 ≤ 2 ^ (T - e).toNat := Nat.pow_le_pow_right (by norm_num) (by omega)
  calc units m e < 2 ^ 53 * grid e := Nat.mul_lt_mul_of_pos_right hc.mant_lt (grid_pos e)
    _ = 2 ^ 52 * (grid e * 2 ^ 1) := by ring
    _ ≤ 2 ^ 52 * grid T := by rw [hG]; exact Nat.mul_le_mul_left _ (Nat.mul_le_mul_left _ hk)

/-- A value on the grid at or above exponent `T` is a whole number of grid steps at `T`. -/
theorem units_eq_of_exp_ge {m : Nat} {e T : Int} (hT : -1074 ≤ T) (h : T ≤ e) :
    units m e = m * 2 ^ (e - T).toNat * grid T := by
  have hG : grid e = grid T * 2 ^ (e - T).toNat := by
    rw [← grid_add T _ hT]; congr 1; omega
  rw [units, hG]
  ring

/-- Below the value, no grid value passes the lower neighbour. -/
theorem Brackets.le_lower {U q m : Nat} {T e : Int} (hb : Brackets U T q) (hc : OnGrid m e)
    (h : units m e ≤ U) : units m e ≤ q * grid T := by
  by_cases hTe : T ≤ e
  · rw [units_eq_of_exp_ge hb.exp_ge hTe] at h ⊢
    have : m * 2 ^ (e - T).toNat < q + 1 :=
      Nat.lt_of_mul_lt_mul_right (lt_of_le_of_lt h hb.upper)
    exact Nat.mul_le_mul_right _ (by omega)
  · have hq : 2 ^ 52 ≤ q := hb.normal.resolve_right (by have := hc.exp_ge; omega)
    exact le_of_lt (lt_of_lt_of_le (units_lt_of_exp_lt hc (by omega))
      (Nat.mul_le_mul_right _ hq))

/-- Above a value off the grid, no grid value comes before the upper neighbour. -/
theorem Brackets.upper_le {U q m : Nat} {T e : Int} (hb : Brackets U T q) (hc : OnGrid m e)
    (h : U ≤ units m e) (hne : q * grid T ≠ U) : (q + 1) * grid T ≤ units m e := by
  have hlt : q * grid T < U := lt_of_le_of_ne hb.lower hne
  by_cases hTe : T ≤ e
  · rw [units_eq_of_exp_ge hb.exp_ge hTe] at h ⊢
    have : q < m * 2 ^ (e - T).toNat :=
      Nat.lt_of_mul_lt_mul_right (lt_of_lt_of_le hlt h)
    exact Nat.mul_le_mul_right _ (by omega)
  · have hq : 2 ^ 52 ≤ q := hb.normal.resolve_right (by have := hc.exp_ge; omega)
    have := units_lt_of_exp_lt hc (by omega : e < T)
    have := Nat.mul_le_mul_right (grid T) hq
    omega

/-- Rounding is faithful on the grid: every grid value at most the value is at most the
result, and every grid value at least the value is at least the result. -/
theorem round_units (s : Sign) {M : Nat} (hM : 0 < M) {E : Int} (hE : -1074 ≤ E) :
    ∃ r e hr, UnpackedFloat.round .binary64 s M E = .finite s r e hr ∧ OnGrid r e ∧
      (∀ m e', OnGrid m e' → units m e' ≤ units M E → units m e' ≤ units r e) ∧
      (∀ m e', OnGrid m e' → units M E ≤ units m e' → units r e ≤ units m e') := by
  obtain ⟨r, e, hr, heq, hg, T, q, hb, hv, hx⟩ := round_spec s hM hE
  refine ⟨r, e, hr, heq, hg, fun m e' hc h => ?_, fun m e' hc h => ?_⟩
  · have := hb.le_lower hc h
    rcases hv with hv | hv <;> rw [hv]
    · exact this
    · exact le_trans this (Nat.mul_le_mul_right _ (Nat.le_succ q))
  · by_cases hne : q * grid T = units M E
    · rw [hx hne.symm]; exact h
    · have := hb.upper_le hc h hne
      rcases hv with hv | hv <;> rw [hv]
      · exact le_trans (Nat.mul_le_mul_right _ (Nat.le_succ q)) this
      · exact this


theorem implicit_bit (v : BitVec 52) : (1#1 ++ v).toNat = 2 ^ 52 + v.toNat := by
  rw [BitVec.toNat_append, ← Nat.shiftLeft_add_eq_or_of_lt v.isLt]
  simp [Nat.shiftLeft_eq]

theorem unpack_packedInfinity (s : Sign) : unpack .binary64 (packedInfinity .binary64 s) = .infinity s := by
  unfold UnpackedFloat.unpack packedInfinity
  simp

theorem unpack_normal (s : Sign) {b : Nat} (h1 : 1 ≤ b) (h2 : b ≤ 2046) (m : Nat) (hm) :
    unpack .binary64 (packComponents .binary64 s (BitVec.ofNat 11 b) (BitVec.ofNat 52 m)) =
      .finite s (2 ^ 52 + m % 2 ^ 52) (b - 1075) hm := by
  unfold UnpackedFloat.unpack
  simp only [unpackMantissa_packComponents, unpackExponent_packComponents, unpackSign_packComponents, Sign.ofBitVec_toBitVec]
  have hb : (BitVec.ofNat 11 b).toNat = b := by simp; omega
  rw [if_neg, if_neg]
  · simp only [implicit_bit, hb, BitVec.toNat_ofNat]
    congr 1
  · intro h; have := congrArg BitVec.toNat h; simp at this; omega
  · intro h; have := congrArg BitVec.toNat h; simp at this; omega

theorem unpack_subnormal (s : Sign) {m : Nat} (h1 : 0 < m) (h2 : m < 2 ^ 52) :
    unpack .binary64 (packComponents .binary64 s 0#11 (BitVec.ofNat 52 m)) =
      .finite s m (-1074) h1 := by
  unfold UnpackedFloat.unpack
  simp only [unpackMantissa_packComponents, unpackExponent_packComponents, unpackSign_packComponents, Sign.ofBitVec_toBitVec]
  have hm : BitVec.ofNat 52 m ≠ 0#52 := by
    intro h; have := congrArg BitVec.toNat h; simp at this; omega
  simp [hm]
  exact ⟨h2, by decide⟩

theorem unpack_pack_onGrid (s : Sign) {m : Nat} {e : Int} (hm : 0 < m) (hg : OnGrid m e) :
    unpack .binary64 (pack .binary64 (.finite s m e hm)) =
      if e ≤ 971 then .finite s m e hm else .infinity s := by
  have hB : (e + (Format.binary64.exponentBias : Int) + (52 : Nat)).toNat = (e + 1075).toNat := by
    have : Format.binary64.exponentBias = 1023 := rfl
    rw [this]; congr 1; omega
  have hl : m.log2 < 53 := (Nat.log2_lt (Nat.ne_of_gt hm)).2 hg.mant_lt
  have he := hg.exp_ge
  unfold UnpackedFloat.pack
  simp only [hB, Format.mantissaBits]
  split_ifs with h1 h2 h3
  · omega
  · exact unpack_packedInfinity s
  · rw [unpack_normal s (by omega) (by omega) m (by positivity)]
    have h52 : 2 ^ 52 ≤ m := by
      rw [← Nat.le_log2 (Nat.ne_of_gt hm)]; omega
    have hmod : 2 ^ 52 + m % 2 ^ 52 = m := by
      have := hg.mant_lt; omega
    simp only [hmod]
    congr 1
    omega
  · omega
  · have h52 : m < 2 ^ 52 := by
      rw [← Nat.log2_lt (Nat.ne_of_gt hm)]; omega
    have he' : e = -1074 := hg.normal.resolve_left (by omega)
    subst he'
    exact unpack_subnormal s hm h52
  · omega

end Spacecraft.Binary64
