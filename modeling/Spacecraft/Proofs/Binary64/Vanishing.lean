import Mathlib
import Spacecraft.Proofs.Binary64.Fused

/-!
# Vanishing values

A zero of either sign, or NaN (`ZeroOrNaN`), stays one when it is multiplied by anything,
divided by anything or negated, when two of them are added or subtracted, and as the factor and
the addend of a fused multiply-add (`ZeroOrNaN.mul_left`, `ZeroOrNaN.div`, `ZeroOrNaN.sub`,
`fma_zeroOrNaN_left`): the model multiplies and divides a zero into a zero, or into NaN from an
infinity, a zero divisor or NaN, and lets NaN through every operation.

Adding a zero changes a value at most in the sign of a zero (`agree_add_isZero`,
`agree_isZero_add`); so a value plus a zero or NaN is NaN or agrees with the value
(`add_zeroOrNaN`). A finite value times a zero is a zero (`isZero_mul_of_finite`).
-/

namespace Spacecraft.Binary64

open Float.Model UnpackedFloat

variable {x y z : Float}

/-- A finite value times a zero is a zero. -/
theorem isZero_mul_of_finite (hy : y.isFinite = true) (hz : IsZero z) : IsZero (y * z) := by
  obtain ⟨s, hs⟩ := hz
  have hv : (view y).isFinite = true := hy
  cases hvy : view y with
  | finite r m e hm => exact ⟨r * s, by rw [view_mul, hvy, hs]; exact unpack_pack_zero _⟩
  | zero r => exact ⟨r * s, by rw [view_mul, hvy, hs]; exact unpack_pack_zero _⟩
  | infinity r => rw [hvy] at hv; cases hv
  | notANumber => rw [hvy] at hv; cases hv

/-- Adding a zero changes a value at most in the sign of a zero. -/
theorem agree_add_isZero (hz : IsZero z) (x : Float) : Agree (x + z) x := by
  obtain ⟨s, hs⟩ := hz
  have cx := canon_view x
  unfold Agree
  rw [view_add, hs]
  cases hv : view x with
  | notANumber => exact .inl unpack_pack_nan
  | infinity r => exact .inl (unpack_pack_infinity r)
  | zero r =>
    simp only [UnpackedFloat.add]
    split <;> rw [unpack_pack_zero] <;> exact zero_agree _ _
  | finite r m e hm =>
    rw [hv] at cx
    exact .inl (unpack_pack_canonical hm cx)

/-- A zero added to a value changes it at most in the sign of a zero. -/
theorem agree_isZero_add (hz : IsZero z) (x : Float) : Agree (z + x) x := by
  obtain ⟨s, hs⟩ := hz
  have cx := canon_view x
  unfold Agree
  rw [view_add, hs]
  cases hv : view x with
  | notANumber => exact .inl unpack_pack_nan
  | infinity r => exact .inl (unpack_pack_infinity r)
  | zero r =>
    simp only [UnpackedFloat.add]
    split <;> rw [unpack_pack_zero] <;> exact zero_agree _ _
  | finite r m e hm =>
    rw [hv] at cx
    exact .inl (unpack_pack_canonical hm cx)

/-- A value plus a zero or NaN is NaN, or agrees with the value. -/
theorem add_zeroOrNaN (x : Float) (hz : ZeroOrNaN z) :
    (x + z).isNaN = true ∨ Agree (x + z) x := by
  rcases hz with hz | hn
  · exact .inr (agree_add_isZero hz x)
  · refine .inl (isNaN_eq_true_iff.2 ?_)
    rw [view_add, hn]
    cases view x <;> exact unpack_pack_nan

theorem ZeroOrNaN.neg (hx : ZeroOrNaN x) : ZeroOrNaN (-x) := by
  rcases zeroOrNaN_iff.1 hx with rfl | rfl | rfl <;> exact zeroOrNaN_iff.2 (by decide)

theorem ZeroOrNaN.sub (hx : ZeroOrNaN x) (hy : ZeroOrNaN y) : ZeroOrNaN (x - y) := by
  rw [sub_eq_add_neg_float]
  exact hx.add hy.neg

/-- Anything times a zero or NaN is a zero or NaN. -/
theorem ZeroOrNaN.mul_left (c : Float) (hx : ZeroOrNaN x) : ZeroOrNaN (c * x) := by
  rcases hx with hz | hn
  · exact zeroOrNaN_mul (.inr hz)
  · exact .inr (isNaN_eq_true_iff.1 (isNaN_mul_right c (isNaN_eq_true_iff.2 hn)))

theorem ZeroOrNaN.mul_right (hx : ZeroOrNaN x) (c : Float) : ZeroOrNaN (x * c) := by
  rw [mul_comm_float]
  exact hx.mul_left c

/-- A zero or NaN divided by anything is a zero or NaN: a zero over a zero or NaN is NaN, and
over anything else a zero. -/
theorem ZeroOrNaN.div (hx : ZeroOrNaN x) (c : Float) : ZeroOrNaN (x / c) := by
  rcases hx with ⟨s, hs⟩ | hn
  · unfold ZeroOrNaN IsZero
    rw [view_div, hs]
    cases view c <;> simp [UnpackedFloat.div, unpack_pack_zero, unpack_pack_nan]
  · refine .inr ?_
    rw [view_div, hn]
    exact unpack_pack_nan

/-- NaN is not decoded. -/
theorem decode_of_nan (hn : view x = .notANumber) : decode x = none := by
  cases hd : decode x with
  | none => rfl
  | some d => exact absurd hn (ne_nan_of_decode hd)

/-- A fused multiply-add with a zero or NaN first factor and a zero or NaN addend is a zero or
NaN, whatever the other factor. -/
theorem fma_zeroOrNaN_left {a c : Float} (ha : ZeroOrNaN a) (b : Float) (hc : ZeroOrNaN c) :
    ZeroOrNaN (fma a b c) := by
  rcases ha with hz | hn
  · exact fma_zeroOrNaN (.inl hz) hc
  · -- NaN is not decoded, so the product and the sum are taken one after the other
    simp only [fma, decode_of_nan hn]
    exact ((ZeroOrNaN.mul_right (.inr hn) b)).add hc

/-- A fused multiply-add with a zero or NaN second factor and a zero or NaN addend is a zero or
NaN, whatever the other factor. -/
theorem fma_zeroOrNaN_right (a : Float) {b c : Float} (hb : ZeroOrNaN b) (hc : ZeroOrNaN c) :
    ZeroOrNaN (fma a b c) := by
  rcases hb with hz | hn
  · exact fma_zeroOrNaN (.inr hz) hc
  · have hprod : ZeroOrNaN (a * b + c) := (ZeroOrNaN.mul_left a (.inr hn)).add hc
    cases hda : decode a <;> simp only [fma, hda, decode_of_nan hn] <;> exact hprod

end Spacecraft.Binary64
