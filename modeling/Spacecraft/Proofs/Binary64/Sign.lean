import Mathlib
import Spacecraft.Proofs.Binary64.Special
import Spacecraft.Numeric.Vec3

/-!
# Negation and absolute value of binary64 values

Negation flips the sign of the unpacked value and the absolute value clears it, so both keep a
value canonical and act on ranks as they act on integers (`rank_neg`, `rank_abs`). Hence a
value other than NaN is at most `l` in size exactly when it lies between `-l` and `l`
(`abs_le_iff`). Clamping into `[lo, hi]` with `lo ≤ hi` puts every value other than NaN into
the interval and keeps NaN (`clamp_mem`, `clamp_isNaN`).
-/

namespace Spacecraft.Binary64

open Float.Model UnpackedFloat

theorem sign_apply_neg (s : Sign) (n : Int) : (-s).apply n = -(s.apply n) := by
  cases s
  · exact (Int.neg_neg n).symm
  · rfl

/-- A canonical value survives packing and unpacking. -/
theorem unpack_pack_of_canon {u : UnpackedFloat} (hu : Canon u) :
    unpack .binary64 (pack .binary64 u) = u := by
  cases u with
  | notANumber => exact unpack_pack_nan
  | infinity s => exact unpack_pack_infinity s
  | zero s => exact unpack_pack_zero s
  | finite s m e hm => exact unpack_pack_canonical hm hu

theorem canon_neg {u : UnpackedFloat} (hu : Canon u) : Canon u.neg := by
  cases u <;> exact hu

theorem canon_abs {u : UnpackedFloat} (hu : Canon u) : Canon u.abs := by
  cases u <;> exact hu

theorem view_neg (x : Float) : view (-x) = (view x).neg :=
  unpack_pack_of_canon (canon_neg (canon_view x))

theorem view_abs (x : Float) : view x.abs = (view x).abs :=
  unpack_pack_of_canon (canon_abs (canon_view x))

@[simp] theorem neg_eq_nan_iff {u : UnpackedFloat} : u.neg = .notANumber ↔ u = .notANumber := by
  cases u <;> simp [UnpackedFloat.neg]

@[simp] theorem abs_eq_nan_iff {u : UnpackedFloat} : u.abs = .notANumber ↔ u = .notANumber := by
  cases u <;> simp [UnpackedFloat.abs]

theorem rank_neg (u : UnpackedFloat) : rank u.neg = -rank u := by
  cases u with
  | notANumber => rfl
  | infinity s => cases s <;> simp [UnpackedFloat.neg, rank]
  | zero s => rfl
  | finite s m e hm => exact sign_apply_neg s _

theorem rank_abs (u : UnpackedFloat) : rank u.abs = |rank u| := by
  cases u with
  | notANumber => rfl
  | infinity s => cases s <;> simp [UnpackedFloat.abs, rank]
  | zero s => rfl
  | finite s m e hm =>
    cases s <;> simp [UnpackedFloat.abs, rank, Sign.apply]

/-- A value other than NaN is at most `l` in size exactly when it lies between `-l` and `l`. -/
theorem abs_le_iff {x l : Float} (hx : view x ≠ .notANumber) (hl : view l ≠ .notANumber) :
    x.abs ≤ l ↔ -l ≤ x ∧ x ≤ l := by
  have hax : view x.abs ≠ .notANumber := by rwa [view_abs, Ne, abs_eq_nan_iff]
  have hnl : view (-l) ≠ .notANumber := by rwa [view_neg, Ne, neg_eq_nan_iff]
  rw [le_iff_rank hax hl, le_iff_rank hnl hx, le_iff_rank hx hl, view_abs, view_neg, rank_abs,
    rank_neg, abs_le]

/-- A value that is not NaN, clamped into `[lo, hi]` with `lo ≤ hi`, lies in the interval. -/
theorem clamp_mem {x lo hi : Float} (hx : x.isNaN = false) (hle : lo ≤ hi) :
    lo ≤ clamp x lo hi ∧ clamp x lo hi ≤ hi := by
  have hlo := ne_nan_of_le_left hle
  have hhi := ne_nan_of_le_right hle
  have hxn := isNaN_eq_false_iff.1 hx
  -- raised to at least `lo` first
  obtain ⟨m, hm, hlom⟩ : ∃ m, (if x < lo then lo else x) = m ∧ lo ≤ m := by
    by_cases hxlo : x < lo
    · exact ⟨lo, if_pos hxlo, le_refl_of_ne_nan hlo⟩
    · exact ⟨x, if_neg hxlo, float_le_of_not_lt hxn hlo hxlo⟩
  have hmn := ne_nan_of_le_right hlom
  simp only [clamp, hx, Bool.false_eq_true, if_false, hm, isNaN_eq_false_iff.2 hmn]
  -- then lowered to at most `hi`
  by_cases hmhi : m > hi
  · rw [if_pos hmhi]
    exact ⟨hle, le_refl_of_ne_nan hhi⟩
  · rw [if_neg hmhi]
    exact ⟨hlom, float_le_of_not_lt hhi hmn hmhi⟩

/-- Between bounds that are numbers, clamping gives NaN exactly for NaN. -/
theorem clamp_isNaN (x : Float) {lo hi : Float} (hle : lo ≤ hi) :
    (clamp x lo hi).isNaN = x.isNaN := by
  cases hx : x.isNaN
  · exact isNaN_eq_false_iff.2 (ne_nan_of_le_right (clamp_mem hx hle).1)
  · simp only [clamp, hx, if_true]

end Spacecraft.Binary64
