import Mathlib
import Spacecraft.Proofs.Binary64.Sign
import Spacecraft.Proofs.Binary64.Bits
import Spacecraft.Proofs.Binary64.Special

/-!
# Sign symmetry of binary64 arithmetic

Rounding to nearest, ties to even, rounds a magnitude the same way whatever its sign. So the
product is commutative and changes sign with either factor (`mul_comm`, `neg_mul`), and a sum or
difference of negated operands is the negated sum or difference (`agree_neg_sub_neg`,
`agree_neg_add_neg`), except that an exact cancellation gives `+0` both ways. Equality up to the
sign of a zero (`Agree`) is the relation these laws need; it is respected by the arithmetic, by
comparisons and by clamping, and the absolute value forgets it.
-/

namespace Spacecraft.Binary64

open Float.Model UnpackedFloat

theorem sign_neg_mul (s t : Sign) : -s * t = -(s * t) := by
  cases s <;> cases t <;> rfl

theorem sign_mul_comm (s t : Sign) : s * t = t * s := by
  cases s <;> cases t <;> rfl

theorem ofBitVec_toBitVec (s : Sign) : Sign.ofBitVec s.toBitVec = s := by
  cases s <;> rfl

theorem roundWithAccuracy_neg (s : Sign) (m : Nat) (e : Int) (a : Accuracy) :
    roundWithAccuracy .binary64 (-s) m e a = (roundWithAccuracy .binary64 s m e a).neg := by
  unfold roundWithAccuracy
  dsimp only
  split <;> rfl

theorem round_neg (s : Sign) (m : Nat) (e : Int) :
    UnpackedFloat.round .binary64 (-s) m e = (UnpackedFloat.round .binary64 s m e).neg :=
  roundWithAccuracy_neg s _ _ _

theorem sign_neg_neg (s : Sign) : - -s = s := by
  cases s <;> rfl

theorem neg_neg_unpacked (u : UnpackedFloat) : u.neg.neg = u := by
  cases u <;> simp [UnpackedFloat.neg, sign_neg_neg]

/-! ### Packing -/

theorem unpackSign_packComponents (s : Sign) (E : BitVec 11) (M : BitVec 52) :
    unpackSign (packComponents .binary64 s E M) = s.toBitVec := by
  apply BitVec.eq_of_getLsbD_eq
  intro i hi
  obtain rfl : i = 0 := by omega
  simp only [unpackSign, packComponents, BitVec.getLsbD_cast, BitVec.getLsbD_extractLsb]
  rw [BitVec.getLsbD_append, BitVec.getLsbD_append]
  cases s <;> simp [Sign.toBitVec]

/-- The sign bit is the only part of a pattern that unpacking reads as the sign. -/
theorem unpack_packComponents_neg (s : Sign) (E : BitVec 11) (M : BitVec 52) :
    UnpackedFloat.unpack .binary64 (packComponents .binary64 (-s) E M) =
      (UnpackedFloat.unpack .binary64 (packComponents .binary64 s E M)).neg := by
  simp only [UnpackedFloat.unpack, unpackMantissa_packComponents, unpackExponent_packComponents,
    unpackSign_packComponents, ofBitVec_toBitVec]
  split_ifs <;> rfl

theorem unpack_pack_neg (u : UnpackedFloat) :
    UnpackedFloat.unpack .binary64 (UnpackedFloat.pack .binary64 u.neg) =
      (UnpackedFloat.unpack .binary64 (UnpackedFloat.pack .binary64 u)).neg := by
  cases u with
  | notANumber => rfl
  | infinity s => exact unpack_packComponents_neg s _ _
  | zero s => exact unpack_packComponents_neg s _ _
  | finite s m e hm =>
    show UnpackedFloat.unpack _ (UnpackedFloat.pack _ (finite (-s) m e hm)) = _
    unfold UnpackedFloat.pack
    dsimp only
    split_ifs <;> exact unpack_packComponents_neg s _ _

/-! ### Products -/

theorem mul_comm_unpacked (u v : UnpackedFloat) :
    UnpackedFloat.mul .binary64 u v = UnpackedFloat.mul .binary64 v u := by
  cases u <;> cases v <;> simp only [UnpackedFloat.mul, sign_mul_comm, Nat.mul_comm, Int.add_comm]

theorem mul_neg_left_unpacked (u v : UnpackedFloat) :
    UnpackedFloat.mul .binary64 u.neg v = (UnpackedFloat.mul .binary64 u v).neg := by
  cases u <;> cases v <;>
    simp only [UnpackedFloat.mul, UnpackedFloat.neg, sign_neg_mul, roundWithAccuracy_neg]

theorem mul_comm_float (x y : Float) : x * y = y * x := by
  apply eq_of_view_eq
  rw [view_mul, view_mul, mul_comm_unpacked]

theorem neg_mul_float (x y : Float) : -x * y = -(x * y) := by
  apply eq_of_view_eq
  rw [view_mul, view_neg, view_neg, view_mul, mul_neg_left_unpacked, unpack_pack_neg]

theorem mul_neg_float (x y : Float) : x * -y = -(x * y) := by
  rw [mul_comm_float, neg_mul_float, mul_comm_float]

theorem sign_neg_div (s t : Sign) : -s / t = -(s / t) := by
  cases s <;> cases t <;> rfl

theorem div_neg_left_unpacked (u v : UnpackedFloat) :
    UnpackedFloat.div .binary64 u.neg v = (UnpackedFloat.div .binary64 u v).neg := by
  cases u <;> cases v <;>
    simp only [UnpackedFloat.div, UnpackedFloat.neg, sign_neg_div, roundWithAccuracy_neg]

theorem neg_div_float (x y : Float) : -x / y = -(x / y) := by
  apply eq_of_view_eq
  rw [view_div, view_neg, view_neg, view_div, div_neg_left_unpacked, unpack_pack_neg]

theorem neg_neg_float (x : Float) : -(-x) = x := by
  apply eq_of_view_eq
  rw [view_neg, view_neg, neg_neg_unpacked]

theorem abs_neg_float (x : Float) : (-x).abs = x.abs := by
  apply eq_of_view_eq
  rw [view_abs, view_abs, view_neg]
  cases view x <;> rfl

theorem isFinite_neg_float (x : Float) : (-x).isFinite = x.isFinite := by
  show (view (-x)).isFinite = (view x).isFinite
  rw [view_neg]
  cases view x <;> rfl

/-! ### Signs -/

theorem lt_asymm_float {x y : Float} (h : x < y) : ¬ y < x := by
  have hx := ne_nan_of_lt_left h
  have hy := ne_nan_of_lt_right h
  rw [lt_iff_rank hx hy] at h
  rw [lt_iff_rank hy hx]
  omega

theorem neg_lt_zero_float (x : Float) : -x < 0.0 ↔ 0.0 < x := by
  have h0 : view 0.0 = .zero .positive := rfl
  by_cases hx : view x = .notANumber
  · have hn : view (-x) = .notANumber := by rw [view_neg, hx]; rfl
    exact iff_of_false (not_lt_of_nan_left _ hn) (not_lt_of_nan_right _ hx)
  · have hn : view (-x) ≠ .notANumber := by rw [view_neg]; simpa using hx
    have hz : view 0.0 ≠ .notANumber := by rw [h0]; simp
    rw [lt_iff_rank hn hz, lt_iff_rank hz hx, view_neg, rank_neg, h0, rank_zero]
    omega

/-! ### Equality up to the sign of a zero -/

/-- Two unpacked values that are equal, or zeros of any signs. -/
def UnpackedAgree (u v : UnpackedFloat) : Prop :=
  u = v ∨ (∃ s, u = .zero s) ∧ (∃ s, v = .zero s)

/-- Two floats that are equal up to the sign of a zero: the same float, or two zeros. A NaN
agrees only with NaN. -/
def Agree (x y : Float) : Prop := UnpackedAgree (view x) (view y)

section Unpacked

variable {u u' v : UnpackedFloat}

theorem zero_agree (s t : Sign) : UnpackedAgree (.zero s) (.zero t) :=
  .inr ⟨⟨s, rfl⟩, ⟨t, rfl⟩⟩

theorem UnpackedAgree.symm (h : UnpackedAgree u v) : UnpackedAgree v u := by
  rcases h with rfl | ⟨hu, hv⟩
  · exact .inl rfl
  · exact .inr ⟨hv, hu⟩

theorem UnpackedAgree.trans {w : UnpackedFloat} (h : UnpackedAgree u v) (h' : UnpackedAgree v w) :
    UnpackedAgree u w := by
  rcases h with rfl | ⟨hu, ⟨s, rfl⟩⟩
  · exact h'
  · rcases h' with rfl | ⟨_, hw⟩
    · exact .inr ⟨hu, s, rfl⟩
    · exact .inr ⟨hu, hw⟩

theorem UnpackedAgree.neg (h : UnpackedAgree u v) : UnpackedAgree u.neg v.neg := by
  rcases h with rfl | ⟨⟨s, rfl⟩, ⟨t, rfl⟩⟩
  · exact .inl rfl
  · exact zero_agree _ _

theorem UnpackedAgree.unpack_pack (h : UnpackedAgree u v) :
    UnpackedAgree (UnpackedFloat.unpack .binary64 (UnpackedFloat.pack .binary64 u))
      (UnpackedFloat.unpack .binary64 (UnpackedFloat.pack .binary64 v)) := by
  rcases h with rfl | ⟨⟨s, rfl⟩, ⟨t, rfl⟩⟩
  · exact .inl rfl
  · rw [unpack_pack_zero, unpack_pack_zero]
    exact zero_agree _ _

theorem UnpackedAgree.add_left (h : UnpackedAgree u u') (v : UnpackedFloat) :
    UnpackedAgree (UnpackedFloat.add .binary64 u v) (UnpackedFloat.add .binary64 u' v) := by
  rcases h with rfl | ⟨⟨s, rfl⟩, ⟨t, rfl⟩⟩
  · exact .inl rfl
  · cases v with
    | zero r =>
      simp only [UnpackedFloat.add]
      split_ifs <;> exact zero_agree _ _
    | _ => exact .inl rfl

theorem UnpackedAgree.add_right (h : UnpackedAgree u u') (v : UnpackedFloat) :
    UnpackedAgree (UnpackedFloat.add .binary64 v u) (UnpackedFloat.add .binary64 v u') := by
  rcases h with rfl | ⟨⟨s, rfl⟩, ⟨t, rfl⟩⟩
  · exact .inl rfl
  · cases v with
    | zero r =>
      simp only [UnpackedFloat.add]
      split_ifs <;> exact zero_agree _ _
    | _ => exact .inl rfl

theorem UnpackedAgree.mul_left (h : UnpackedAgree u u') (v : UnpackedFloat) :
    UnpackedAgree (UnpackedFloat.mul .binary64 u v) (UnpackedFloat.mul .binary64 u' v) := by
  rcases h with rfl | ⟨⟨s, rfl⟩, ⟨t, rfl⟩⟩
  · exact .inl rfl
  · cases v with
    | zero r => exact zero_agree _ _
    | finite r m e hm => exact zero_agree _ _
    | _ => exact .inl rfl

theorem normalize_neg (M e : Int) :
    UnpackedAgree (UnpackedFloat.normalize .binary64 (-M) e .positive)
      (UnpackedFloat.normalize .binary64 M e .positive).neg := by
  unfold UnpackedFloat.normalize
  rcases lt_trichotomy M 0 with h | rfl | h
  · rw [compare_gt_iff_gt.2 (Int.neg_pos.2 h), compare_lt_iff_lt.2 h, ← round_neg]
    exact .inl rfl
  · exact zero_agree _ _
  · rw [compare_lt_iff_lt.2 (Int.neg_neg_of_pos h), compare_gt_iff_gt.2 h, ← round_neg,
      Int.neg_neg]
    exact .inl rfl

theorem add_neg_neg_unpacked (u v : UnpackedFloat) :
    UnpackedAgree (UnpackedFloat.add .binary64 u.neg v.neg) (UnpackedFloat.add .binary64 u v).neg := by
  cases u with
  | notANumber => exact .inl rfl
  | infinity s =>
    cases v with
    | infinity t => cases s <;> cases t <;> exact .inl rfl
    | _ => exact .inl rfl
  | zero s =>
    cases v with
    | zero t => cases s <;> cases t <;> exact zero_agree _ _
    | _ => exact .inl rfl
  | finite s m e hm =>
    cases v with
    | finite t n f hn =>
      simp only [UnpackedFloat.neg, UnpackedFloat.add, sign_apply_neg]
      rw [show ∀ a b : Int, -a + -b = -(a + b) by intros; ring]
      exact normalize_neg _ _
    | _ => exact .inl rfl

/-- Subtraction is addition of the negation. -/
theorem sub_eq_add_neg_unpacked (u v : UnpackedFloat) :
    UnpackedFloat.sub .binary64 u v = UnpackedFloat.add .binary64 u v.neg := by
  cases u <;> cases v <;>
    grind [UnpackedFloat.sub, UnpackedFloat.add, UnpackedFloat.neg, sign_apply_neg, sign_neg_neg]

end Unpacked

/-! ### Floats -/

section Floats

variable {x x' y : Float}

theorem sub_eq_add_neg_float (x y : Float) : x - y = x + -y := by
  apply eq_of_view_eq
  rw [view_sub, view_add, view_neg, sub_eq_add_neg_unpacked]

/-- A difference with a finite subtrahend is NaN only when the minuend is. -/
theorem sub_ne_nan {x y : Float} (hx : view x ≠ .notANumber) (hy : y.isFinite = true) :
    view (x - y) ≠ .notANumber := by
  rw [sub_eq_add_neg_float]
  exact add_ne_nan hx (by rw [isFinite_neg_float]; exact hy)

theorem Agree.refl (x : Float) : Agree x x := .inl rfl

theorem Agree.symm (h : Agree x y) : Agree y x := UnpackedAgree.symm h

theorem Agree.trans {z : Float} (h : Agree x y) (h' : Agree y z) : Agree x z :=
  UnpackedAgree.trans h h'

theorem Agree.neg (h : Agree x y) : Agree (-x) (-y) := by
  unfold Agree
  rw [view_neg, view_neg]
  exact UnpackedAgree.neg h

theorem Agree.add_left (h : Agree x x') (y : Float) : Agree (x + y) (x' + y) := by
  unfold Agree
  rw [view_add, view_add]
  exact (UnpackedAgree.add_left h _).unpack_pack

theorem Agree.add_right (h : Agree x x') (y : Float) : Agree (y + x) (y + x') := by
  unfold Agree
  rw [view_add, view_add]
  exact (UnpackedAgree.add_right h _).unpack_pack

theorem Agree.sub_left (h : Agree x x') (y : Float) : Agree (x - y) (x' - y) := by
  rw [sub_eq_add_neg_float, sub_eq_add_neg_float]
  exact h.add_left _

theorem Agree.mul_left (h : Agree x x') (y : Float) : Agree (x * y) (x' * y) := by
  unfold Agree
  rw [view_mul, view_mul]
  exact (UnpackedAgree.mul_left h _).unpack_pack

theorem Agree.mul_right (h : Agree x x') (y : Float) : Agree (y * x) (y * x') := by
  rw [mul_comm_float y x, mul_comm_float y x']
  exact h.mul_left y

/-- A sum of negated operands is the negated sum, up to the sign of a zero. -/
theorem agree_neg_add_neg (x y : Float) : Agree (-x + -y) (-(x + y)) := by
  unfold Agree
  rw [view_add, view_neg, view_neg, view_neg, view_add, ← unpack_pack_neg]
  exact (add_neg_neg_unpacked _ _).unpack_pack

/-- A difference of negated operands is the negated difference, up to the sign of a zero. -/
theorem agree_neg_sub_neg (x y : Float) : Agree (-x - -y) (-(x - y)) := by
  rw [sub_eq_add_neg_float, sub_eq_add_neg_float]
  exact agree_neg_add_neg x (-y)

/-- A sum whose terms are all negated, accumulated from the left, is the negated sum. -/
theorem Agree.neg_add (h : Agree x (-y)) (z : Float) : Agree (x + -z) (-(y + z)) :=
  (h.add_left _).trans (agree_neg_add_neg y z)

theorem Agree.neg_sub (h : Agree x (-y)) (z : Float) : Agree (x - -z) (-(y - z)) :=
  (h.sub_left _).trans (agree_neg_sub_neg y z)

theorem compare_zero_left (s t : Sign) (v : UnpackedFloat) :
    (UnpackedFloat.zero s).compare v = (UnpackedFloat.zero t).compare v := by
  cases v with
  | infinity r => cases r <;> rfl
  | finite r m e hm => cases r <;> rfl
  | _ => rfl

theorem compare_zero_right (s t : Sign) (v : UnpackedFloat) :
    v.compare (UnpackedFloat.zero s) = v.compare (UnpackedFloat.zero t) := by
  cases v with
  | infinity r => cases r <;> rfl
  | finite r m e hm => cases r <;> rfl
  | _ => rfl

theorem Agree.lt_left (h : Agree x x') (y : Float) : x < y ↔ x' < y := by
  rw [lt_iff_compare, lt_iff_compare]
  rcases h with h | ⟨⟨s, hs⟩, ⟨t, ht⟩⟩
  · rw [h]
  · rw [hs, ht, compare_zero_left s t]

theorem Agree.lt_right (h : Agree x x') (y : Float) : y < x ↔ y < x' := by
  rw [lt_iff_compare, lt_iff_compare]
  rcases h with h | ⟨⟨s, hs⟩, ⟨t, ht⟩⟩
  · rw [h]
  · rw [hs, ht, compare_zero_right s t]

theorem Agree.isNaN_eq (h : Agree x x') : x.isNaN = x'.isNaN := by
  rcases h with h | ⟨⟨s, hs⟩, ⟨t, ht⟩⟩
  · rw [eq_of_view_eq h]
  · rw [isNaN_eq_false_iff.2 (by rw [hs]; simp), isNaN_eq_false_iff.2 (by rw [ht]; simp)]

/-- The absolute value forgets the sign of a zero. -/
theorem Agree.abs_eq (h : Agree x x') : x.abs = x'.abs := by
  apply eq_of_view_eq
  rw [view_abs, view_abs]
  rcases h with h | ⟨⟨s, hs⟩, ⟨t, ht⟩⟩
  · rw [h]
  · rw [hs, ht]
    rfl

theorem Agree.clamp (h : Agree x x') (lo hi : Float) :
    Agree (Spacecraft.clamp x lo hi) (Spacecraft.clamp x' lo hi) := by
  -- raised to at least `lo`: both values take the same branch
  have hm : Agree (if x.isNaN then x else if x < lo then lo else x)
      (if x'.isNaN then x' else if x' < lo then lo else x') := by
    rw [h.isNaN_eq]
    by_cases hn : x'.isNaN = true
    · simp only [hn, if_true]
      exact h
    · simp only [hn, Bool.false_eq_true, if_false, h.lt_left lo]
      split_ifs
      · exact Agree.refl lo
      · exact h
  unfold Spacecraft.clamp
  generalize (if x.isNaN then x else if x < lo then lo else x) = m at hm ⊢
  generalize (if x'.isNaN then x' else if x' < lo then lo else x') = m' at hm ⊢
  -- then lowered to at most `hi`
  dsimp only
  rw [hm.isNaN_eq]
  by_cases hn : m'.isNaN = true
  · simp only [hn, if_true]
    exact hm
  · simp only [hn, Bool.false_eq_true, if_false, gt_iff_lt, hm.lt_right hi]
    split_ifs
    · exact Agree.refl hi
    · exact hm

end Floats

end Spacecraft.Binary64
