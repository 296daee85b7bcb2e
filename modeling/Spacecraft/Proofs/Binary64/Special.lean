import Mathlib
import Spacecraft.Proofs.Binary64.Arithmetic

/-!
# Infinities and NaN in binary64 arithmetic

A NaN or infinite factor, summand or dividend makes a product, a sum or a quotient NaN or
infinite again, so a step of infinite or undefined size never gives a finite state. This
module proves that, and the order facts about sums with an infinite term that the finite
lemmas of `Arithmetic` leave out: adding a finite value to a value that is not NaN gives a
value that is not NaN, on the side of it that the sign of the addend says.
-/

namespace Spacecraft.Binary64

open Float.Model UnpackedFloat

/-- Packing a NaN or an infinity and unpacking it again gives it back. -/
theorem unpack_pack_of_not_finite {u : UnpackedFloat} (h : u.isFinite = false) :
    unpack .binary64 (pack .binary64 u) = u := by
  cases u with
  | notANumber => exact unpack_pack_nan
  | infinity s => exact unpack_pack_infinity s
  | zero s => cases h
  | finite s m e hm => cases h

section Propagation

variable {u v : UnpackedFloat}

theorem mul_not_finite_left (v : UnpackedFloat) (h : u.isFinite = false) :
    (UnpackedFloat.mul .binary64 u v).isFinite = false := by
  cases u <;> cases v <;> first | rfl | cases h

theorem add_not_finite_left (v : UnpackedFloat) (h : u.isFinite = false) :
    (UnpackedFloat.add .binary64 u v).isFinite = false := by
  cases u with
  | notANumber => rfl
  | infinity s => cases v <;> first | rfl | (simp only [UnpackedFloat.add]; split <;> rfl)
  | zero s => cases h
  | finite s m e hm => cases h

theorem add_not_finite_right (u : UnpackedFloat) (h : v.isFinite = false) :
    (UnpackedFloat.add .binary64 u v).isFinite = false := by
  cases v with
  | notANumber => cases u <;> rfl
  | infinity s =>
    cases u with
    | infinity s' => simp only [UnpackedFloat.add]; split <;> rfl
    | _ => rfl
  | zero s => cases h
  | finite s m e hm => cases h

theorem div_not_finite_left (v : UnpackedFloat) (h : u.isFinite = false) :
    (UnpackedFloat.div .binary64 u v).isFinite = false := by
  cases u <;> cases v <;> first | rfl | cases h

end Propagation

section Floats

variable {a b : Float}

/-- A product with a NaN or infinite factor is NaN or infinite. -/
theorem isFinite_mul_left (b : Float) (h : a.isFinite = false) : (a * b).isFinite = false := by
  have hv : (view a).isFinite = false := h
  show (view (a * b)).isFinite = false
  rw [view_mul, unpack_pack_of_not_finite (mul_not_finite_left _ hv)]
  exact mul_not_finite_left _ hv

/-- A product with a NaN factor is NaN. -/
theorem isNaN_mul_left (b : Float) (h : a.isNaN = true) : (a * b).isNaN = true := by
  rw [isNaN_eq_true_iff, view_mul, isNaN_eq_true_iff.1 h]
  cases view b <;> exact unpack_pack_nan

theorem isNaN_mul_right (a : Float) (h : b.isNaN = true) : (a * b).isNaN = true := by
  rw [isNaN_eq_true_iff, view_mul, isNaN_eq_true_iff.1 h]
  cases view a <;> exact unpack_pack_nan

/-- A sum with a NaN or infinite summand is NaN or infinite. -/
theorem isFinite_add_left (b : Float) (h : a.isFinite = false) : (a + b).isFinite = false := by
  have hv : (view a).isFinite = false := h
  show (view (a + b)).isFinite = false
  rw [view_add, unpack_pack_of_not_finite (add_not_finite_left _ hv)]
  exact add_not_finite_left _ hv

theorem isFinite_add_right (a : Float) (h : b.isFinite = false) : (a + b).isFinite = false := by
  have hv : (view b).isFinite = false := h
  show (view (a + b)).isFinite = false
  rw [view_add, unpack_pack_of_not_finite (add_not_finite_right _ hv)]
  exact add_not_finite_right _ hv

/-- A quotient of a NaN or infinite dividend is NaN or infinite. -/
theorem isFinite_div_left (b : Float) (h : a.isFinite = false) : (a / b).isFinite = false := by
  have hv : (view a).isFinite = false := h
  show (view (a / b)).isFinite = false
  rw [view_div, unpack_pack_of_not_finite (div_not_finite_left _ hv)]
  exact div_not_finite_left _ hv

end Floats

section Order

variable {x h : Float}

/-- An infinity plus a finite value is that infinity. -/
theorem add_infinity_finite (s : Sign) {w : UnpackedFloat} (hw : w.isFinite = true) :
    UnpackedFloat.add .binary64 (.infinity s) w = .infinity s := by
  cases w with
  | zero s' => rfl
  | finite s' m e hm => rfl
  | _ => cases hw

/-- Adding a finite value to a value that is not NaN gives a value that is not NaN. -/
theorem add_ne_nan (hx : view x ≠ .notANumber) (hh : h.isFinite = true) :
    view (x + h) ≠ .notANumber := by
  have cx := canon_view x
  have ch := canon_view h
  rw [view_add]
  cases hv : view x with
  | notANumber => exact absurd hv hx
  | infinity s =>
    rw [add_infinity_finite s (w := view h) hh, unpack_pack_infinity]
    exact UnpackedFloat.noConfusion
  | zero s =>
    rw [hv] at cx
    exact (faithful_add cx ch rfl hh).ne_nan
  | finite s m e hm =>
    rw [hv] at cx
    exact (faithful_add cx ch rfl hh).ne_nan

theorem nonpos_iff_rank (hx : view x ≠ .notANumber) : x ≤ 0 ↔ rank (view x) ≤ 0 := by
  rw [le_iff_rank hx (by rw [view_zero]; exact UnpackedFloat.noConfusion), view_zero, rank_zero]

/-- Adding a finite value of at most zero gives at most the value added to. -/
theorem add_le_of_nonpos (hx : view x ≠ .notANumber) (hh : h.isFinite = true) (h0 : h ≤ 0) :
    x + h ≤ x := by
  have cx := canon_view x
  have hr := (nonpos_iff_rank (ne_nan_of_le_left h0)).1 h0
  rw [le_iff_rank (add_ne_nan hx hh) hx, view_add]
  cases hv : view x with
  | notANumber => exact absurd hv hx
  | infinity s => rw [add_infinity_finite s (w := view h) hh, unpack_pack_infinity]
  | zero s =>
    rw [hv] at cx
    exact (faithful_add cx (canon_view h) rfl hh).le_of_ge _ cx rfl (by omega)
  | finite s m e hm =>
    rw [hv] at cx
    exact (faithful_add cx (canon_view h) rfl hh).le_of_ge _ cx rfl (by omega)

/-- Adding a finite value of at least zero gives at least the value added to, infinite or
not. -/
theorem le_add_of_finite_nonneg (hx : view x ≠ .notANumber) (hh : h.isFinite = true)
    (h0 : 0 ≤ h) : x ≤ x + h := by
  cases hf : x.isFinite
  · have hf' : (view x).isFinite = false := hf
    rw [le_iff_rank hx (add_ne_nan hx hh), view_add]
    cases hv : view x with
    | notANumber => exact absurd hv hx
    | infinity s => rw [add_infinity_finite s (w := view h) hh, unpack_pack_infinity]
    | zero s => rw [hv] at hf'; cases hf'
    | finite s m e hm => rw [hv] at hf'; cases hf'
  · exact le_add_of_nonneg hf h0

/-- Subtracting a larger value gives a value that is not NaN. -/
theorem sub_ne_nan_of_lt {y : Float} (hxy : x < y) : view (x - y) ≠ .notANumber := by
  have hx := ne_nan_of_lt_left hxy
  have hy := ne_nan_of_lt_right hxy
  have hr := (lt_iff_rank hx hy).1 hxy
  have bx := rank_le_infRank (canon_view x)
  have by' := rank_le_infRank (canon_view y)
  have cx := canon_view x
  have cy := canon_view y
  rw [view_sub]
  cases hvx : view x with
  | notANumber => exact absurd hvx hx
  | infinity sx =>
    cases sx with
    | positive => rw [hvx, rank_posInf] at hr; omega
    | negative =>
      -- `-∞ - y` is `-∞`, since `y` is not `-∞`
      cases hvy : view y with
      | notANumber => exact absurd hvy hy
      | infinity sy =>
        cases sy with
        | positive => rw [show UnpackedFloat.sub .binary64 _ _ = .infinity .negative from rfl,
            unpack_pack_infinity]; exact UnpackedFloat.noConfusion
        | negative => rw [hvx, hvy] at hr; simp at hr
      | zero sy => rw [show UnpackedFloat.sub .binary64 _ _ = .infinity .negative from rfl,
          unpack_pack_infinity]; exact UnpackedFloat.noConfusion
      | finite sy m e hm => rw [show UnpackedFloat.sub .binary64 _ _ = .infinity .negative from rfl,
          unpack_pack_infinity]; exact UnpackedFloat.noConfusion
  | zero sx =>
    cases hvy : view y with
    | notANumber => exact absurd hvy hy
    | infinity sy =>
      cases sy with
      | positive => rw [show UnpackedFloat.sub .binary64 _ _ = .infinity .negative from rfl,
          unpack_pack_infinity]; exact UnpackedFloat.noConfusion
      | negative => rw [hvy, rank_negInf] at hr; omega
    | zero sy =>
      rw [hvx] at cx; rw [hvy] at cy
      exact (faithful_sub cx cy rfl rfl).ne_nan
    | finite sy m e hm =>
      rw [hvx] at cx; rw [hvy] at cy
      exact (faithful_sub cx cy rfl rfl).ne_nan
  | finite sx mx ex hmx =>
    cases hvy : view y with
    | notANumber => exact absurd hvy hy
    | infinity sy =>
      cases sy with
      | positive => rw [show UnpackedFloat.sub .binary64 _ _ = .infinity .negative from rfl,
          unpack_pack_infinity]; exact UnpackedFloat.noConfusion
      | negative => rw [hvy, rank_negInf] at hr; omega
    | zero sy =>
      rw [hvx] at cx; rw [hvy] at cy
      exact (faithful_sub cx cy rfl rfl).ne_nan
    | finite sy m e hm =>
      rw [hvx] at cx; rw [hvy] at cy
      exact (faithful_sub cx cy rfl rfl).ne_nan

/-! Floats that are not NaN are ordered as their ranks are. -/

theorem view_zero_ne_nan : view 0 ≠ .notANumber := by
  rw [view_zero]; exact UnpackedFloat.noConfusion

theorem le_refl_of_ne_nan (hx : view x ≠ .notANumber) : x ≤ x :=
  (le_iff_rank hx hx).2 le_rfl

theorem le_of_float_lt {y : Float} (hxy : x < y) : x ≤ y := by
  have hx := ne_nan_of_lt_left hxy
  have hy := ne_nan_of_lt_right hxy
  exact (le_iff_rank hx hy).2 (le_of_lt ((lt_iff_rank hx hy).1 hxy))

theorem float_le_trans {y z : Float} (hxy : x ≤ y) (hyz : y ≤ z) : x ≤ z := by
  have hx := ne_nan_of_le_left hxy
  have hy := ne_nan_of_le_right hxy
  have hz := ne_nan_of_le_right hyz
  exact (le_iff_rank hx hz).2 (le_trans ((le_iff_rank hx hy).1 hxy) ((le_iff_rank hy hz).1 hyz))

theorem float_le_of_not_lt {y : Float} (hx : view x ≠ .notANumber) (hy : view y ≠ .notANumber)
    (hxy : ¬ x < y) : y ≤ x :=
  (le_iff_rank hy hx).2 (not_lt.1 ((lt_iff_rank hx hy).not.1 hxy))

theorem float_lt_of_not_le {y : Float} (hx : view x ≠ .notANumber) (hy : view y ≠ .notANumber)
    (hxy : ¬ x ≤ y) : y < x :=
  (lt_iff_rank hy hx).2 (not_le.1 ((le_iff_rank hx hy).not.1 hxy))

theorem not_lt_of_float_le {y : Float} (hyx : y ≤ x) : ¬ x < y := by
  intro hxy
  have hx := ne_nan_of_lt_left hxy
  have hy := ne_nan_of_lt_right hxy
  have := (lt_iff_rank hx hy).1 hxy
  have := (le_iff_rank hy hx).1 hyx
  omega

theorem beq_of_le_of_le {y : Float} (hxy : x ≤ y) (hyx : y ≤ x) : (x == y) = true := by
  have hx := ne_nan_of_le_left hxy
  have hy := ne_nan_of_le_right hxy
  exact (beq_iff_rank hx hy).2 (le_antisymm ((le_iff_rank hx hy).1 hxy) ((le_iff_rank hy hx).1 hyx))

theorem ne_nan_of_beq_left {y : Float} (h : (x == y) = true) : view x ≠ .notANumber := by
  intro hn
  rw [beq_iff_compare, hn, compare_nan_left] at h
  cases h

theorem ne_nan_of_beq_right {y : Float} (h : (x == y) = true) : view y ≠ .notANumber := by
  intro hn
  rw [beq_iff_compare, hn, compare_nan_right] at h
  cases h

theorem beq_trans {y z : Float} (hx : view x ≠ .notANumber) (hy : view y ≠ .notANumber)
    (hz : view z ≠ .notANumber) (hxy : (x == y) = true) (hyz : (y == z) = true) :
    (x == z) = true :=
  (beq_iff_rank hx hz).2 (((beq_iff_rank hx hy).1 hxy).trans ((beq_iff_rank hy hz).1 hyz))

/-! Zeros of either sign. -/

/-- A zero of either sign. -/
def IsZero (x : Float) : Prop := ∃ s, view x = .zero s

/-- A product with a zero is a zero, or NaN when the other factor is NaN or infinite. -/
theorem isZero_mul (y : Float) {z : Float} (hz : IsZero z) :
    IsZero (y * z) ∨ view (y * z) = .notANumber := by
  obtain ⟨s, hs⟩ := hz
  -- the model multiplies a zero into a zero, or into NaN from NaN or an infinity
  have hm : UnpackedFloat.mul .binary64 (view y) (.zero s) = .notANumber ∨
      ∃ s', UnpackedFloat.mul .binary64 (view y) (.zero s) = .zero s' := by
    cases view y <;> simp [UnpackedFloat.mul]
  rcases hm with h | ⟨s', h⟩
  · exact .inr (by rw [view_mul, hs, h, unpack_pack_nan])
  · exact .inl ⟨s', by rw [view_mul, hs, h, unpack_pack_zero]⟩

/-- A finite product with a zero is a zero. -/
theorem isZero_mul_of_isFinite (y : Float) {z : Float} (hz : IsZero z)
    (hf : (y * z).isFinite = true) : IsZero (y * z) := by
  refine (isZero_mul y hz).resolve_right fun hn => ?_
  have hv : (view (y * z)).isFinite = true := hf
  rw [hn] at hv
  cases hv

/-- A float is a zero exactly when it equals zero. -/
theorem isZero_iff_beq_zero : IsZero x ↔ (x == 0) = true := by
  constructor
  · rintro ⟨s, hs⟩
    have hx : view x ≠ .notANumber := by rw [hs]; exact UnpackedFloat.noConfusion
    rw [beq_iff_rank hx view_zero_ne_nan, hs, view_zero, rank_zero, rank_zero]
  · intro h
    have hx := ne_nan_of_beq_left h
    have hr := (beq_iff_rank hx view_zero_ne_nan).1 h
    rw [view_zero, rank_zero] at hr
    -- only a zero has rank zero among the values that are not NaN
    cases hv : view x with
    | notANumber => exact absurd hv hx
    | zero s => exact ⟨s, hv⟩
    | infinity s =>
      rw [hv] at hr
      cases s <;> simp at hr <;> have := infRank_pos <;> omega
    | finite s m e hm =>
      rw [hv, rank_finite] at hr
      have := units_pos (e := e) hm
      cases s <;> simp [Sign.apply] at hr <;> omega

/-- Adding a zero to a value that is not NaN leaves its rank. -/
theorem rank_add_isZero (hx : view x ≠ .notANumber) {z : Float} (hz : IsZero z) :
    view (x + z) ≠ .notANumber ∧ rank (view (x + z)) = rank (view x) := by
  obtain ⟨s, hs⟩ := hz
  have cx := canon_view x
  rw [view_add, hs]
  cases hv : view x with
  | notANumber => exact absurd hv hx
  | infinity s' =>
    rw [show UnpackedFloat.add .binary64 (.infinity s') (.zero s) = .infinity s' from rfl,
      unpack_pack_infinity]
    exact ⟨UnpackedFloat.noConfusion, rfl⟩
  | zero s' =>
    simp only [UnpackedFloat.add]
    split <;> rw [unpack_pack_zero] <;> exact ⟨UnpackedFloat.noConfusion, rfl⟩
  | finite s' m e hm =>
    rw [hv] at cx
    rw [show UnpackedFloat.add .binary64 (.finite s' m e hm) (.zero s) = .finite s' m e hm from rfl,
      unpack_pack_canonical hm cx]
    exact ⟨UnpackedFloat.noConfusion, rfl⟩

/-- Adding a zero to a value that is not NaN gives a value equal to it. -/
theorem add_isZero_beq (hx : view x ≠ .notANumber) {z : Float} (hz : IsZero z) :
    (x + z == x) = true :=
  have h := rank_add_isZero hx hz
  (beq_iff_rank h.1 hx).2 h.2

/-- Subtracting a larger value gives at most zero. -/
theorem sub_nonpos_of_lt {y : Float} (hxy : x < y) : x - y ≤ 0 := by
  have hd := sub_ne_nan_of_lt hxy
  refine float_le_of_not_lt view_zero_ne_nan hd ?_
  intro hpos
  have hyx := lt_of_sub_pos hpos
  have hx := ne_nan_of_lt_left hxy
  have hy := ne_nan_of_lt_right hxy
  have := (lt_iff_rank hx hy).1 hxy
  have := (lt_iff_rank hy hx).1 hyx
  omega

end Order

end Spacecraft.Binary64
