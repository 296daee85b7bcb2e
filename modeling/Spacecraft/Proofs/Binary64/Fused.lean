import Mathlib
import Spacecraft.Proofs.Binary64.Bits
import Spacecraft.Proofs.Binary64.Symmetry

/-!
# Fused products with a zero factor

The model's fused multiply-add computes `a · b + c` exactly and rounds once; when a NaN or an
infinity takes part it falls back to the plain product and sum. With a zero factor and an addend
that is a zero or NaN, the result is again a zero or NaN, whatever the other factor is
(`fma_zeroOrNaN`): the exact sum is zero, and a factor that is not finite makes the product NaN.
Such a value is one of three floats (`zeroOrNaN_iff`), so what follows from it can be
evaluated.
-/

namespace Spacecraft.Binary64

/-- A zero of either sign, or NaN. -/
def ZeroOrNaN (x : Float) : Prop := IsZero x ∨ view x = .notANumber

theorem zeroOrNaN_iff {x : Float} : ZeroOrNaN x ↔ x = 0.0 ∨ x = -0.0 ∨ x = 0.0 / 0.0 := by
  constructor
  · rintro (⟨s, hs⟩ | hn)
    · cases s
      · exact .inr (.inl (eq_of_view_eq (by rw [hs]; rfl)))
      · exact .inl (eq_of_view_eq (by rw [hs]; rfl))
    · exact .inr (.inr (eq_nan_of_isNaN (isNaN_eq_true_iff.2 hn)))
  · rintro (rfl | rfl | rfl)
    · exact .inl ⟨_, rfl⟩
    · exact .inl ⟨_, rfl⟩
    · exact .inr rfl

theorem ZeroOrNaN.add {x y : Float} (hx : ZeroOrNaN x) (hy : ZeroOrNaN y) :
    ZeroOrNaN (x + y) := by
  rcases zeroOrNaN_iff.1 hx with rfl | rfl | rfl <;>
    rcases zeroOrNaN_iff.1 hy with rfl | rfl | rfl <;>
    exact zeroOrNaN_iff.2 (by decide)

theorem zeroOrNaN_mul {a b : Float} (hab : IsZero a ∨ IsZero b) : ZeroOrNaN (a * b) := by
  rcases hab with ha | hb
  · rw [mul_comm_float]
    exact isZero_mul b ha
  · exact isZero_mul a hb

section Decode

variable {x : Float} {d : Dyadic}

theorem ne_nan_of_decode (h : decode x = some d) : view x ≠ .notANumber := by
  intro hn
  have hnone : (decode (0.0 / 0.0 : Float)).isNone = true := by decide
  rw [← eq_nan_of_isNaN (isNaN_eq_true_iff.2 hn), h] at hnone
  cases hnone

theorem mant_eq_zero_of_decode (h : decode x = some d) (hz : IsZero x) : d.mant = 0 := by
  have h0 : (0.0 : Float) = 0 := by decide
  rw [← beq_zero_iff h, h0]
  exact isZero_iff_beq_zero.1 hz

theorem signed_eq_zero (h : d.mant = 0) : Dyadic.signed d = 0 := by
  simp [Dyadic.signed, h]

end Decode

theorem isZero_signedZero (neg : Bool) : IsZero (signedZero neg) := by
  cases neg <;> exact isZero_iff_beq_zero.2 (by decide)

/-- A fused product with a zero factor and a zero or NaN addend is a zero or NaN. -/
theorem fma_zeroOrNaN {a b c : Float} (hab : IsZero a ∨ IsZero b) (hc : ZeroOrNaN c) :
    ZeroOrNaN (fma a b c) := by
  unfold fma
  split
  · -- all three finite: the exact product and the addend are zero, so the sum is a zero
    rename_i da db dc hda hdb hdc
    have hc0 : IsZero c := hc.resolve_right (ne_nan_of_decode hdc)
    have hprod : Dyadic.signed da * Dyadic.signed db = 0 := by
      rcases hab with ha | hb
      · rw [signed_eq_zero (mant_eq_zero_of_decode hda ha), zero_mul]
      · rw [signed_eq_zero (mant_eq_zero_of_decode hdb hb), mul_zero]
    simp only [addTerms, hprod, signed_eq_zero (mant_eq_zero_of_decode hdc hc0), zero_mul,
      add_zero, if_true]
    split
    · exact .inl (isZero_signedZero _)
    · exact .inl (isZero_iff_beq_zero.2 (by decide))
  · exact (zeroOrNaN_mul hab).add hc

/-! ### Negated factors -/

/-- The dyadic value of an unpacked float as decoding spells it: a zero has the least exponent,
and an infinity or NaN has none. -/
def dyadicOfView : Float.Model.UnpackedFloat → Option Dyadic
  | .notANumber => none
  | .infinity _ => none
  | .zero s => some ⟨s == .negative, 0, -1074⟩
  | .finite s m e _ => some ⟨s == .negative, m, e⟩

/-- Decoding reads off the unpacked form. -/
theorem decode_eq_dyadicOfView (x : Float) : decode x = dyadicOfView (view x) := by
  rw [decode_eq, view_eq_fields]
  dsimp only
  -- the sign bit gives both signs; where it is clear, the comparison with it is left to decide
  split_ifs <;> simp_all [dyadicOfView]
  all_goals
    rw [decide_eq_false (Nat.not_le.2 ‹_›)]
    rfl

/-- Negation flips the sign of a decoded value and keeps its mantissa and exponent. -/
theorem decode_neg (x : Float) :
    decode (-x) = (decode x).map fun d => { d with neg := !d.neg } := by
  rw [decode_eq_dyadicOfView, decode_eq_dyadicOfView, view_neg]
  cases view x with
  | notANumber => rfl
  | infinity s => rfl
  | zero s => cases s <;> rfl
  | finite s m e hm => cases s <;> rfl

theorem signed_flip (d : Dyadic) : Dyadic.signed { d with neg := !d.neg } = -Dyadic.signed d := by
  cases h : d.neg <;> simp [Dyadic.signed, h]

/-- Negating both factors leaves a fused product unchanged: the exact product is the same, and so
is the sign an exact zero sum takes. -/
theorem fma_neg_neg (a b c : Float) : fma (-a) (-b) c = fma a b c := by
  have hprod : -a * -b = a * b := by rw [neg_mul_float, mul_neg_float, neg_neg_float]
  unfold fma
  rw [decode_neg, decode_neg]
  cases decode a with
  | none => simp only [Option.map_none, hprod]
  | some da =>
    cases decode b with
    | none => simp only [Option.map_some, Option.map_none, hprod]
    | some db =>
      cases decode c with
      | none => simp only [Option.map_some, hprod]
      | some dc =>
        simp only [Option.map_some, signed_flip, neg_mul_neg]
        cases da.neg <;> cases db.neg <;> rfl

end Spacecraft.Binary64
