import Mathlib
import Spacecraft.Proofs.Binary64.Order

/-!
# Signs and monotonicity of binary64 arithmetic

The arithmetic of `Float` computes the exact result of two finite operands and rounds it
once. By `round_units`, the rounded value is *faithful* (`Faithful`): no finite binary64 value
lies strictly between the exact result and the rounded one. That is all the order facts
below need: a difference of ordered floats is positive and a positive difference orders its
operands (`sub_pos_of_lt`, `lt_of_sub_pos`), adding a value at least zero never decreases a
finite float (`le_add_of_nonneg`), and products and quotients of values at least zero are at
least zero (`mul_nonneg_of_pos`, `div_nonneg_of_pos`). Infinite operands are handled by the
special cases of the model, which never pass through rounding.
-/

namespace Spacecraft.Binary64

open Float.Model UnpackedFloat

theorem view_sub (x y : Float) :
    view (x - y) = unpack .binary64 (pack .binary64 (UnpackedFloat.sub .binary64 (view x) (view y))) := by
  simp [view, HSub.hSub, Sub.sub, Float.sub, Float.Model.sub, Float.Model.unpack, Float.Model.pack]

theorem view_add (x y : Float) :
    view (x + y) = unpack .binary64 (pack .binary64 (UnpackedFloat.add .binary64 (view x) (view y))) := by
  simp [view, HAdd.hAdd, Add.add, Float.add, Float.Model.add, Float.Model.unpack, Float.Model.pack]

theorem view_mul (x y : Float) :
    view (x * y) = unpack .binary64 (pack .binary64 (UnpackedFloat.mul .binary64 (view x) (view y))) := by
  simp [view, HMul.hMul, Mul.mul, Float.mul, Float.Model.mul, Float.Model.unpack, Float.Model.pack]

theorem view_div (x y : Float) :
    view (x / y) = unpack .binary64 (pack .binary64 (UnpackedFloat.div .binary64 (view x) (view y))) := by
  simp [view, HDiv.hDiv, Div.div, Float.div, Float.Model.div, Float.Model.unpack, Float.Model.pack]

theorem unpack_pack_zero (s : Sign) : unpack .binary64 (pack .binary64 (.zero s)) = .zero s :=
  unpack_packedZero

theorem unpack_pack_infinity (s : Sign) : unpack .binary64 (pack .binary64 (.infinity s)) = .infinity s :=
  unpack_packedInfinity s

theorem unpack_pack_nan : unpack .binary64 (pack .binary64 .notANumber) = .notANumber :=
  unpack_packedNaN

theorem unpack_pack_canonical {s : Sign} {m : Nat} {e : Int} (hm : 0 < m) (hc : Canonical m e) :
    unpack .binary64 (pack .binary64 (.finite s m e hm)) = .finite s m e hm := by
  rw [unpack_pack_onGrid s hm hc.toOnGrid, if_pos hc.exp_le]

/-- `u` rounds the exact value `V` (in units of `2⁻¹⁰⁷⁴`) faithfully: it is a canonical value
other than NaN, and no finite value lies strictly between `V` and `u`. -/
structure Faithful (V : Int) (u : UnpackedFloat) : Prop where
  canon : Canon u
  ne_nan : u ≠ .notANumber
  le_of_le : ∀ z, Canon z → z.isFinite = true → rank z ≤ V → rank z ≤ rank u
  le_of_ge : ∀ z, Canon z → z.isFinite = true → V ≤ rank z → rank u ≤ rank z

/-- A finite value is its own faithful rounding. -/
theorem faithful_self {u : UnpackedFloat} (hc : Canon u) (hf : u.isFinite = true) :
    Faithful (rank u) u :=
  ⟨hc, ne_nan_of_isFinite hf, fun _ _ _ h => h, fun _ _ _ h => h⟩

/-- The least positive subnormal, `2⁻¹⁰⁷⁴`, one unit. -/
theorem canon_least : Canon (.finite .positive 1 (-1074) Nat.one_pos) :=
  ⟨⟨by norm_num, le_rfl, Or.inr rfl⟩, by norm_num⟩

theorem rank_least : rank (.finite .positive 1 (-1074) Nat.one_pos) = 1 := rfl

/-- A faithful rounding of a value of at least one unit is positive. -/
theorem Faithful.pos {V : Int} {u : UnpackedFloat} (h : Faithful V u) (hV : 1 ≤ V) : 0 < rank u := by
  have := h.le_of_le _ canon_least rfl (by rw [rank_least]; exact hV)
  rw [rank_least] at this
  omega

/-- A faithful rounding of a value at most zero is at most zero. -/
theorem Faithful.nonpos {V : Int} {u : UnpackedFloat} (h : Faithful V u) (hV : V ≤ 0) : rank u ≤ 0 :=
  h.le_of_ge (.zero .positive) trivial rfl hV

/-- The result of rounding a finite value, packed and unpacked again, rounds it faithfully. -/
theorem faithful_round (s : Sign) {M : Nat} (hM : 0 < M) {E : Int} (hE : -1074 ≤ E) :
    Faithful (s.apply (units M E))
      (unpack .binary64 (pack .binary64 (UnpackedFloat.round .binary64 s M E))) := by
  obtain ⟨r, e, hr, heq, hg, hlow, hup⟩ := round_units s hM hE
  have hU := units_pos (e := E) hM
  rw [heq, unpack_pack_onGrid s hr hg]
  split_ifs with he
  · -- the result fits: a finite value of the sign of `V`
    have hR := units_pos (e := e) hr
    refine ⟨⟨hg, he⟩, by simp, fun z hz hzf h => ?_, fun z hz hzf h => ?_⟩ <;>
    cases z with
    | finite sz mz ez hmz =>
      have := hlow mz ez hz.toOnGrid
      have := hup mz ez hz.toOnGrid
      have := units_pos (e := ez) hmz
      cases s <;> cases sz <;> simp only [rank, Sign.apply] at h ⊢ <;> omega
    | zero sz => cases s <;> simp only [rank, Sign.apply] at h ⊢ <;> omega
    | _ => simp [UnpackedFloat.isFinite] at hzf
  · -- the result overflows to the infinity of the sign of `V`
    have hR : infRank ≤ units r e := by
      have h52 : 2 ^ 52 ≤ r := hg.normal.resolve_right (by omega)
      calc infRank = 2 ^ 52 * grid 972 := by
            unfold grid infRank unitBits; rw [← pow_add]; congr 1
        _ ≤ r * grid e := Nat.mul_le_mul h52 (Nat.pow_le_pow_right (by norm_num) (by omega))
    refine ⟨trivial, by simp, fun z hz hzf h => ?_, fun z hz hzf h => ?_⟩ <;>
    cases z with
    | finite sz mz ez hmz =>
      have := hup mz ez hz.toOnGrid
      have := units_lt_infRank hz
      have := units_pos (e := ez) hmz
      cases s <;> cases sz <;> simp only [rank, Sign.apply] at h ⊢ <;> omega
    | zero sz => cases s <;> simp only [rank, Sign.apply] at h ⊢ <;> omega
    | _ => simp [UnpackedFloat.isFinite] at hzf

/-- Normalizing an exact result: the integer mantissa `n` at exponent `E` is rounded
faithfully. -/
theorem faithful_normalize (n : Int) {E : Int} (hE : -1074 ≤ E) (zs : Sign) :
    Faithful (n * grid E) (unpack .binary64 (pack .binary64 (UnpackedFloat.normalize .binary64 n E zs))) := by
  unfold UnpackedFloat.normalize
  rcases lt_trichotomy n 0 with hn | rfl | hn
  · rw [compare_lt_iff_lt.2 hn]
    have h := faithful_round .negative (M := (-n).toNat) (by omega) hE
    have hv : Sign.negative.apply (units (-n).toNat E) = n * grid E := by
      simp only [Sign.apply, units]; push_cast; rw [Int.toNat_of_nonneg (by omega)]; ring
    rwa [hv] at h
  · rw [compare_eq_iff_eq.2 rfl, unpack_pack_zero, Int.zero_mul]
    exact faithful_self (u := .zero zs) trivial rfl
  · rw [compare_gt_iff_gt.2 hn]
    have h := faithful_round .positive (M := n.toNat) (by omega) hE
    have hv : Sign.positive.apply (units n.toNat E) = n * grid E := by
      simp only [Sign.apply, units]; push_cast; rw [Int.toNat_of_nonneg (by omega)]
    rwa [hv] at h

/-- Shifting a mantissa to a lower exponent keeps its value. -/
theorem decreaseExponent_units (m : Nat) {e E : Int} (hE : -1074 ≤ E) (h : E ≤ e) :
    (decreaseExponent m e E).1 * grid E = units m e := by
  simp only [decreaseExponent, Nat.shiftLeft_eq, units]
  rw [Nat.mul_assoc, Nat.mul_comm (2 ^ _), ← grid_add E _ hE]
  congr 2
  omega

theorem sign_apply_mul (s : Sign) (a : Nat) (g : Nat) :
    s.apply ((a : Int)) * g = s.apply ((a * g : Nat) : Int) := by
  cases s <;> simp [Sign.apply]

/-- The difference of two finite values, as the model computes it, rounds their exact
difference faithfully. -/
theorem faithful_sub {u v : UnpackedFloat} (hu : Canon u) (hv : Canon v)
    (hfu : u.isFinite = true) (hfv : v.isFinite = true) :
    Faithful (rank u - rank v) (unpack .binary64 (pack .binary64 (UnpackedFloat.sub .binary64 u v))) := by
  cases u with
  | zero s₁ =>
    cases v with
    | zero s₂ =>
      simp only [UnpackedFloat.sub]
      split <;> rw [unpack_pack_zero] <;> exact faithful_self (u := .zero _) trivial rfl
    | finite s₂ m₂ e₂ hm₂ =>
      simp only [UnpackedFloat.sub, unpack_pack_canonical hm₂ hv, rank_zero, rank_finite]
      have := faithful_self (u := .finite (-s₂) m₂ e₂ hm₂) hv rfl
      rw [rank_finite] at this
      cases s₂ <;> simpa [Sign.apply] using this
    | _ => simp [UnpackedFloat.isFinite] at hfv
  | finite s₁ m₁ e₁ hm₁ =>
    cases v with
    | zero s₂ =>
      simp only [UnpackedFloat.sub, unpack_pack_canonical hm₁ hu, rank_zero, Int.sub_zero]
      exact faithful_self hu rfl
    | finite s₂ m₂ e₂ hm₂ =>
      simp only [UnpackedFloat.sub]
      have hE : -1074 ≤ min e₁ e₂ := le_min hu.exp_ge hv.exp_ge
      have h := faithful_normalize (s₁.apply (decreaseExponent m₁ e₁ (min e₁ e₂)).1 -
        s₂.apply (decreaseExponent m₂ e₂ (min e₁ e₂)).1) hE .positive
      have hv' : (s₁.apply (decreaseExponent m₁ e₁ (min e₁ e₂)).1 -
          s₂.apply (decreaseExponent m₂ e₂ (min e₁ e₂)).1) * grid (min e₁ e₂) =
          rank (.finite s₁ m₁ e₁ hm₁) - rank (.finite s₂ m₂ e₂ hm₂) := by
        rw [Int.sub_mul, sign_apply_mul, sign_apply_mul,
          decreaseExponent_units m₁ hE (min_le_left _ _),
          decreaseExponent_units m₂ hE (min_le_right _ _), rank_finite, rank_finite]
      rwa [hv'] at h
    | _ => simp [UnpackedFloat.isFinite] at hfv
  | _ => simp [UnpackedFloat.isFinite] at hfu

/-- The sum of two finite values, as the model computes it, rounds their exact sum
faithfully. -/
theorem faithful_add {u v : UnpackedFloat} (hu : Canon u) (hv : Canon v)
    (hfu : u.isFinite = true) (hfv : v.isFinite = true) :
    Faithful (rank u + rank v) (unpack .binary64 (pack .binary64 (UnpackedFloat.add .binary64 u v))) := by
  cases u with
  | zero s₁ =>
    cases v with
    | zero s₂ =>
      simp only [UnpackedFloat.add]
      split <;> rw [unpack_pack_zero] <;> exact faithful_self (u := .zero _) trivial rfl
    | finite s₂ m₂ e₂ hm₂ =>
      simp only [UnpackedFloat.add, unpack_pack_canonical hm₂ hv, rank_zero, Int.zero_add]
      exact faithful_self hv rfl
    | _ => simp [UnpackedFloat.isFinite] at hfv
  | finite s₁ m₁ e₁ hm₁ =>
    cases v with
    | zero s₂ =>
      simp only [UnpackedFloat.add, unpack_pack_canonical hm₁ hu, rank_zero, Int.add_zero]
      exact faithful_self hu rfl
    | finite s₂ m₂ e₂ hm₂ =>
      simp only [UnpackedFloat.add]
      have hE : -1074 ≤ min e₁ e₂ := le_min hu.exp_ge hv.exp_ge
      have h := faithful_normalize (s₁.apply (decreaseExponent m₁ e₁ (min e₁ e₂)).1 +
        s₂.apply (decreaseExponent m₂ e₂ (min e₁ e₂)).1) hE .positive
      have hv' : (s₁.apply (decreaseExponent m₁ e₁ (min e₁ e₂)).1 +
          s₂.apply (decreaseExponent m₂ e₂ (min e₁ e₂)).1) * grid (min e₁ e₂) =
          rank (.finite s₁ m₁ e₁ hm₁) + rank (.finite s₂ m₂ e₂ hm₂) := by
        rw [Int.add_mul, sign_apply_mul, sign_apply_mul,
          decreaseExponent_units m₁ hE (min_le_left _ _),
          decreaseExponent_units m₂ hE (min_le_right _ _), rank_finite, rank_finite]
      rwa [hv'] at h
    | _ => simp [UnpackedFloat.isFinite] at hfv
  | _ => simp [UnpackedFloat.isFinite] at hfu

/-- The sign of a difference. Subtracting a smaller value gives a positive result, and
subtracting a value at least as large gives NaN or a result at most zero. -/
theorem sub_sign {u v : UnpackedFloat} (cu : Canon u) (cv : Canon v) (hu : u ≠ .notANumber)
    (hv : v ≠ .notANumber) :
    (rank u < rank v → 0 < rank (unpack .binary64 (pack .binary64 (UnpackedFloat.sub .binary64 v u))) ∧
        unpack .binary64 (pack .binary64 (UnpackedFloat.sub .binary64 v u)) ≠ .notANumber) ∧
      (rank v ≤ rank u →
        unpack .binary64 (pack .binary64 (UnpackedFloat.sub .binary64 v u)) = .notANumber ∨
          rank (unpack .binary64 (pack .binary64 (UnpackedFloat.sub .binary64 v u))) ≤ 0) := by
  have bu := rank_le_infRank cu
  have bv := rank_le_infRank cv
  have hB := infRank_pos
  have hpos := unpack_pack_infinity .positive
  have hneg := unpack_pack_infinity .negative
  -- the three outcomes an infinite operand can force
  have rNan : unpack .binary64 (pack .binary64 .notANumber) = .notANumber := unpack_pack_nan
  have rPos : 0 < rank (unpack .binary64 (pack .binary64 (.infinity .positive))) ∧
      unpack .binary64 (pack .binary64 (.infinity .positive)) ≠ .notANumber := by
    rw [unpack_pack_infinity]; exact ⟨hB, by simp⟩
  have rNeg : rank (unpack .binary64 (pack .binary64 (.infinity .negative))) ≤ 0 := by
    rw [unpack_pack_infinity, rank_negInf]; omega
  cases v with
  | notANumber => exact absurd rfl hv
  | infinity sv =>
    cases sv with
    | negative =>
      -- `-∞ - u`: NaN for `u = -∞`, otherwise `-∞`
      refine ⟨fun h => by rw [rank_negInf] at h; omega, fun _ => ?_⟩
      cases u with
      | notANumber => exact absurd rfl hu
      | infinity su =>
        cases su
        · exact Or.inl rNan
        · exact Or.inr rNeg
      | zero su => exact Or.inr rNeg
      | finite su mu eu hmu => exact Or.inr rNeg
    | positive =>
      -- `+∞ - u`: NaN for `u = +∞`, otherwise `+∞`
      cases u with
      | notANumber => exact absurd rfl hu
      | infinity su =>
        cases su
        · exact ⟨fun _ => rPos, fun h => by simp at h; omega⟩
        · exact ⟨fun h => by simp at h, fun _ => Or.inl rNan⟩
      | zero su
      | finite su mu eu hmu =>
        have := rank_lt_infRank cu rfl
        exact ⟨fun _ => rPos, fun h => by rw [rank_posInf] at h; omega⟩
  | zero sv
  | finite sv mv ev hmv =>
    cases u with
    | notANumber => exact absurd rfl hu
    | infinity su =>
      have := rank_lt_infRank cv rfl
      cases su
      · exact ⟨fun _ => rPos, fun h => by rw [rank_negInf] at h; omega⟩
      · exact ⟨fun h => by rw [rank_posInf] at h; omega, fun _ => Or.inr rNeg⟩
    | zero su
    | finite su mu eu hmu =>
      have h := faithful_sub cv cu rfl rfl
      exact ⟨fun hlt => ⟨h.pos (by omega), h.ne_nan⟩, fun hle => Or.inr (h.nonpos (by omega))⟩

/-- Subtracting a smaller float from a larger one gives a positive result. -/
theorem sub_pos_of_lt {x y : Float} (h : x < y) : 0 < y - x := by
  have hx := ne_nan_of_lt_left h
  have hy := ne_nan_of_lt_right h
  have hs := (sub_sign (canon_view x) (canon_view y) hx hy).1 ((lt_iff_rank hx hy).1 h)
  rw [← view_sub] at hs
  exact (pos_iff_rank hs.2).2 hs.1

/-- A positive difference comes from a smaller float subtracted from a larger one. -/
theorem lt_of_sub_pos {x y : Float} (h : 0 < y - x) : x < y := by
  have hd := ne_nan_of_lt_right h
  have hx : view x ≠ .notANumber := by
    intro hx; apply hd; rw [view_sub, hx]; cases view y <;> exact unpack_pack_nan
  have hy : view y ≠ .notANumber := by
    intro hy; apply hd; rw [view_sub, hy]; exact unpack_pack_nan
  rw [lt_iff_rank hx hy]
  by_contra hle
  have hs := (sub_sign (canon_view x) (canon_view y) hx hy).2 (by omega)
  rw [← view_sub] at hs
  rcases hs with hs | hs
  · exact hd hs
  · exact absurd ((pos_iff_rank hd).1 h) (by omega)

/-- Adding a value at least zero to a finite value does not make it smaller. -/
theorem add_nonneg_mono {u v : UnpackedFloat} (cu : Canon u) (cv : Canon v)
    (hu : u.isFinite = true) (hv : v ≠ .notANumber) (hr : 0 ≤ rank v) :
    unpack .binary64 (pack .binary64 (UnpackedFloat.add .binary64 u v)) ≠ .notANumber ∧
      rank u ≤ rank (unpack .binary64 (pack .binary64 (UnpackedFloat.add .binary64 u v))) := by
  have bu := rank_lt_infRank cu hu
  cases v with
  | notANumber => exact absurd rfl hv
  | infinity sv =>
    cases sv
    · rw [rank_negInf] at hr; have := infRank_pos; omega
    · -- a finite value plus `+∞`
      cases u with
      | zero su | finite su mu eu hmu =>
        rw [show UnpackedFloat.add .binary64 _ _ = .infinity .positive from rfl,
          unpack_pack_infinity, rank_posInf]
        exact ⟨by simp, le_of_lt bu.2⟩
      | _ => simp [UnpackedFloat.isFinite] at hu
  | zero sv | finite sv mv ev hmv =>
    have hf := faithful_add cu cv hu rfl
    exact ⟨hf.ne_nan, hf.le_of_le u cu hu (by omega)⟩

/-- Adding a float at least zero to a finite float does not make it smaller. -/
theorem le_add_of_nonneg {x h : Float} (hx : x.isFinite = true) (hh : 0 ≤ h) : x ≤ x + h := by
  have hhn := ne_nan_of_le_right hh
  have hs := add_nonneg_mono (canon_view x) (canon_view h) hx hhn ((nonneg_iff_rank hhn).1 hh)
  rw [← view_add] at hs
  exact (le_iff_rank (ne_nan_of_isFinite hx) hs.1).2 hs.2

/-- An unpacked value of sign `s`: a zero, a finite value or an infinity with that sign. -/
def HasSign (s : Sign) : UnpackedFloat → Prop
  | .infinity s' => s' = s
  | .zero s' => s' = s
  | .finite s' _ _ _ => s' = s
  | .notANumber => False

theorem hasSign_packComponents (s : Sign) {ex : BitVec 11} (hex : ex ≠ -1#11) (mt : BitVec 52) :
    HasSign s (unpack .binary64 (packComponents .binary64 s ex mt)) := by
  unfold UnpackedFloat.unpack
  simp only [unpackMantissa_packComponents, unpackExponent_packComponents,
    unpackSign_packComponents, Sign.ofBitVec_toBitVec]
  rw [if_neg hex]
  split_ifs <;> rfl

/-- Packing a finite value keeps its sign, whatever its mantissa and exponent. -/
theorem hasSign_pack_finite (s : Sign) (m : Nat) (e : Int) (hm : 0 < m) :
    HasSign s (unpack .binary64 (pack .binary64 (.finite s m e hm))) := by
  unfold UnpackedFloat.pack
  dsimp only
  split_ifs with h1
  · rw [unpack_packedInfinity]; rfl
  · apply hasSign_packComponents
    intro h
    have := congrArg BitVec.toNat h
    simp at this h1
    omega
  · exact hasSign_packComponents s (by decide) _

/-- Rounding keeps the sign it is given. -/
theorem hasSign_roundWithAccuracy (s : Sign) (m : Nat) (e : Int) (acc : Accuracy) :
    HasSign s (unpack .binary64 (pack .binary64 (roundWithAccuracy .binary64 s m e acc))) := by
  have h : ∀ u : UnpackedFloat, (u = .zero s ∨ ∃ m' e' h', u = .finite s m' e' h') →
      HasSign s (unpack .binary64 (pack .binary64 u)) := by
    rintro u (rfl | ⟨m', e', h', rfl⟩)
    · rw [unpack_pack_zero]; rfl
    · exact hasSign_pack_finite _ _ _ _
  apply h
  unfold roundWithAccuracy
  dsimp only
  split
  · exact Or.inl rfl
  · exact Or.inr ⟨_, _, Nat.pos_of_ne_zero (by assumption), rfl⟩

theorem HasSign.nonneg {u : UnpackedFloat} (h : HasSign .positive u) :
    u ≠ .notANumber ∧ 0 ≤ rank u := by
  cases u with
  | infinity s => cases h; exact ⟨by simp, le_of_lt infRank_pos⟩
  | zero s => exact ⟨by simp, le_rfl⟩
  | finite s m e hm => cases h; exact ⟨by simp, by simp [rank, Sign.apply]⟩
  | notANumber => exact h.elim

theorem pos_finite_sign {u : UnpackedFloat} (hu : u.isFinite = true) (h : 0 < rank u) :
    ∃ m e hm, u = .finite .positive m e hm := by
  cases u with
  | finite s m e hm =>
    cases s
    · simp [rank, Sign.apply] at h; omega
    · exact ⟨m, e, hm, rfl⟩
  | zero s => simp [rank] at h
  | _ => simp [UnpackedFloat.isFinite] at hu

/-- A positive finite value times a value at least zero is at least zero. -/
theorem mul_nonneg_unpacked {u v : UnpackedFloat} (hu : u.isFinite = true) (hu0 : 0 < rank u)
    (hv : v ≠ .notANumber) (hv0 : 0 ≤ rank v) :
    HasSign .positive (unpack .binary64 (pack .binary64 (UnpackedFloat.mul .binary64 u v))) ∨
      unpack .binary64 (pack .binary64 (UnpackedFloat.mul .binary64 u v)) = .zero .negative := by
  obtain ⟨m, e, hm, rfl⟩ := pos_finite_sign hu hu0
  cases v with
  | notANumber => exact absurd rfl hv
  | infinity sv =>
    cases sv
    · rw [rank_negInf] at hv0; have := infRank_pos; omega
    · left; rw [show UnpackedFloat.mul .binary64 _ _ = .infinity .positive from rfl,
        unpack_pack_infinity]; rfl
  | zero sv =>
    cases sv
    · right; rw [show UnpackedFloat.mul .binary64 _ _ = .zero .negative from rfl, unpack_pack_zero]
    · left; rw [show UnpackedFloat.mul .binary64 _ _ = .zero .positive from rfl, unpack_pack_zero]; rfl
  | finite sv mv ev hmv =>
    cases sv
    · simp [rank, Sign.apply] at hv0; have := units_pos (e := ev) hmv; omega
    · left; exact hasSign_roundWithAccuracy _ _ _ _

/-- A value at least zero over a positive finite value is at least zero. -/
theorem div_nonneg_unpacked {u v : UnpackedFloat} (hu : u ≠ .notANumber) (hu0 : 0 ≤ rank u)
    (hv : v.isFinite = true) (hv0 : 0 < rank v) :
    HasSign .positive (unpack .binary64 (pack .binary64 (UnpackedFloat.div .binary64 u v))) ∨
      unpack .binary64 (pack .binary64 (UnpackedFloat.div .binary64 u v)) = .zero .negative := by
  obtain ⟨m, e, hm, rfl⟩ := pos_finite_sign hv hv0
  cases u with
  | notANumber => exact absurd rfl hu
  | infinity su =>
    cases su
    · rw [rank_negInf] at hu0; have := infRank_pos; omega
    · left; rw [show UnpackedFloat.div .binary64 _ _ = .infinity .positive from rfl,
        unpack_pack_infinity]; rfl
  | zero su =>
    cases su
    · right; rw [show UnpackedFloat.div .binary64 _ _ = .zero .negative from rfl, unpack_pack_zero]
    · left; rw [show UnpackedFloat.div .binary64 _ _ = .zero .positive from rfl, unpack_pack_zero]; rfl
  | finite su mu eu hmu =>
    cases su
    · simp [rank, Sign.apply] at hu0; have := units_pos (e := eu) hmu; omega
    · left; exact hasSign_roundWithAccuracy _ _ _ _

theorem nonneg_of_sign {x : Float}
    (h : HasSign .positive (view x) ∨ view x = .zero .negative) : 0 ≤ x := by
  rcases h with h | h
  · exact (nonneg_iff_rank h.nonneg.1).2 h.nonneg.2
  · exact (nonneg_iff_rank (by rw [h]; simp)).2 (by rw [h, rank_zero])

/-- A positive finite float times a float at least zero is at least zero. -/
theorem mul_nonneg_of_pos {x y : Float} (hx : 0 < x) (hxf : x.isFinite = true) (hy : 0 ≤ y) :
    0 ≤ x * y := by
  have hyn := ne_nan_of_le_right hy
  apply nonneg_of_sign
  rw [view_mul]
  exact mul_nonneg_unpacked hxf ((pos_iff_rank (ne_nan_of_isFinite hxf)).1 hx) hyn
    ((nonneg_iff_rank hyn).1 hy)

/-- A float at least zero over a positive finite float is at least zero. -/
theorem div_nonneg_of_pos {x y : Float} (hx : 0 ≤ x) (hy : 0 < y) (hyf : y.isFinite = true) :
    0 ≤ x / y := by
  have hxn := ne_nan_of_le_right hx
  apply nonneg_of_sign
  rw [view_div]
  exact div_nonneg_unpacked hxn ((nonneg_iff_rank hxn).1 hx) hyf
    ((pos_iff_rank (ne_nan_of_isFinite hyf)).1 hy)

end Spacecraft.Binary64
