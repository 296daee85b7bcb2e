import Mathlib
import Spacecraft.Dynamics.Force
import Spacecraft.Proofs.Binary64.Symmetry
import Spacecraft.Proofs.Exact.Detumbling
import Spacecraft.Proofs.Exact.Elementary
import Spacecraft.Proofs.Exact.Gravity

/-!
# The penumbra of the conical shadow

The conical shadow sees the Sun and the Earth from the satellite as two disks, of apparent
radii `a` and `b` at an angular separation `c`, and lights the satellite by the visible fraction
of the solar disk: all of it when the disks are apart (`c ≥ a + b`), none in the umbra
(`c ≤ b - a`), `1 - b²/a²` when the Earth's disk transits inside the Sun's (`c ≤ a - b`), and
otherwise one less the overlap of the two circles over the area of the solar disk. The radiation
pressure pushes away from the Sun with `P (AU/d)² C_r A` times that light.

The formulas are written here once over any `Scalar` with the elementary functions; at `Float`
they are the model's. In exact arithmetic the overlap of two circles at distance `c` shrinks as
`c` grows, at the rate `2y` of the length of their common chord, and meets the closed forms of the
other branches where the circles touch, so the light is a continuous, non-decreasing function of
the separation, from `0` in the umbra to `1` in full light, and, on the penumbra, a continuous
function of the radii and the separation, hence of the satellite's position. The force of the
pressure is zero exactly when the light is.

In binary64 a satellite within `10⁻¹⁶²` m of the centre of the Earth has a distance that
underflows to zero, and the light is refused as a division by zero.
-/

namespace Spacecraft

namespace Shadow

section Formulas

variable {K : Type} [Scalar K] [LT K] [DecidableLT K] [LE K] [DecidableLE K] [Elementary K]

/-- The smaller of two numbers, keeping the first unless the second is below it. -/
def lesser (a b : K) : K := if b < a then b else a

/-- The larger of two numbers, keeping the first unless the second is above it. -/
def greater (a b : K) : K := if b > a then b else a

/-- The visible fraction of a solar disk of apparent radius `a` behind a disk of apparent radius
`b` at the angular separation `c`. -/
def fraction (a b c : K) : Outcome K := do
  if c ≥ a + b then return 1.0
  if c ≤ b - a then return 0.0
  if c ≤ a - b then return 1.0 - (b * b) / (a * a)
  let x ← checkedDiv Fault.floatDivision (c * c + a * a - b * b) (2.0 * c)
  let y := Scalar.sqrt (greater (a * a - x * x) 0.0)
  let overlap := a * a * Elementary.acos (Detumble.clip (x / a) (-1.0) 1.0) +
    b * b * Elementary.acos (Detumble.clip ((c - x) / b) (-1.0) 1.0) - c * y
  return Detumble.clip (1.0 - overlap / (Elementary.pi * a * a)) 0.0 1.0

/-- The visible fraction of the solar disk from the point `p`, with the Sun at `sun`, behind a
body of radius `radius` at the origin. -/
def visibleFraction (p sun : Fin 3 → K) (radius sunRad : K) : Outcome K := do
  let toSun : Fin 3 → K := fun i => sun i - p i
  let r := Scalar.sqrt (Pointing.dot p p)
  let d := Scalar.sqrt (Pointing.dot toSun toSun)
  let a := Elementary.asin (lesser (← checkedDiv Fault.floatDivision sunRad d) 1.0)
  let b := Elementary.asin (lesser (← checkedDiv Fault.floatDivision radius r) 1.0)
  let cosC ← checkedDiv Fault.floatDivision (Pointing.dot (fun i => -p i) toSun) (r * d)
  fraction a b (Elementary.acos (Detumble.clip cosC (-1.0) 1.0))

/-- The astronomical unit [m]. -/
def astronomicalUnit : K := 1.495978707e11

/-- The radiation force at `p` with the Sun at `sun` under the light `lit`: none without light,
and otherwise `P (AU/d)² C_r A lit` away from the Sun. -/
def push (lit pressure coefficient area : K) (p sun : Fin 3 → K) : Outcome (Fin 3 → K) := do
  if Scalar.isZero lit then return fun _ => 0.0
  let away : Fin 3 → K := fun i => p i - sun i
  let d := Scalar.sqrt (Pointing.dot away away)
  let ratio ← checkedDiv Fault.floatDivision astronomicalUnit d
  let magnitude := pressure * Scalar.pow ratio 2.0 * coefficient * area * lit
  return fun i => magnitude * away i / d

end Formulas

end Shadow

/-! ### The model's shadow at `Float` -/

namespace Eclipse

theorem visibleFraction_toFun (p sun : Vec3) (radius sunRad : Float) :
    visibleFraction p sun radius sunRad =
      Shadow.visibleFraction p.toFun sun.toFun radius sunRad := by
  simp only [visibleFraction, Shadow.visibleFraction, Shadow.fraction, ← Detumble.clip_float]
  rfl

end Eclipse

theorem ForceModel.radiationAt_toFun (shadow : ShadowModel) (pressure : Float) (p sun : Vec3)
    (b : Body) :
    (ForceModel.radiationAt shadow pressure p sun b).map Vec3.toFun =
      (Eclipse.illumination p sun shadow).bind fun lit =>
        Shadow.push lit pressure b.radiationCoefficient b.radiationArea p.toFun sun.toFun := by
  unfold ForceModel.radiationAt
  cases Eclipse.illumination p sun shadow with
  | error f => rfl
  | ok lit =>
    have hz : Scalar.isZero lit = (lit == 0.0) := rfl
    have hq : divOrFault astronomicalUnit (p - sun).norm =
        checkedDiv Fault.floatDivision Shadow.astronomicalUnit
          (Scalar.sqrt (Pointing.dot (fun i => p.toFun i - sun.toFun i)
            (fun i => p.toFun i - sun.toFun i))) := rfl
    unfold Shadow.push
    dsimp only [bind, Except.bind]
    rw [hz]
    cases lit == 0.0
    · simp only [Bool.false_eq_true, if_false]
      rw [hq]
      cases checkedDiv Fault.floatDivision (Shadow.astronomicalUnit : Float)
          (Scalar.sqrt (Pointing.dot (fun i => p.toFun i - sun.toFun i)
            (fun i => p.toFun i - sun.toFun i))) with
      | error f => rfl
      | ok ratio =>
        show Except.ok _ = Except.ok _
        congr 1
        funext i
        fin_cases i <;> rfl
    · show Except.ok _ = Except.ok _
      congr 1
      funext i
      fin_cases i <;> rfl

/-! ### The light in exact arithmetic -/

attribute [fun_prop] Real.continuous_arccos Real.continuous_arcsin

namespace Shadow

open Real

/-- Where the circles of radii `a` and `b` with centres `c` apart cross, the distance from the
first centre to their common chord. -/
noncomputable def chordFoot (a b c : ℝ) : ℝ := (c * c + a * a - b * b) / (2 • c)

/-- The area common to two disks of radii `a` and `b` whose centres are `c` apart, by the lens
formula: two circular sectors less the kite on the common chord, whose half-length is the root. -/
noncomputable def overlap (a b c : ℝ) : ℝ :=
  let x := chordFoot a b c
  a * a * arccos (x / a) + b * b * arccos ((c - x) / b) - c * √(max (a * a - x * x) 0)

/-- One less the overlap over the area of the solar disk, clipped into `[0, 1]`. -/
noncomputable def lensLight (a b c : ℝ) : ℝ := min 1 (max (1 - overlap a b c / (π * a * a)) 0)

/-- The visible fraction of the solar disk in exact arithmetic, branch by branch. -/
noncomputable def light (a b c : ℝ) : ℝ :=
  if a + b ≤ c then 1
  else if c ≤ b - a then 0
  else if c ≤ a - b then 1 - b * b / (a * a)
  else lensLight a b c

theorem lesser_real (u v : ℝ) : lesser u v = min u v := by
  rw [lesser, min_def]
  split_ifs with h₁ h₂ <;> first | rfl | linarith

theorem greater_real (u v : ℝ) : greater u v = max u v := by
  rw [greater, max_def]
  split_ifs with h₁ h₂ <;> first | rfl | linarith

/-- The real arc cosine already clips its argument into `[-1, 1]`. -/
theorem arccos_clip (t : ℝ) : arccos (Detumble.clip t (-1) 1) = arccos t := by
  rw [Detumble.clip_real]
  rcases le_total t (-1) with h | h
  · rw [max_eq_right h, min_eq_right (by norm_num), arccos_of_le_neg_one h, arccos_neg_one]
  rcases le_total t 1 with h' | h'
  · rw [max_eq_left h, min_eq_right h']
  · rw [max_eq_left h, min_eq_left h', arccos_of_one_le h', arccos_one]

/-- Over the real numbers the shadow's fraction is `light`: no branch is refused, since the
lens branch is reached only at a positive separation. -/
theorem fraction_real (a b c : ℝ) : fraction a b c = .ok (light a b c) := by
  have h1 : (1.0 : ℝ) = 1 := by norm_num
  have h0 : (0.0 : ℝ) = 0 := by norm_num
  have h2 : (2.0 : ℝ) * c = 2 • c := by norm_num [two_nsmul, two_mul]
  unfold fraction light lensLight
  simp only [ge_iff_le, Scalar.real_add, Scalar.real_sub, Scalar.real_mul, h1, h0]
  split_ifs with hf hu ht
  · rfl
  · rfl
  · rfl
  · -- the separation exceeds `|a - b|`, so it is positive
    have hc : (2 • c : ℝ) ≠ 0 := by rw [two_nsmul]; intro h; linarith
    simp only [checkedDiv, h2, Scalar.real_isZero, hc, decide_false, Bool.false_eq_true, if_false]
    simp only [bind, Except.bind, pure, Except.pure, overlap, chordFoot, greater_real,
      Scalar.real_sqrt,
      Elementary.real_acos, Elementary.real_pi, Scalar.real_neg, arccos_clip]
    rw [Detumble.clip_real]

/-! #### Where the lens formula meets the closed forms -/

section Foot

variable {a b c : ℝ}

theorem two_mul_chordFoot (hc : c ≠ 0) : 2 * c * chordFoot a b c = c * c + a * a - b * b := by
  rw [chordFoot, two_nsmul, ← two_mul]
  field_simp

/-- The two feet, seen from either centre, leave the same half-chord. -/
theorem sq_sub_chordFoot (hc : c ≠ 0) :
    a * a - chordFoot a b c * chordFoot a b c =
      b * b - (c - chordFoot a b c) * (c - chordFoot a b c) := by
  linear_combination (-1 : ℝ) * two_mul_chordFoot (a := a) (b := b) hc

/-- The foot seen from the second centre. -/
theorem sub_chordFoot (hc : c ≠ 0) : c - chordFoot a b c = chordFoot b a c := by
  have h₁ := two_mul_chordFoot (a := a) (b := b) hc
  have h₂ := two_mul_chordFoot (a := b) (b := a) hc
  have : 2 * c * (c - chordFoot a b c - chordFoot b a c) = 0 := by
    linear_combination (-1 : ℝ) * h₁ - h₂
  have h2c : 2 * c ≠ 0 := mul_ne_zero two_ne_zero hc
  exact sub_eq_zero.mp ((mul_eq_zero.mp this).resolve_left h2c)

/-- When the circles are apart, or the second lies inside the first, the chord's foot lies on
or past the first circle. -/
theorem le_chordFoot (hc : 0 < c) (hb : 0 ≤ b) (h : a + b ≤ c ∨ c ≤ a - b) :
    a ≤ chordFoot a b c := by
  have hf := two_mul_chordFoot (a := a) (b := b) hc.ne'
  -- `2c (x - a) = (c - a - b)(c - a + b)`, a product of two factors of one sign
  have : 0 ≤ 2 * c * (chordFoot a b c - a) := by
    rcases h with h | h <;> nlinarith
  nlinarith

/-- When the first circle lies inside the second, the chord's foot lies on or behind it. -/
theorem chordFoot_le_neg (hc : 0 < c) (ha : 0 ≤ a) (h : c ≤ b - a) : chordFoot a b c ≤ -a := by
  have hf := two_mul_chordFoot (a := a) (b := b) hc.ne'
  -- `2c (x + a) = (c + a - b)(c + a + b)`, with the first factor not positive
  have : 2 * c * (chordFoot a b c + a) ≤ 0 := by nlinarith
  nlinarith

end Foot

section Sector

variable {r x : ℝ}

/-- A sector of angle zero. -/
theorem sector_of_le (hr : 0 ≤ r) (h : r ≤ x) : r * r * arccos (x / r) = 0 := by
  rcases hr.eq_or_lt with rfl | hr
  · simp
  · rw [arccos_of_one_le ((one_le_div hr).mpr h), mul_zero]

/-- A sector of angle `π`: the whole disk. -/
theorem sector_of_le_neg (hr : 0 ≤ r) (h : x ≤ -r) : r * r * arccos (x / r) = π * (r * r) := by
  rcases hr.eq_or_lt with rfl | hr
  · simp
  · rw [arccos_of_le_neg_one ((div_le_iff₀ hr).mpr (by linarith)), mul_comm]

/-- Where the foot lies inside the circle there is a chord. -/
theorem mul_self_lt_of_abs_lt (h : |x| < r) : x * x < r * r :=
  abs_mul_abs_self x ▸ mul_self_lt_mul_self (abs_nonneg x) h

/-- Where the foot lies off the circle there is no chord. -/
theorem halfChord_eq_zero (hr : 0 ≤ r) (h : r ≤ |x|) : √(max (r * r - x * x) 0) = 0 := by
  have : r * r ≤ x * x := abs_mul_abs_self x ▸ mul_self_le_mul_self hr h
  rw [max_eq_right (by linarith), sqrt_zero]

end Sector

section Meeting

variable {a b c : ℝ}

/-- Disks apart share nothing. -/
theorem overlap_of_add_le (ha : 0 ≤ a) (hb : 0 ≤ b) (hc : 0 < c) (h : a + b ≤ c) :
    overlap a b c = 0 := by
  have hx := le_chordFoot hc hb (.inl h)
  have hz := le_chordFoot (a := b) (b := a) hc ha (.inl (by linarith))
  simp only [overlap]
  rw [sub_chordFoot hc.ne', sector_of_le ha hx, sector_of_le hb hz,
    halfChord_eq_zero ha (hx.trans (le_abs_self _))]
  ring

/-- A first disk inside the second is covered whole. -/
theorem overlap_of_le_sub (ha : 0 ≤ a) (hc : 0 < c) (h : c ≤ b - a) :
    overlap a b c = π * (a * a) := by
  have hx := chordFoot_le_neg hc ha h
  have hz := le_chordFoot (a := b) (b := a) hc ha (.inr h)
  simp only [overlap]
  rw [sub_chordFoot hc.ne', sector_of_le_neg ha hx, sector_of_le (by linarith) hz,
    halfChord_eq_zero ha (by rw [abs_of_nonpos (by linarith)]; linarith)]
  ring

/-- A second disk inside the first covers itself. -/
theorem overlap_of_le_sub' (hb : 0 ≤ b) (hc : 0 < c) (h : c ≤ a - b) :
    overlap a b c = π * (b * b) := by
  have hx := le_chordFoot hc hb (.inr h)
  have hz := chordFoot_le_neg (a := b) (b := a) hc hb h
  simp only [overlap]
  rw [sub_chordFoot hc.ne', sector_of_le (by linarith) hx, sector_of_le_neg hb hz,
    halfChord_eq_zero (by linarith) (hx.trans (le_abs_self _))]
  ring

/-- The lens formula holds in every branch: at every positive separation the light is one less
the overlap over the area of the solar disk, clipped into `[0, 1]`. -/
theorem light_eq_lens (ha : 0 < a) (hb : 0 ≤ b) (hc : 0 < c) : light a b c = lensLight a b c := by
  have hdisk : π * a * a ≠ 0 := by positivity
  unfold light lensLight
  split_ifs with hf hu ht
  · rw [overlap_of_add_le ha.le hb hc hf]
    norm_num
  · rw [overlap_of_le_sub ha.le hc hu, ← mul_assoc, div_self hdisk]
    norm_num
  · -- the second disk is the smaller one, so `b²/a²` is a fraction
    have hba : b * b / (a * a) ≤ 1 := by
      rw [div_le_one (by positivity)]
      exact mul_self_le_mul_self hb (by linarith)
    have hpos : 0 ≤ b * b / (a * a) := by positivity
    rw [overlap_of_le_sub' hb hc ht, mul_assoc, mul_div_mul_left _ _ pi_ne_zero,
      max_eq_left (by linarith), min_eq_right (by linarith)]
  · rfl

end Meeting

/-! #### The light's range and its closed branches -/

section Branches

variable {a b c : ℝ}

/-- The light is a fraction. -/
theorem light_mem_Icc (hb : 0 ≤ b) : light a b c ∈ Set.Icc 0 1 := by
  unfold light lensLight
  split_ifs with hf hu ht
  · exact ⟨zero_le_one, le_rfl⟩
  · exact ⟨le_rfl, zero_le_one⟩
  · -- the transit branch is reached only when `b < a`
    have hba : b < a := by linarith
    have hlt : b * b / (a * a) ≤ 1 := by
      rw [div_le_one (by nlinarith)]
      exact mul_self_le_mul_self hb hba.le
    exact ⟨by linarith, by linarith [div_nonneg (mul_self_nonneg b) (mul_self_nonneg a)]⟩
  · exact ⟨le_min zero_le_one (le_max_right _ _), min_le_left _ _⟩

/-- Between the two inner contacts the Earth's disk crosses the Sun's whole: an annulus. -/
theorem light_of_transit (h₀ : c < a + b) (h₁ : b - a < c) (h₂ : c ≤ a - b) :
    light a b c = 1 - b * b / (a * a) := by
  rw [light, if_neg (not_le.mpr h₀), if_neg (not_le.mpr h₁), if_pos h₂]

/-- In the umbra the Sun is hidden. -/
theorem light_of_le_sub (ha : 0 < a) (h : c ≤ b - a) : light a b c = 0 := by
  have hf : ¬ a + b ≤ c := by intro hf; linarith
  rw [light, if_neg hf, if_pos h]

/-- With the disks apart the Sun is whole. -/
theorem light_of_add_le (h : a + b ≤ c) : light a b c = 1 := by
  rw [light, if_pos h]

end Branches

/-! #### The rate of the overlap -/

section Rate

variable {a b c : ℝ}

/-- Where the circles cross, the foot of their chord lies strictly inside the first. -/
theorem abs_chordFoot_lt (ha : 0 < a) (hb : 0 < b) (h₁ : |a - b| < c) (h₂ : c < a + b) :
    |chordFoot a b c| < a := by
  have hc : 0 < c := (abs_nonneg _).trans_lt h₁
  have hf := two_mul_chordFoot (a := a) (b := b) hc.ne'
  rw [abs_lt]
  -- `2c (x ± a)` factor as `(c ± a - b)(c ± a + b)`, each of a known sign
  constructor <;> nlinarith [abs_lt.mp h₁]

/-- The foot moves at the rate `(c - x)/c`. -/
theorem hasDerivAt_chordFoot (hc : c ≠ 0) :
    HasDerivAt (chordFoot a b) (chordFoot b a c / c) c := by
  have hf : chordFoot a b = fun t => (t * t + a * a - b * b) / (2 * t) := by
    funext t
    rw [chordFoot, two_nsmul, two_mul]
  have h := ((((hasDerivAt_id' c).fun_mul (hasDerivAt_id' c)).add_const (a * a)).sub_const
    (b * b)).fun_div ((hasDerivAt_id' c).const_mul 2) (mul_ne_zero two_ne_zero hc)
  rw [hf]
  refine h.congr_deriv ?_
  rw [chordFoot, two_nsmul]
  field_simp
  ring

theorem sqrt_one_sub_div_sq {r : ℝ} (hr : 0 < r) (x : ℝ) :
    √(1 - (x / r) ^ 2) = √(r * r - x * x) / r := by
  rw [show 1 - (x / r) ^ 2 = (r * r - x * x) / (r * r) by field_simp,
    sqrt_div' _ (mul_self_nonneg r), sqrt_mul_self hr.le]

/-- A sector of a circle of radius `r` cut at the moving foot `f` changes at the rate
`-r² f' / √(r² - f²)`. -/
theorem hasDerivAt_sector {r : ℝ} {f : ℝ → ℝ} {f' : ℝ} (hr : 0 < r) (hf : HasDerivAt f f' c)
    (hlt : |f c| < r) :
    HasDerivAt (fun t => r * r * arccos (f t / r)) (-(r * r * f') / √(r * r - f c * f c)) c := by
  obtain ⟨hlo, hhi⟩ := abs_lt.mp hlt
  have h₁ : f c / r ≠ -1 := by
    rw [ne_eq, div_eq_iff hr.ne']
    linarith
  have h₂ : f c / r ≠ 1 := by
    rw [ne_eq, div_eq_iff hr.ne']
    linarith
  have hy : 0 < √(r * r - f c * f c) := sqrt_pos.mpr (sub_pos.mpr (mul_self_lt_of_abs_lt hlt))
  refine (((hasDerivAt_arccos h₁ h₂).comp c (hf.div_const r)).const_mul (r * r)).congr_deriv ?_
  rw [sqrt_one_sub_div_sq hr]
  field_simp

/-- The lens formula with its clips left out shrinks at twice the half-chord: the two sectors
and the kite change together by `-2y`. -/
theorem hasDerivAt_lensArea (ha : 0 < a) (hb : 0 < b) (h₁ : |a - b| < c) (h₂ : c < a + b) :
    HasDerivAt (fun t => a * a * arccos (chordFoot a b t / a) +
      b * b * arccos (chordFoot b a t / b) - t * √(a * a - chordFoot a b t * chordFoot a b t))
      (-(2 * √(a * a - chordFoot a b c * chordFoot a b c))) c := by
  have hc : 0 < c := (abs_nonneg _).trans_lt h₁
  have hx := abs_chordFoot_lt ha hb h₁ h₂
  have hz := abs_chordFoot_lt hb ha (by rwa [abs_sub_comm]) (by linarith)
  have hX := hasDerivAt_chordFoot (a := a) (b := b) hc.ne'
  have hZ := hasDerivAt_chordFoot (a := b) (b := a) hc.ne'
  have hpos : 0 < a * a - chordFoot a b c * chordFoot a b c :=
    sub_pos.mpr (mul_self_lt_of_abs_lt hx)
  have hY := ((hX.fun_mul hX).const_sub (a * a)).sqrt hpos.ne'
  refine (((hasDerivAt_sector ha hX hx).add (hasDerivAt_sector hb hZ hz)).sub
    ((hasDerivAt_id' c).fun_mul hY)).congr_deriv ?_
  -- both feet leave the same half-chord `y`, and they add up to `c`
  have hxz := sub_chordFoot (a := a) (b := b) hc.ne'
  have hsq := sq_sub_chordFoot (a := a) (b := b) hc.ne'
  have hf := two_mul_chordFoot (a := a) (b := b) hc.ne'
  rw [hxz] at hsq
  rw [← hsq]
  set x := chordFoot a b c
  set z := chordFoot b a c
  have hyy : √(a * a - x * x) ^ 2 = a * a - x * x := sq_sqrt hpos.le
  set y := √(a * a - x * x)
  have hy0 : y ≠ 0 := (sqrt_pos.mpr hpos).ne'
  field_simp
  linear_combination 2 * c * hyy - (-2 * a ^ 2 + 2 * c * x) * hxz - 2 * x * hf

/-- Where the circles cross, the overlap shrinks as the separation grows, at twice the
half-length of the common chord. -/
theorem hasDerivAt_overlap (ha : 0 < a) (hb : 0 < b) (h₁ : |a - b| < c) (h₂ : c < a + b) :
    HasDerivAt (overlap a b) (-(2 * √(a * a - chordFoot a b c * chordFoot a b c))) c := by
  refine (hasDerivAt_lensArea ha hb h₁ h₂).congr_of_eventuallyEq ?_
  -- near `c` the circles still cross, so the clip of the half-chord is idle
  filter_upwards [Ioo_mem_nhds h₁ h₂] with t ht
  have ht0 : 0 < t := (abs_nonneg _).trans_lt ht.1
  have hxt := abs_chordFoot_lt ha hb ht.1 ht.2
  have hroot : 0 ≤ a * a - chordFoot a b t * chordFoot a b t :=
    sub_nonneg.mpr (mul_self_lt_of_abs_lt hxt).le
  simp only [overlap]
  rw [sub_chordFoot ht0.ne', max_eq_left hroot]

/-- The overlap is continuous in the two radii and the separation wherever all three are
positive. -/
theorem continuousAt_overlap {v : ℝ × ℝ × ℝ} (ha : 0 < v.1) (hb : 0 < v.2.1) (hc : 0 < v.2.2) :
    ContinuousAt (fun w : ℝ × ℝ × ℝ => overlap w.1 w.2.1 w.2.2) v := by
  simp only [overlap, chordFoot, two_nsmul]
  fun_prop (disch := positivity)

/-- Across the crossing of the circles the overlap does not grow with the separation. -/
theorem overlap_antitoneOn (ha : 0 < a) (hb : 0 < b) :
    AntitoneOn (overlap a b) (Set.Icc |a - b| (a + b) ∩ Set.Ioi 0) := by
  have hint : interior (Set.Icc |a - b| (a + b) ∩ Set.Ioi 0) =
      Set.Ioo |a - b| (a + b) ∩ Set.Ioi 0 := by
    rw [interior_inter, interior_Icc, interior_Ioi]
  have hcont : ContinuousOn (overlap a b) (Set.Icc |a - b| (a + b) ∩ Set.Ioi 0) := by
    intro t ht
    have hline : ContinuousAt (fun s : ℝ => (a, b, s)) t := by fun_prop
    exact ((continuousAt_overlap (v := (a, b, t)) ha hb ht.2).comp
      (f := fun s : ℝ => (a, b, s)) hline).continuousWithinAt
  have hrate : ∀ t ∈ interior (Set.Icc |a - b| (a + b) ∩ Set.Ioi 0),
      HasDerivWithinAt (overlap a b) (-(2 * √(a * a - chordFoot a b t * chordFoot a b t)))
        (interior (Set.Icc |a - b| (a + b) ∩ Set.Ioi 0)) t := by
    intro t ht
    rw [hint] at ht
    exact (hasDerivAt_overlap ha hb ht.1.1 ht.1.2).hasDerivWithinAt
  refine antitoneOn_of_hasDerivWithinAt_nonpos ((convex_Icc _ _).inter (convex_Ioi 0)) hcont
    hrate fun t _ => ?_
  have := sqrt_nonneg (a * a - chordFoot a b t * chordFoot a b t)
  linarith

/-- Across the crossing of the circles the light does not fall as the separation grows. -/
theorem lensLight_monotoneOn (ha : 0 < a) (hb : 0 < b) :
    MonotoneOn (lensLight a b) (Set.Icc |a - b| (a + b) ∩ Set.Ioi 0) := by
  intro s hs t ht hst
  have hdisk : 0 < π * a * a := by positivity
  have hov := overlap_antitoneOn ha hb hs ht hst
  unfold lensLight
  gcongr

end Rate

/-! #### The light as the disks move apart -/

section Separation

variable {a b : ℝ}

/-- The light does not fall as the separation of the disks grows: from nothing in the umbra,
through the crossing of the circles, to all of it. -/
theorem light_monotone (ha : 0 < a) (hb : 0 ≤ b) : Monotone (light a b) := by
  intro s t hst
  by_cases hf : a + b ≤ t
  · rw [light_of_add_le hf]
    exact (light_mem_Icc hb).2
  by_cases hu : s ≤ b - a
  · rw [light_of_le_sub ha hu]
    exact (light_mem_Icc hb).1
  rw [not_le] at hf hu
  by_cases ht : t ≤ a - b
  · -- both in the annulus
    rw [light_of_transit (by linarith) hu (by linarith), light_of_transit hf (by linarith) ht]
  -- `t` lies where the circles cross; `s` is moved up to the first contact if below it
  rw [not_le] at ht
  have hb : 0 < b := by linarith
  have hab : |a - b| < t := abs_lt.mpr ⟨by linarith, ht⟩
  have hba := le_abs_self (a - b)
  have hs' : light a b s = lensLight a b (max s |a - b|) := by
    rcases le_or_gt |a - b| s with hs | hs
    · rw [max_eq_left hs]
      exact light_eq_lens ha hb.le (by linarith)
    · -- below the first contact the Earth's disk lies inside the Sun's
      have hlt : b < a := by cases abs_cases (a - b) <;> linarith
      rw [max_eq_right hs.le, abs_of_pos (by linarith), ← light_eq_lens ha hb.le (by linarith),
        light_of_transit (by linarith) hu (by cases abs_cases (a - b) <;> linarith),
        light_of_transit (by linarith) (by linarith) le_rfl]
  rw [hs', light_eq_lens ha hb.le ((abs_nonneg _).trans_lt hab)]
  have hmax := le_max_left s |a - b|
  refine lensLight_monotoneOn ha hb ⟨⟨le_max_right _ _, ?_⟩, ?_⟩
    ⟨⟨hab.le, hf.le⟩, (abs_nonneg _).trans_lt hab⟩ (max_le hst hab.le)
  · exact max_le (by linarith) (abs_sub_le_iff.mpr ⟨by linarith, by linarith⟩)
  · have := le_max_right s |a - b|
    show 0 < max s |a - b|
    linarith

end Separation

/-- The light is continuous in the two apparent radii and the separation wherever all three
are positive: in particular across the edges of the penumbra, where the branches meet. -/
theorem continuousAt_light {v : ℝ × ℝ × ℝ} (ha : 0 < v.1) (hb : 0 < v.2.1) (hc : 0 < v.2.2) :
    ContinuousAt (fun w : ℝ × ℝ × ℝ => light w.1 w.2.1 w.2.2) v := by
  -- near `v` all three stay positive, and there the light is the lens formula
  have hnear : ∀ᶠ w in nhds v, 0 < w.1 ∧ 0 < w.2.1 ∧ 0 < w.2.2 :=
    (continuous_fst.continuousAt.eventually (lt_mem_nhds ha)).and
      ((continuous_snd.fst.continuousAt.eventually (lt_mem_nhds hb)).and
        (continuous_snd.snd.continuousAt.eventually (lt_mem_nhds hc)))
  have heq : (fun w : ℝ × ℝ × ℝ => lensLight w.1 w.2.1 w.2.2) =ᶠ[nhds v]
      fun w => light w.1 w.2.1 w.2.2 := by
    filter_upwards [hnear] with w hw
    exact (light_eq_lens hw.1 hw.2.1.le hw.2.2).symm
  refine ContinuousAt.congr ?_ heq
  have hov := continuousAt_overlap ha hb hc
  unfold lensLight
  fun_prop (disch := positivity)

/-! #### The light and the pressure at a position -/

section Position

open Matrix

/-- The apparent radius of a sphere of radius `R` whose centre lies at `v` from the eye; a
sphere that fills the view has the apparent radius of a quarter turn. -/
noncomputable def apparentRadius (R : ℝ) (v : Fin 3 → ℝ) : ℝ := arcsin (min (R / √(v ⬝ᵥ v)) 1)

/-- The angle at `p` between the directions to the Earth's centre and to the Sun. -/
noncomputable def separation (p sun : Fin 3 → ℝ) : ℝ :=
  arccos (-p ⬝ᵥ (sun - p) / (√(p ⬝ᵥ p) * √((sun - p) ⬝ᵥ (sun - p))))

/-- The light at `p` in exact arithmetic, with the Sun at `sun`. -/
noncomputable def lightAt (radius sunRad : ℝ) (sun p : Fin 3 → ℝ) : ℝ :=
  light (apparentRadius sunRad (sun - p)) (apparentRadius radius p) (separation p sun)

/-- The radiation force at `p` under the light `lit`: `P (AU/d)² C_r A lit` along the unit
vector from the Sun. -/
noncomputable def pressureForce (lit pressure coefficient area : ℝ) (p sun : Fin 3 → ℝ) :
    Fin 3 → ℝ :=
  (pressure * (astronomicalUnit / √((p - sun) ⬝ᵥ (p - sun))) ^ 2 * coefficient * area * lit /
    √((p - sun) ⬝ᵥ (p - sun))) • (p - sun)

variable {p sun : Fin 3 → ℝ}

/-- Off the centre and away from the Sun the light is always given, and it is `lightAt`. -/
theorem visibleFraction_real (hp : p ≠ 0) (hs : p ≠ sun) (radius sunRad : ℝ) :
    visibleFraction p sun radius sunRad = .ok (lightAt radius sunRad sun p) := by
  have hr := ZonalSeries.length_ne_zero hp
  have hd := ZonalSeries.length_ne_zero (sub_ne_zero.mpr hs.symm)
  have h1 : (1.0 : ℝ) = 1 := by norm_num
  have hsub : (fun i => sun i - p i) = sun - p := rfl
  have hneg : (fun i => -p i) = -p := rfl
  unfold visibleFraction
  simp only [Pointing.dot_real, Scalar.real_sqrt, hsub, hneg, checkedDiv, Scalar.real_isZero, hd,
    hr, mul_ne_zero hr hd, decide_false, Bool.false_eq_true, if_false, Scalar.real_mul,
    Scalar.real_neg, h1, lesser_real, Elementary.real_asin, Elementary.real_acos,
    arccos_clip, bind, Except.bind]
  exact fraction_real _ _ _

/-- The radiation force in closed form; with no light it is the zero the code returns. -/
theorem push_real (hs : p ≠ sun) (lit pressure coefficient area : ℝ) :
    push lit pressure coefficient area p sun =
      .ok (pressureForce lit pressure coefficient area p sun) := by
  have hd := ZonalSeries.length_ne_zero (sub_ne_zero.mpr hs)
  have hsub : (fun i => p i - sun i) = p - sun := rfl
  have h0 : (0.0 : ℝ) = 0 := by norm_num
  unfold push pressureForce
  by_cases hlit : lit = 0
  · simp only [Scalar.real_isZero, hlit, decide_true, if_true, h0]
    refine congrArg Except.ok (funext fun i => ?_)
    simp
  · simp only [Scalar.real_isZero, hlit, decide_false, Bool.false_eq_true, if_false, hsub,
      Pointing.dot_real, Scalar.real_sqrt, checkedDiv, hd, bind, Except.bind, pure, Except.pure,
      ZonalSeries.real_pow_two, Scalar.real_mul]
    refine congrArg Except.ok (funext fun i => ?_)
    simp only [Pi.smul_apply, Pi.sub_apply, smul_eq_mul]
    ring

/-- Wherever the separation is positive, which includes the whole penumbra, the light varies
continuously with the position. -/
theorem continuousAt_lightAt (hp : p ≠ 0) (hs : p ≠ sun) {radius sunRad : ℝ} (hR : 0 < radius)
    (hRs : 0 < sunRad) (hc : 0 < separation p sun) : ContinuousAt (lightAt radius sunRad sun) p := by
  have hr := ZonalSeries.length_ne_zero hp
  have hd := ZonalSeries.length_ne_zero (sub_ne_zero.mpr hs.symm)
  have hrd := mul_ne_zero hr hd
  -- both disks have a positive apparent radius
  have ha : 0 < apparentRadius sunRad (sun - p) :=
    arcsin_pos.mpr (lt_min (div_pos hRs ((sqrt_nonneg _).lt_of_ne' hd)) one_pos)
  have hb : 0 < apparentRadius radius p :=
    arcsin_pos.mpr (lt_min (div_pos hR ((sqrt_nonneg _).lt_of_ne' hr)) one_pos)
  have hangles : ContinuousAt
      (fun q => (apparentRadius sunRad (sun - q), apparentRadius radius q, separation q sun)) p := by
    simp only [apparentRadius, separation]
    fun_prop (disch := assumption)
  exact (continuousAt_light (v := (_, _, _)) ha hb hc).comp
    (f := fun q => (apparentRadius sunRad (sun - q), apparentRadius radius q, separation q sun))
    hangles

/-- A force under a light that is continuous at `p` is continuous there. -/
theorem continuousAt_pressureForce {lit : (Fin 3 → ℝ) → ℝ} (hlit : ContinuousAt lit p)
    (hs : p ≠ sun) (pressure coefficient area : ℝ) :
    ContinuousAt (fun q => pressureForce (lit q) pressure coefficient area q sun) p := by
  have hd := ZonalSeries.length_ne_zero (sub_ne_zero.mpr hs)
  have hdot : ContinuousAt (fun q : Fin 3 → ℝ => (q - sun) ⬝ᵥ (q - sun)) p :=
    (Continuous.dotProduct (by fun_prop) (by fun_prop)).continuousAt
  unfold pressureForce
  fun_prop (disch := assumption)

/-- With a positive pressure on a surface that reflects, the force vanishes exactly in the
dark. -/
theorem pressureForce_eq_zero_iff (hs : p ≠ sun) {lit pressure coefficient area : ℝ}
    (hP : pressure ≠ 0) (hCA : 0 < coefficient * area) :
    pressureForce lit pressure coefficient area p sun = 0 ↔ lit = 0 := by
  have hd := ZonalSeries.length_ne_zero (sub_ne_zero.mpr hs)
  have hAU : (astronomicalUnit : ℝ) ≠ 0 := by norm_num [astronomicalUnit]
  have hm : pressure * (astronomicalUnit / √((p - sun) ⬝ᵥ (p - sun))) ^ 2 * coefficient * area ≠ 0 :=
    mul_ne_zero (mul_ne_zero (mul_ne_zero hP (pow_ne_zero 2 (div_ne_zero hAU hd)))
      (left_ne_zero_of_mul hCA.ne')) (right_ne_zero_of_mul hCA.ne')
  rw [pressureForce, smul_eq_zero, or_iff_left (sub_ne_zero.mpr hs), div_eq_zero_iff,
    or_iff_left hd, mul_eq_zero, or_iff_right hm]

end Position

/-- The conical shadow. The model's light and radiation force are the formulas of this
module at `Float`. In exact arithmetic the fraction is always given and is `light`, and so is
the light at every position off the centre and away from the Sun. The light is a fraction, none
in the umbra and all of it once the disks are apart, and the lens formula gives every branch at
a positive separation. It is continuous in the radii and the separation where all three are
positive and does not fall as the separation grows. Hence the light and the radiation force
vary continuously with the position wherever the separation is positive, the penumbra
included. The force vanishes exactly in the dark when the pressure and `C_r A` are not zero. -/
theorem conical_shadow_laws :
    (∀ (p sun : Vec3) (radius sunRad : Float), Eclipse.visibleFraction p sun radius sunRad =
      visibleFraction p.toFun sun.toFun radius sunRad) ∧
    (∀ (shadow : ShadowModel) (pressure : Float) (p sun : Vec3) (b : Body),
      (ForceModel.radiationAt shadow pressure p sun b).map Vec3.toFun =
        (Eclipse.illumination p sun shadow).bind fun lit =>
          push lit pressure b.radiationCoefficient b.radiationArea p.toFun sun.toFun) ∧
    (∀ a b c : ℝ, fraction a b c = .ok (light a b c)) ∧
    (∀ (p sun : Fin 3 → ℝ) (radius sunRad : ℝ), p ≠ 0 → p ≠ sun →
      visibleFraction p sun radius sunRad = .ok (lightAt radius sunRad sun p)) ∧
    (∀ a b c : ℝ, 0 ≤ b → light a b c ∈ Set.Icc 0 1) ∧
    (∀ a b c : ℝ, 0 < a → c ≤ b - a → light a b c = 0) ∧
    (∀ a b c : ℝ, a + b ≤ c → light a b c = 1) ∧
    (∀ a b c : ℝ, 0 < a → 0 ≤ b → 0 < c → light a b c = lensLight a b c) ∧
    (∀ v : ℝ × ℝ × ℝ, 0 < v.1 → 0 < v.2.1 → 0 < v.2.2 →
      ContinuousAt (fun w : ℝ × ℝ × ℝ => light w.1 w.2.1 w.2.2) v) ∧
    (∀ a b : ℝ, 0 < a → 0 ≤ b → Monotone (light a b)) ∧
    (∀ (p sun : Fin 3 → ℝ) (radius sunRad : ℝ), p ≠ 0 → p ≠ sun → 0 < radius → 0 < sunRad →
      0 < separation p sun → ContinuousAt (lightAt radius sunRad sun) p ∧
        ∀ pressure coefficient area : ℝ, ContinuousAt
          (fun q => pressureForce (lightAt radius sunRad sun q) pressure coefficient area q sun) p) ∧
    (∀ (lit pressure coefficient area : ℝ) (p sun : Fin 3 → ℝ), p ≠ sun →
      push lit pressure coefficient area p sun =
        .ok (pressureForce lit pressure coefficient area p sun) ∧
      (pressure ≠ 0 → 0 < coefficient * area →
        (pressureForce lit pressure coefficient area p sun = 0 ↔ lit = 0))) :=
  ⟨Eclipse.visibleFraction_toFun, ForceModel.radiationAt_toFun, fraction_real,
    fun _ _ radius sunRad hp hs => visibleFraction_real hp hs radius sunRad,
    fun _ _ _ hb => light_mem_Icc hb, fun _ _ _ ha h => light_of_le_sub ha h,
    fun _ _ _ h => light_of_add_le h, fun _ _ _ ha hb hc => light_eq_lens ha hb hc,
    fun _ ha hb hc => continuousAt_light ha hb hc, fun _ _ ha hb => light_monotone ha hb,
    fun _ _ _ _ hp hs hR hRs hc => ⟨continuousAt_lightAt hp hs hR hRs hc,
      continuousAt_pressureForce (continuousAt_lightAt hp hs hR hRs hc) hs⟩,
    fun lit pressure coefficient area _ _ hs => ⟨push_real hs lit pressure coefficient area,
      fun hP hCA => pressureForce_eq_zero_iff hs hP hCA⟩⟩

/-- Two disks of one size: hidden when concentric, whole once they touch from outside, and
lit no less at every separation in between. -/
theorem equal_disks_light :
    light (1 : ℝ) 1 0 = 0 ∧ light (1 : ℝ) 1 2 = 1 ∧ light (1 : ℝ) 1 0 ≤ light 1 1 1 ∧
      light (1 : ℝ) 1 1 ≤ light 1 1 2 :=
  ⟨conical_shadow_laws.2.2.2.2.2.1 1 1 0 one_pos (by norm_num),
    conical_shadow_laws.2.2.2.2.2.2.1 1 1 2 (by norm_num),
    conical_shadow_laws.2.2.2.2.2.2.2.2.2.1 1 1 one_pos zero_le_one zero_le_one,
    conical_shadow_laws.2.2.2.2.2.2.2.2.2.1 1 1 one_pos zero_le_one one_le_two⟩

/-- In binary64 the length of a position within `10⁻¹⁶²` m of the centre squares to zero, and
the light is refused as a division by zero. -/
theorem fraction_refused_near_centre :
    Eclipse.visibleFraction ⟨1e-170, 0.0, 0.0⟩ ⟨1.496e11, 0.0, 0.0⟩ = .error Fault.floatDivision := by
  -- the position's squared length underflows, so its length is zero; the Sun's distance is not
  have hr : ((⟨1e-170, 0.0, 0.0⟩ : Vec3).norm == 0.0) = true := by decide +kernel
  have hd : ((⟨1.496e11, 0.0, 0.0⟩ - ⟨1e-170, 0.0, 0.0⟩ : Vec3).norm == 0.0) = false := by
    decide +kernel
  unfold Eclipse.visibleFraction divOrFault checkedDiv
  simp only [Scalar.isZero, hd, hr, Bool.false_eq_true, if_false, if_true]
  rfl

end Shadow

end Spacecraft
