import Mathlib
import Spacecraft.Proofs.Exact.Pointing
import Spacecraft.Proofs.Binary64.Order

/-!
# B-dot detumbling does no positive work

The B-dot law commands the dipole `m = -k Ḃ`, with `Ḃ = -ω × B` the rate at which the body-frame
field turns, clipped on each axis into `[-m_max, m_max]`, and gives the torque `τ = m × B`
(`Policy.torque_bdot`). Clipping an axis never changes its sign, so every component of `m` has
the sign of the same component of `ω × B`, and the work `ω ⬝ τ = -(m ⬝ (ω × B))` is never
positive for a non-negative gain and limit, although the clipped dipole is no longer along
`ω × B`. The torque is all that changes the kinetic energy of the spin (Euler's equations,
`Euler.rate_dotProduct`), which therefore never grows under B-dot alone.

In binary64 the cross product of a spin nearly along the field is mostly rounding, and the
work of the torque the model computes can come out positive (`bdot_work_rounds`).
-/

namespace Spacecraft

namespace Detumble

section Formulas

variable {K : Type} [Scalar K] [LT K] [DecidableLT K]

/-- Clipping into `[lo, hi]`: below `lo` gives `lo`, and then above `hi` gives `hi`. -/
def clip (x lo hi : K) : K :=
  let m := if x < lo then lo else x
  if hi < m then hi else m

/-- The B-dot dipole from the spin `w` in the body-frame field `b`: the field's rate
`-(w × b)` times `-gain`, clipped on each axis into `[-limit, limit]`. -/
def dipole (gain limit : K) (w b : Fin 3 → K) : Fin 3 → K :=
  fun i => clip (-gain * -Euler.cross w b i) (-limit) limit

/-- The B-dot torque: the dipole crossed with the field. -/
def torque (gain limit : K) (w b : Fin 3 → K) : Fin 3 → K :=
  Euler.cross (dipole gain limit w b) b

end Formulas

end Detumble

section Binary64

open Binary64

/-- A NaN fails `x < y`, so a test for NaN in front of that comparison changes nothing. -/
theorem ite_isNaN_lt (x y a : Float) :
    (if x.isNaN then x else if x < y then a else x) = if x < y then a else x := by
  by_cases hx : x.isNaN = true
  · rw [if_pos hx, if_neg (not_lt_of_nan_left y (isNaN_eq_true_iff.1 hx))]
  · rw [if_neg hx]

/-- A NaN fails `y < x`, so a test for NaN in front of that comparison changes nothing. -/
theorem ite_isNaN_gt (x y a : Float) :
    (if x.isNaN then x else if x > y then a else x) = if y < x then a else x := by
  by_cases hx : x.isNaN = true
  · rw [if_pos hx, if_neg (not_lt_of_nan_right y (isNaN_eq_true_iff.1 hx))]
  · rw [if_neg hx]

/-- The clamp of the model tests for NaN before each comparison; a NaN fails both
comparisons anyway, so it is `Detumble.clip`. -/
theorem Detumble.clip_float (x lo hi : Float) : Detumble.clip x lo hi = clamp x lo hi := by
  simp only [Detumble.clip, clamp, ite_isNaN_lt, ite_isNaN_gt]

end Binary64

namespace Vec3

theorem toFun_neg (v : Vec3) : (-v).toFun = fun i => -v.toFun i := by
  funext i
  fin_cases i <;> rfl

theorem toFun_smul (a : Float) (v : Vec3) : (Vec3.smul a v).toFun = fun i => a * v.toFun i := by
  funext i
  fin_cases i <;> rfl

theorem toFun_clip (v : Vec3) (lo hi : Float) :
    (v.clip lo hi).toFun = fun i => Detumble.clip (v.toFun i) lo hi := by
  funext i
  rw [Detumble.clip_float]
  fin_cases i <;> rfl

/-- The model's B-dot dipole is `Detumble.dipole` at `Float`. -/
theorem toFun_bdot (gain limit : Float) (w B : Vec3) :
    ((Vec3.smul (-gain) (-(w.cross B))).clip (-limit) limit).toFun =
      Detumble.dipole gain limit w.toFun B.toFun := by
  rw [toFun_clip, toFun_smul, toFun_neg, toFun_cross]
  rfl

end Vec3

/-- The B-dot policy's torque is `Detumble.torque` of the spin in the body-frame field, at
`Float`. -/
theorem Policy.torque_bdot (field : Dipole) (gain t : Float) (s : SatState) (b : Body)
    (c : Option Command) (integral : Vec3) :
    Policy.torque (.bdot field gain) t s b c integral =
      (fun B => List.ofFn (Detumble.torque gain b.maxDipole s.angularVelocity.toFun B.toFun)) <$>
        (field.field t s.position >>= s.toBody) := by
  simp only [Policy.torque, bdotDipole, map_bind, bind_pure_comp, Functor.map_map,
    Vec3.toList_eq_ofFn, Vec3.toFun_cross, Vec3.toFun_bdot]
  rfl

namespace Detumble

section Real

open Matrix

variable {gain limit : ℝ}

/-- Over the reals, clipping is `min hi (max x lo)`. -/
theorem clip_real (x lo hi : ℝ) : clip x lo hi = min hi (max x lo) := by
  rw [clip, min_def_lt, max_def_lt]

theorem clip_nonneg (hl : 0 ≤ limit) {x : ℝ} (hx : 0 ≤ x) : 0 ≤ clip x (-limit) limit := by
  rw [clip_real]
  exact le_min hl (le_max_of_le_left hx)

theorem clip_nonpos (hl : 0 ≤ limit) {x : ℝ} (hx : x ≤ 0) : clip x (-limit) limit ≤ 0 := by
  rw [clip_real]
  exact min_le_of_right_le (max_le hx (neg_nonpos.mpr hl))

/-- Clipping into an interval around zero never makes a value larger. -/
theorem abs_clip_le (hl : 0 ≤ limit) (x : ℝ) : |clip x (-limit) limit| ≤ |x| := by
  have hx := abs_nonneg x
  rw [clip_real, abs_le]
  constructor
  · exact le_min (by linarith) (le_max_of_le_left (neg_abs_le x))
  · exact (min_le_right _ _).trans (max_le (le_abs_self x) (by linarith))

theorem dipole_real (w b : Fin 3 → ℝ) (i : Fin 3) :
    dipole gain limit w b i = clip (gain * (w ⨯₃ b) i) (-limit) limit := by
  simp only [dipole, Scalar.real_mul, Scalar.real_neg, Euler.cross_real, neg_mul_neg]

/-- Every axis of the dipole has the sign of that axis of `w × b`, and is no larger than the
unclipped command. -/
theorem dipole_axis (hgain : 0 ≤ gain) (hl : 0 ≤ limit) (w b : Fin 3 → ℝ) (i : Fin 3) :
    0 ≤ (w ⨯₃ b) i * dipole gain limit w b i ∧
      |dipole gain limit w b i| ≤ |gain * (w ⨯₃ b) i| := by
  rw [dipole_real]
  refine ⟨?_, abs_clip_le hl _⟩
  -- the clip keeps the sign of `gain * c`, which is the sign of `c`
  rcases le_total 0 ((w ⨯₃ b) i) with hc | hc
  · exact mul_nonneg hc (clip_nonneg hl (mul_nonneg hgain hc))
  · exact mul_nonneg_of_nonpos_of_nonpos hc (clip_nonpos hl (mul_nonpos_of_nonneg_of_nonpos hgain hc))

/-- The work of the torque on the spin is minus the dipole's component along `w × b`. -/
theorem dotProduct_torque (w b : Fin 3 → ℝ) :
    w ⬝ᵥ torque gain limit w b = -(dipole gain limit w b ⬝ᵥ (w ⨯₃ b)) := by
  rw [torque, Euler.cross_real, triple_product_permutation, ← cross_anticomm w b, dotProduct_neg]

/-- The B-dot torque never does positive work on the spin. -/
theorem work_nonpos (hgain : 0 ≤ gain) (hl : 0 ≤ limit) (w b : Fin 3 → ℝ) :
    w ⬝ᵥ torque gain limit w b ≤ 0 := by
  rw [dotProduct_torque, neg_nonpos]
  exact Finset.sum_nonneg fun i _ => by
    rw [mul_comm]
    exact (dipole_axis hgain hl w b i).1

/-- Under the B-dot torque alone the spin rate exists for every positive definite inertia and
the kinetic energy of the spin does not grow. -/
theorem energy_rate_nonpos (hgain : 0 ≤ gain) (hl : 0 ≤ limit) (w b : Fin 3 → ℝ)
    {I : Matrix (Fin 3) (Fin 3) ℝ} (hI : I.PosDef) :
    ∃ α, Euler.angularAcceleration I w (torque gain limit w b) = .ok α ∧
      w ⬝ᵥ (I *ᵥ α) ≤ 0 := by
  have hα := Euler.angularAcceleration_real hI w (torque gain limit w b)
  refine ⟨_, hα, ?_⟩
  rw [(Euler.rate_dotProduct hI hα).1]
  exact work_nonpos hgain hl w b

end Real

end Detumble

open Matrix Detumble

/-- B-dot never pumps energy into the spin in exact arithmetic. The policy's torque is the
dipole `clip(k (ω × B))` crossed with the body-frame field `B`. For a non-negative gain and
limit every axis of the dipole has the sign of that axis of `ω × B` and is no larger than the
unclipped command. The torque's work `ω ⬝ τ` is therefore never positive, and with it alone
the spin rate exists for every positive definite inertia and the rate `ω ⬝ I α` of the
rotational kinetic energy is never positive. -/
theorem bdot_work_nonpos (gain limit : ℝ) (hgain : 0 ≤ gain) (hl : 0 ≤ limit)
    (w b : Fin 3 → ℝ) {I : Matrix (Fin 3) (Fin 3) ℝ} (hI : I.PosDef) :
    (∀ (field : Dipole) (k t : Float) (s : SatState) (body : Body) (c : Option Command)
        (integral : Vec3),
      Policy.torque (.bdot field k) t s body c integral =
        (fun B => List.ofFn (torque k body.maxDipole s.angularVelocity.toFun B.toFun)) <$>
          (field.field t s.position >>= s.toBody)) ∧
    (∀ i, 0 ≤ (w ⨯₃ b) i * dipole gain limit w b i ∧
      |dipole gain limit w b i| ≤ |gain * (w ⨯₃ b) i|) ∧
    w ⬝ᵥ torque gain limit w b ≤ 0 ∧
    ∃ α, Euler.angularAcceleration I w (torque gain limit w b) = .ok α ∧ w ⬝ᵥ (I *ᵥ α) ≤ 0 :=
  ⟨Policy.torque_bdot, dipole_axis hgain hl w b, work_nonpos hgain hl w b,
    energy_rate_nonpos hgain hl w b hI⟩

/-- A spin along the third axis in a field along the first, with the dipole clipped to half
the command: the spin rate under unit inertia loses energy. -/
theorem bdot_work_clipped :
    (0 : ℝ) ≤ 1 ∧ (0 : ℝ) ≤ 1 / 2 ∧ (1 : Matrix (Fin 3) (Fin 3) ℝ).PosDef ∧
      ∃ α, Euler.angularAcceleration 1 ![0, 0, 1] (torque 1 (1 / 2) ![0, 0, 1] ![1, 0, 0]) =
        .ok α ∧ ![0, 0, 1] ⬝ᵥ ((1 : Matrix (Fin 3) (Fin 3) ℝ) *ᵥ α) ≤ 0 :=
  ⟨zero_le_one, by norm_num, PosDef.one,
    (bdot_work_nonpos 1 (1 / 2) zero_le_one (by norm_num) ![0, 0, 1] ![1, 0, 0] PosDef.one).2.2.2⟩

/-- In binary64 the B-dot torque can do positive work. With the default gain and dipole limit,
a spin nearly along the body-frame field leaves `ω × B` mostly rounding error, and the
computed torque has a positive inner product with the spin. -/
theorem bdot_work_rounds :
    let w : Vec3 := ⟨0.008791913274088167, -0.002315853376171432, 0.029979061542488635⟩
    let B : Vec3 := ⟨6.853853873086584e-06, -1.8053545499081812e-06, 2.3370579378900533e-05⟩
    let τ := torque 54000.0 0.1 w.toFun B.toFun
    0.0 < w.dot ⟨τ 0, τ 1, τ 2⟩ := by
  decide +kernel

end Spacecraft
