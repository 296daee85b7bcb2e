import Mathlib
import Spacecraft.Proofs.Exact.Pointing
import Spacecraft.Proofs.Exact.Motion
import Spacecraft.Proofs.Exact.Gravity

/-!
# How fast the pointing frames turn

A direction cosine matrix `C` whose rows each turn at the inertial rate `ω` changes at
`-[w×] C`, where `w = C ω` is that rate in the frame's own axes (`RightHanded.rotating`):
the rate a command must carry for the controller to follow the frame.

Along an orbit under a central force the orbit normal `h = r × v` is constant. The nadir
frame then turns at `h / |r|²`, the rate of the direction to the centre, which is the rate its
command carries: its target rate is the angular velocity of the frame. The velocity frame turns
at the rate of the velocity direction, `μ h / (|r|³ |v|²)` under point-mass gravity; its command
carries the nadir frame's rate all the same, which is the frame's rate only where
`|v|² = μ / |r|`, as on a circular orbit.
-/

namespace Spacecraft

namespace Pointing

open Matrix Motion

/-- The matrix of `u ↦ w × u`. -/
def crossMatrix (w : Fin 3 → ℝ) : Matrix (Fin 3) (Fin 3) ℝ :=
  !![0, -w 2, w 1; w 2, 0, -w 0; -w 1, w 0, 0]

theorem crossMatrix_mulVec (w u : Fin 3 → ℝ) : crossMatrix w *ᵥ u = w ⨯₃ u := by
  funext i
  fin_cases i <;> simp [crossMatrix, cross_apply, mulVec, dotProduct, Fin.sum_univ_three] <;> ring

namespace RightHanded

variable {x y z : Fin 3 → ℝ}

/-- A vector is fixed by its components along a right-handed orthonormal frame. -/
theorem eq_of_dotProduct (h : RightHanded x y z) {u v : Fin 3 → ℝ} (hx : x ⬝ᵥ u = x ⬝ᵥ v)
    (hy : y ⬝ᵥ u = y ⬝ᵥ v) (hz : z ⬝ᵥ u = z ⬝ᵥ v) : u = v := by
  have hm : rows x y z *ᵥ u = rows x y z *ᵥ v := by rw [rows_mulVec, rows_mulVec, hx, hy, hz]
  have horth : (rows x y z)ᵀ * rows x y z = 1 :=
    (mem_orthogonalGroup_iff' (Fin 3) ℝ).mp (mem_specialOrthogonalGroup_iff.mp h.mem).1
  calc u = ((rows x y z)ᵀ * rows x y z) *ᵥ u := by rw [horth, one_mulVec]
    _ = (rows x y z)ᵀ *ᵥ (rows x y z *ᵥ v) := by rw [← mulVec_mulVec, hm]
    _ = v := by rw [mulVec_mulVec, horth, one_mulVec]

theorem cross_xy (h : RightHanded x y z) : x ⨯₃ y = z := by
  refine h.eq_of_dotProduct ?_ ?_ ?_
  · rw [dot_self_cross, h.xz]
  · rw [dot_cross_self, h.yz]
  · rw [triple_product_permutation, h.triple, h.zz]

theorem cross_yz (h : RightHanded x y z) : y ⨯₃ z = x := by
  refine h.eq_of_dotProduct ?_ ?_ ?_
  · rw [h.triple, h.xx]
  · rw [dot_self_cross, dotProduct_comm, h.xy]
  · rw [dot_cross_self, dotProduct_comm, h.xz]

theorem cross_zx (h : RightHanded x y z) : z ⨯₃ x = y := by
  refine h.eq_of_dotProduct ?_ ?_ ?_
  · rw [dot_cross_self, h.xy]
  · rw [triple_product_permutation, triple_product_permutation, h.triple, h.yy]
  · rw [dot_self_cross, dotProduct_comm, h.yz]

/-- A vector is the sum of its components along the frame. -/
theorem expand (h : RightHanded x y z) (ω : Fin 3 → ℝ) :
    ω = (x ⬝ᵥ ω) • x + (y ⬝ᵥ ω) • y + (z ⬝ᵥ ω) • z := by
  have hyx : y ⬝ᵥ x = 0 := by rw [dotProduct_comm, h.xy]
  have hzx : z ⬝ᵥ x = 0 := by rw [dotProduct_comm, h.xz]
  have hzy : z ⬝ᵥ y = 0 := by rw [dotProduct_comm, h.yz]
  refine h.eq_of_dotProduct ?_ ?_ ?_ <;>
    simp [dotProduct_add, h.xx, h.yy, h.zz, h.xy, h.xz, h.yz, hyx, hzx, hzy]

/-- Rows that each turn at the inertial rate `ω` change at `-[w×] C`, with `w = C ω` the rate in
the frame's axes. -/
theorem rotating (h : RightHanded x y z) (ω : Fin 3 → ℝ) :
    rows (ω ⨯₃ x) (ω ⨯₃ y) (ω ⨯₃ z) = -(crossMatrix (rows x y z *ᵥ ω) * rows x y z) := by
  have hyx : y ⨯₃ x = -z := by rw [← cross_anticomm, h.cross_xy]
  have hzy : z ⨯₃ y = -x := by rw [← cross_anticomm, h.cross_yz]
  have hxz : x ⨯₃ z = -y := by rw [← cross_anticomm, h.cross_zx]
  -- write `ω` in the frame's axes and use the cross products of the axes
  conv_lhs => rw [h.expand ω]
  simp only [map_add, map_smul, LinearMap.add_apply, LinearMap.smul_apply, cross_self,
    h.cross_xy, h.cross_yz, h.cross_zx, hyx, hzy, hxz]
  ext i j
  rw [rows_mulVec]
  fin_cases i <;> simp [rows, crossMatrix]

end RightHanded

section Paths

variable {t : ℝ}

/-- The rate of a matrix whose rows run along three paths. -/
theorem hasDerivAt_rows {x y z : ℝ → Fin 3 → ℝ} {x' y' z' : Fin 3 → ℝ}
    (hx : HasDerivAt x x' t) (hy : HasDerivAt y y' t) (hz : HasDerivAt z z' t) :
    HasDerivAt (fun s i j => rows (x s) (y s) (z s) i j) (rows x' y' z') t := by
  refine hasDerivAt_pi.mpr fun i => ?_
  fin_cases i
  · exact hx
  · exact hy
  · exact hz

/-- A right-handed frame whose axes each turn at the inertial rate `ω` changes at `-[w×] C`. -/
theorem hasDerivAt_rows_of_turning {x y z : ℝ → Fin 3 → ℝ} {ω : Fin 3 → ℝ}
    (h : RightHanded (x t) (y t) (z t)) (hx : HasDerivAt x (ω ⨯₃ x t) t)
    (hy : HasDerivAt y (ω ⨯₃ y t) t) (hz : HasDerivAt z (ω ⨯₃ z t) t) :
    HasDerivAt (fun s i j => rows (x s) (y s) (z s) i j)
      (-(crossMatrix (rows (x t) (y t) (z t) *ᵥ ω) * rows (x t) (y t) (z t))) t := by
  rw [← h.rotating]
  exact hasDerivAt_rows hx hy hz

/-- The cross product of two axes turning at `ω` turns at `ω`. -/
theorem hasDerivAt_cross_of_turning {x y : ℝ → Fin 3 → ℝ} {ω : Fin 3 → ℝ}
    (hx : HasDerivAt x (ω ⨯₃ x t) t) (hy : HasDerivAt y (ω ⨯₃ y t) t) :
    HasDerivAt (fun s => x s ⨯₃ y s) (ω ⨯₃ (x t ⨯₃ y t)) t := by
  refine (hasDerivAt_cross hx hy).congr_deriv ?_
  exact (leibniz_cross ω (x t) (y t)).symm

/-- The direction of a path turns at `ω` when the path's rate, less its component along the
path, is `ω × u`. -/
theorem hasDerivAt_unit_of_turning {u : ℝ → Fin 3 → ℝ} {u' ω : Fin 3 → ℝ}
    (hu : HasDerivAt u u' t) (h0 : u t ≠ 0)
    (hω : u' - ((u t ⬝ᵥ u') / (u t ⬝ᵥ u t)) • u t = ω ⨯₃ u t) :
    HasDerivAt (fun s => unit (u s)) (ω ⨯₃ unit (u t)) t := by
  simp only [unit_real]
  refine (hasDerivAt_unit hu h0).congr_deriv ?_
  rw [hω, map_smul]

theorem hasDerivAt_neg_of_turning {x : ℝ → Fin 3 → ℝ} {ω : Fin 3 → ℝ}
    (hx : HasDerivAt x (ω ⨯₃ x t) t) : HasDerivAt (fun s => -x s) (ω ⨯₃ -x t) t := by
  rw [map_neg]
  exact hx.neg

variable {r v : ℝ → Fin 3 → ℝ} {a : Fin 3 → ℝ}

/-- Under a central force the orbit normal does not change. -/
theorem hasDerivAt_normal (hr : HasDerivAt r (v t) t) (hv : HasDerivAt v a t)
    (ha : r t ⨯₃ a = 0) : HasDerivAt (fun s => r s ⨯₃ v s) 0 t := by
  refine (hasDerivAt_cross hr hv).congr_deriv ?_
  rw [cross_self, ha, add_zero]

/-- The orbit normal's direction, fixed under a central force, turns at any rate along the
normal. -/
theorem hasDerivAt_unit_normal (c : ℝ) (hr : HasDerivAt r (v t) t) (hv : HasDerivAt v a t)
    (ha : r t ⨯₃ a = 0) (h : r t ⨯₃ v t ≠ 0) :
    HasDerivAt (fun s => -unit (r s ⨯₃ v s)) ((c • r t ⨯₃ v t) ⨯₃ -unit (r t ⨯₃ v t)) t := by
  refine hasDerivAt_neg_of_turning (hasDerivAt_unit_of_turning (hasDerivAt_normal hr hv ha) h ?_)
  simp

/-- The direction to the centre turns at the orbit rate `h / |r|²`, whatever the force. -/
theorem hasDerivAt_nadir (hr : HasDerivAt r (v t) t) (h0 : r t ≠ 0) :
    HasDerivAt (fun s => -unit (r s)) (((r t ⬝ᵥ r t)⁻¹ • r t ⨯₃ v t) ⨯₃ -unit (r t)) t := by
  have hρ : r t ⬝ᵥ r t ≠ 0 := (dotProduct_self_pos h0).ne'
  refine hasDerivAt_neg_of_turning (hasDerivAt_unit_of_turning hr h0 ?_)
  -- `(r × v) × r = |r|² v - (v · r) r`
  rw [map_smul, LinearMap.smul_apply, cross_cross_eq_smul_sub_smul, smul_sub, smul_smul,
    inv_mul_cancel₀ hρ, one_smul, smul_smul, dotProduct_comm (v t), div_eq_inv_mul]

/-- Under a central acceleration `-k r` the direction of the velocity turns at `k h / |v|²`. -/
theorem hasDerivAt_prograde {k : ℝ} (hv : HasDerivAt v (-k • r t) t) (h0 : v t ≠ 0) :
    HasDerivAt (fun s => unit (v s)) (((k / (v t ⬝ᵥ v t)) • r t ⨯₃ v t) ⨯₃ unit (v t)) t := by
  have hν : v t ⬝ᵥ v t ≠ 0 := (dotProduct_self_pos h0).ne'
  refine hasDerivAt_unit_of_turning hv h0 ?_
  -- `(r × v) × v = (r · v) v - |v|² r`
  rw [map_smul, LinearMap.smul_apply, cross_cross_eq_smul_sub_smul, dotProduct_smul,
    dotProduct_comm (v t) (r t), smul_eq_mul]
  match_scalars <;> field_simp

end Paths

/-- The matrix of `u ↦ w × u` determines `w`. -/
theorem crossMatrix_injective : Function.Injective crossMatrix := by
  intro w w' h
  have h0 := congrFun (congrFun h 2) 1
  have h1 := congrFun (congrFun h 0) 2
  have h2 := congrFun (congrFun h 1) 0
  simp only [crossMatrix, of_apply, cons_val', cons_val, empty_val', cons_val_fin_one] at h0 h1 h2
  funext i
  fin_cases i
  · exact h0
  · exact h1
  · exact h2

theorem isUnit_of_mem {C : Matrix (Fin 3) (Fin 3) ℝ} (hC : C ∈ specialOrthogonalGroup (Fin 3) ℝ) :
    IsUnit C := by
  rw [Matrix.isUnit_iff_isUnit_det, (mem_specialOrthogonalGroup_iff.mp hC).2]
  exact isUnit_one

/-- A proper rotation changes at `-[w×] C` for one rate `w` at most, and one inertial rate `ω`
gives it. -/
theorem rate_unique {C : Matrix (Fin 3) (Fin 3) ℝ} (hC : C ∈ specialOrthogonalGroup (Fin 3) ℝ)
    {ω ω' : Fin 3 → ℝ} (h : -(crossMatrix (C *ᵥ ω) * C) = -(crossMatrix (C *ᵥ ω') * C)) :
    ω = ω' :=
  mulVec_injective_iff_isUnit.mpr (isUnit_of_mem hC)
    (crossMatrix_injective ((isUnit_of_mem hC).mul_left_injective (neg_injective h)))

/-- The velocity frame turns at the nadir frame's rate `h / |r|²` exactly where
`|v|² = μ / |r|`. -/
theorem prograde_rate_eq_iff {r v : Fin 3 → ℝ} (h : r ⨯₃ v ≠ 0) (μ : ℝ) :
    (μ / √(r ⬝ᵥ r) ^ 3 / (v ⬝ᵥ v)) • r ⨯₃ v = (r ⬝ᵥ r)⁻¹ • r ⨯₃ v ↔
      v ⬝ᵥ v = μ / √(r ⬝ᵥ r) := by
  obtain ⟨hr, hv⟩ := ne_zero_of_cross_ne_zero h
  have hρ := dotProduct_self_pos hr
  have hν := (dotProduct_self_pos hv).ne'
  rw [(smul_left_injective ℝ h).eq_iff]
  set s := √(r ⬝ᵥ r)
  have hs : s ≠ 0 := (Real.sqrt_pos.mpr hρ).ne'
  have hsq : r ⬝ᵥ r = s ^ 2 := (Real.sq_sqrt hρ.le).symm
  rw [hsq]
  field_simp
  exact eq_comm

section Frames

variable {t : ℝ} {r v : ℝ → Fin 3 → ℝ} {a : Fin 3 → ℝ}

/-- Under a central force the nadir frame changes at `-[w×] C` for its own rate
`w = C h / |r|²`. -/
theorem hasDerivAt_orbitFrame (hr : HasDerivAt r (v t) t) (hv : HasDerivAt v a t)
    (ha : r t ⨯₃ a = 0) (h : r t ⨯₃ v t ≠ 0) :
    HasDerivAt (fun s i j => (orbitFrame (r s) (v s)).1 i j)
      (-(crossMatrix ((orbitFrame (r t) (v t)).1 *ᵥ (orbitFrame (r t) (v t)).2) *
        (orbitFrame (r t) (v t)).1)) t := by
  simp only [orbitFrame_real]
  have hz := hasDerivAt_nadir hr (ne_zero_of_cross_ne_zero h).1
  have hy := hasDerivAt_unit_normal (r t ⬝ᵥ r t)⁻¹ hr hv ha h
  exact hasDerivAt_rows_of_turning (rightHanded_orbitFrame h)
    (hasDerivAt_cross_of_turning hy hz) hy hz

/-- Under a central acceleration `-k r` the velocity frame turns at `k h / |v|²`. -/
theorem hasDerivAt_velocityFrame {k : ℝ} (hr : HasDerivAt r (v t) t)
    (hv : HasDerivAt v (-k • r t) t) (h : r t ⨯₃ v t ≠ 0) :
    HasDerivAt (fun s i j => velocityFrame (r s) (v s) i j)
      (-(crossMatrix (velocityFrame (r t) (v t) *ᵥ ((k / (v t ⬝ᵥ v t)) • r t ⨯₃ v t)) *
        velocityFrame (r t) (v t))) t := by
  simp only [velocityFrame_real]
  have ha : r t ⨯₃ (-k • r t) = 0 := by rw [map_smul, cross_self, smul_zero]
  have hx := hasDerivAt_prograde hv (ne_zero_of_cross_ne_zero h).2
  have hy := hasDerivAt_unit_normal (k / (v t ⬝ᵥ v t)) hr hv ha h
  exact hasDerivAt_rows_of_turning (rightHanded_velocityFrame h) hx hy
    (hasDerivAt_cross_of_turning hx hy)

theorem velocityFrame_mem {r v : Fin 3 → ℝ} (h : r ⨯₃ v ≠ 0) :
    velocityFrame r v ∈ specialOrthogonalGroup (Fin 3) ℝ := by
  rw [velocityFrame_real]
  exact (rightHanded_velocityFrame h).mem

/-- Under point-mass gravity the velocity frame changes at `-[w×] C` for the nadir frame's
rate `w = C h / |r|²` exactly where `|v|² = μ / |r|`. -/
theorem hasDerivAt_velocityFrame_iff (μ : ℝ) (hr : HasDerivAt r (v t) t)
    (hv : HasDerivAt v (-(μ / √(r t ⬝ᵥ r t) ^ 3) • r t) t) (h : r t ⨯₃ v t ≠ 0) :
    HasDerivAt (fun s i j => velocityFrame (r s) (v s) i j)
        (-(crossMatrix (velocityFrame (r t) (v t) *ᵥ (orbitFrame (r t) (v t)).2) *
          velocityFrame (r t) (v t))) t ↔
      v t ⬝ᵥ v t = μ / √(r t ⬝ᵥ r t) := by
  have hD := hasDerivAt_velocityFrame hr hv h
  rw [orbitFrame_real, ← prograde_rate_eq_iff h μ]
  constructor
  · intro hw
    exact rate_unique (velocityFrame_mem h) (hD.unique hw)
  · intro hω
    rwa [← hω]

end Frames

/-- Frame rates of nadir and velocity pointing, in exact arithmetic. Along a motion under
point-mass gravity (`r' = v`, and `v'` the point-mass kernel's acceleration at `r`) with a
non-zero orbit normal, the nadir command's rotation changes at `-[w×] C` for the rate `w` the
command carries: its target rate is the angular velocity of the commanded frame. The velocity
command's rotation changes at `-[w_v×] C` with `w_v = C μ h / (|r|³ |v|²)`, and at `-[w×] C` for
the rate `w` the command carries exactly where `|v|² = μ / |r|`. -/
theorem pointing_frame_rates (μ : ℝ) {r v : ℝ → Fin 3 → ℝ} {a : Fin 3 → ℝ} {t : ℝ}
    (hr : HasDerivAt r (v t) t) (hv : HasDerivAt v a t)
    (ha : ZonalSeries.pointMass μ (r t 0) (r t 1) (r t 2) = .ok (a 0, a 1, a 2))
    (h : r t ⨯₃ v t ≠ 0) (toSun : Fin 3 → ℝ) (qi : Fin 4 → ℝ) :
    (∃ q w, target .nadir toSun qi (r t) (v t) = .ok (q, w) ∧
      Attitude.toDcm q = .ok (orbitFrame (r t) (v t)).1 ∧
      HasDerivAt (fun s i j => (orbitFrame (r s) (v s)).1 i j)
        (-(crossMatrix w * (orbitFrame (r t) (v t)).1)) t) ∧
    (∃ q w, target .velocity toSun qi (r t) (v t) = .ok (q, w) ∧
      Attitude.toDcm q = .ok (velocityFrame (r t) (v t)) ∧
      HasDerivAt (fun s i j => velocityFrame (r s) (v s) i j)
        (-(crossMatrix (velocityFrame (r t) (v t) *ᵥ
          ((μ / √(r t ⬝ᵥ r t) ^ 3 / (v t ⬝ᵥ v t)) • r t ⨯₃ v t)) *
          velocityFrame (r t) (v t))) t ∧
      (HasDerivAt (fun s i j => velocityFrame (r s) (v s) i j)
          (-(crossMatrix w * velocityFrame (r t) (v t))) t ↔
        v t ⬝ᵥ v t = μ / √(r t ⬝ᵥ r t))) := by
  have ha' := (ZonalSeries.pointMass_eq_ok_iff μ (ne_zero_of_cross_ne_zero h).1).mp ha
  subst ha'
  have hcentral : r t ⨯₃ (-(μ / √(r t ⬝ᵥ r t) ^ 3) • r t) = 0 := by
    rw [map_smul, cross_self, smul_zero]
  obtain ⟨q, hq, -, -, hdcm, -⟩ := target_nadir h toSun qi
  obtain ⟨q', hq', -, -, hdcm', -⟩ := target_velocity h toSun qi
  exact ⟨⟨q, _, hq, hdcm, hasDerivAt_orbitFrame hr hv hcentral h⟩,
    ⟨q', _, hq', hdcm', hasDerivAt_velocityFrame hr hv h, hasDerivAt_velocityFrame_iff μ hr hv h⟩⟩

/-- The circular orbit of unit radius under unit gravitational parameter, in the equatorial
plane. -/
noncomputable def unitCircle (s : ℝ) : Fin 3 → ℝ := ![Real.cos s, Real.sin s, 0]

/-- The velocity along `unitCircle`. -/
noncomputable def unitCircleVelocity (s : ℝ) : Fin 3 → ℝ := ![-Real.sin s, Real.cos s, 0]

theorem hasDerivAt_unitCircle (t : ℝ) : HasDerivAt unitCircle (unitCircleVelocity t) t := by
  refine hasDerivAt_pi.mpr fun i => ?_
  fin_cases i
  · exact Real.hasDerivAt_cos t
  · exact Real.hasDerivAt_sin t
  · exact hasDerivAt_const t 0

theorem hasDerivAt_unitCircleVelocity (t : ℝ) :
    HasDerivAt unitCircleVelocity (-unitCircle t) t := by
  refine hasDerivAt_pi.mpr fun i => ?_
  fin_cases i
  · exact (Real.hasDerivAt_sin t).neg
  · exact Real.hasDerivAt_cos t
  · exact (hasDerivAt_const t 0).congr_deriv (by simp [unitCircle])

/-- On the unit circular orbit both commands' rates are the rates of their frames. -/
theorem unit_circle_frame_rates :
    (∃ q w, target .nadir 0 ![1, 0, 0, 0] (unitCircle 0) (unitCircleVelocity 0) = .ok (q, w) ∧
      Attitude.toDcm q = .ok (orbitFrame (unitCircle 0) (unitCircleVelocity 0)).1 ∧
      HasDerivAt (fun s i j => (orbitFrame (unitCircle s) (unitCircleVelocity s)).1 i j)
        (-(crossMatrix w * (orbitFrame (unitCircle 0) (unitCircleVelocity 0)).1)) 0) ∧
    (∃ q w, target .velocity 0 ![1, 0, 0, 0] (unitCircle 0) (unitCircleVelocity 0) = .ok (q, w) ∧
      Attitude.toDcm q = .ok (velocityFrame (unitCircle 0) (unitCircleVelocity 0)) ∧
      HasDerivAt (fun s i j => velocityFrame (unitCircle s) (unitCircleVelocity s) i j)
        (-(crossMatrix (velocityFrame (unitCircle 0) (unitCircleVelocity 0) *ᵥ
          ((1 / √(unitCircle 0 ⬝ᵥ unitCircle 0) ^ 3 /
            (unitCircleVelocity 0 ⬝ᵥ unitCircleVelocity 0)) •
            unitCircle 0 ⨯₃ unitCircleVelocity 0)) *
          velocityFrame (unitCircle 0) (unitCircleVelocity 0))) 0 ∧
      (HasDerivAt (fun s i j => velocityFrame (unitCircle s) (unitCircleVelocity s) i j)
          (-(crossMatrix w * velocityFrame (unitCircle 0) (unitCircleVelocity 0))) 0 ↔
        unitCircleVelocity 0 ⬝ᵥ unitCircleVelocity 0 = 1 / √(unitCircle 0 ⬝ᵥ unitCircle 0))) := by
  have hnorm : unitCircle 0 ⬝ᵥ unitCircle 0 = 1 := by
    simp [unitCircle, dotProduct, Fin.sum_univ_three]
  have h : unitCircle 0 ⨯₃ unitCircleVelocity 0 ≠ 0 := by
    rw [cross_apply]
    simp [unitCircle, unitCircleVelocity]
  have ha : ZonalSeries.pointMass 1 (unitCircle 0 0) (unitCircle 0 1) (unitCircle 0 2) =
      .ok ((-unitCircle 0) 0, (-unitCircle 0) 1, (-unitCircle 0) 2) := by
    rw [ZonalSeries.pointMass_eq_ok_iff 1 (ne_zero_of_cross_ne_zero h).1, hnorm]
    simp
  exact pointing_frame_rates 1 (hasDerivAt_unitCircle 0) (hasDerivAt_unitCircleVelocity 0) ha h
    0 ![1, 0, 0, 0]

/-- The straight path through `p` with constant rate `d`. -/
def line (p d : Fin 3 → ℝ) (s : ℝ) : Fin 3 → ℝ := p + s • d

theorem line_zero (p d : Fin 3 → ℝ) : line p d 0 = p := by
  simp [line]

theorem hasDerivAt_line (p d : Fin 3 → ℝ) (t : ℝ) : HasDerivAt (line p d) d t :=
  ((hasDerivAt_id t).smul_const d).const_add p |>.congr_deriv (one_smul ℝ d)

/-- Through `(1, 0, 0)` at velocity `(0, 2, 0)` under unit gravitational parameter, `|v|² = 4` is
not `μ / |r| = 1`: along the motion that falls towards the centre at the point-mass rate, the rate
the velocity command carries is not the rate of its frame. -/
theorem velocity_command_rate_lags :
    HasDerivAt (line ![1, 0, 0] ![0, 2, 0]) (line ![0, 2, 0] ![-1, 0, 0] 0) 0 ∧
      HasDerivAt (line ![0, 2, 0] ![-1, 0, 0]) ![-1, 0, 0] 0 ∧
      ZonalSeries.pointMass (1 : ℝ) 1 0 0 = .ok (-1, 0, 0) ∧
      ∃ q w, target .velocity 0 ![1, 0, 0, 0] ![1, 0, 0] ![0, 2, 0] = .ok (q, w) ∧
        ¬HasDerivAt
          (fun s i j => velocityFrame (line ![1, 0, 0] ![0, 2, 0] s) (line ![0, 2, 0] ![-1, 0, 0] s) i j)
          (-(crossMatrix w * velocityFrame ![1, 0, 0] ![0, 2, 0])) 0 := by
  have hr : HasDerivAt (line ![1, 0, 0] ![0, 2, 0]) (line ![0, 2, 0] ![-1, 0, 0] 0) 0 := by
    rw [line_zero]
    exact hasDerivAt_line _ _ 0
  have hv := hasDerivAt_line ![0, 2, 0] ![-1, 0, 0] 0
  have hnorm : (![1, 0, 0] : Fin 3 → ℝ) ⬝ᵥ ![1, 0, 0] = 1 := by
    simp [dotProduct, Fin.sum_univ_three]
  have h : (![1, 0, 0] : Fin 3 → ℝ) ⨯₃ ![0, 2, 0] ≠ 0 := by
    rw [cross_apply]
    simp
  have ha : (![-1, 0, 0] : Fin 3 → ℝ) =
      -(1 / √((![1, 0, 0] : Fin 3 → ℝ) ⬝ᵥ ![1, 0, 0]) ^ 3) • ![1, 0, 0] := by
    rw [hnorm]
    simp
  obtain ⟨q, hq, -⟩ := target_velocity h 0 ![1, 0, 0, 0]
  refine ⟨hr, hv, ?_, q, _, hq, fun hw => ?_⟩
  · have := (ZonalSeries.pointMass_eq_ok_iff 1 (ne_zero_of_cross_ne_zero h).1).mpr ha
    simpa using this
  · -- the frame would turn at the orbit rate, which needs `|v|² = μ / |r|`
    have hv' : HasDerivAt (line ![0, 2, 0] ![-1, 0, 0])
        (-(1 / √(line ![1, 0, 0] ![0, 2, 0] 0 ⬝ᵥ line ![1, 0, 0] ![0, 2, 0] 0) ^ 3) •
          line ![1, 0, 0] ![0, 2, 0] 0) 0 := by
      rw [line_zero, ← ha]
      exact hv
    have h' : line ![1, 0, 0] ![0, 2, 0] 0 ⨯₃ line ![0, 2, 0] ![-1, 0, 0] 0 ≠ 0 := by
      rw [line_zero, line_zero]
      exact h
    have hiff := hasDerivAt_velocityFrame_iff 1 hr hv' h'
    rw [line_zero, line_zero] at hiff
    have hspeed := hiff.mp hw
    rw [hnorm] at hspeed
    simp [dotProduct, Fin.sum_univ_three] at hspeed
    norm_num at hspeed

end Pointing

end Spacecraft
