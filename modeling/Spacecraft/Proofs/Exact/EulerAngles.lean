import Mathlib
import Spacecraft.Propagation.Ephemeris
import Spacecraft.Proofs.Binary64.Fused
import Spacecraft.Proofs.Exact.Elementary
import Spacecraft.Proofs.Exact.Rotation
import Spacecraft.Proofs.Propagation.Memory

/-!
# Euler angles of an attitude

The Z-Y-X Euler angles of a quaternion are read off its direction cosine matrix `C`: roll is the
angle of `(C₂₂, C₁₂)`, pitch the arc sine of `-C₀₂` (or `±π/2` at the gimbal lock), yaw the angle
of `(C₀₀, C₀₁)`. The formulas are written here once more over any `Scalar` with the elementary
functions and the two-argument arc tangent; at `Float` they are the model's (`Quat.toEuler_eq`),
and an ephemeris' table carries in each row the angles of that row's quaternion
(`Ephemeris.table_euler_columns`).

In exact arithmetic, away from the gimbal lock, the three frame rotations by these angles compose
to the quaternion's rotation (`frames_of_rotation`): `cos θ = √(1 - C₀₂²)` is positive and is the
length of both `(C₂₂, C₁₂)` and `(C₀₀, C₀₁)`, and the remaining four entries of the product follow
from the cofactor identities of a proper rotation. In binary64 a quaternion and its negation give
the same angles exactly (`Quat.toEuler_negate`): the length, every quotient by it and every
product of two components change sign together or not at all, and rounding is symmetric in the
sign.
-/

namespace Spacecraft

/-- The angles Euler angles are read with besides the elementary functions: the angle of a point
and `π/2` with the sign of a number. -/
class Angles (K : Type) where
  /-- The angle of the point `(x, y)`, `atan2 y x`, in `(-π, π]`. -/
  atan2 : K → K → K
  /-- `π/2` with the sign of a number. -/
  halfPiWithSign : K → K

/-- The library's arc tangent, and `π/2` as the model signs it. -/
instance : Angles Float where
  atan2 := Float.atan2
  halfPiWithSign := Quat.halfPiWithSign

/-- The argument of `x + iy`, and `π/2` with the sign of a number. -/
noncomputable instance : Angles ℝ where
  atan2 y x := Complex.arg ⟨x, y⟩
  halfPiWithSign s := if s < 0 then -(Real.pi / (2 : ℕ)) else Real.pi / (2 : ℕ)

namespace Attitude

section Formulas

variable {K : Type} [Scalar K] [LT K] [DecidableLT K] [LE K] [DecidableLE K] [Elementary K]
  [Angles K]

/-- Roll, pitch and yaw of a unit quaternion's components; pitch is `±π/2` where its sine reaches
one in size. -/
def eulerOfUnit (q : Fin 4 → K) : K × K × K :=
  let roll := Angles.atan2 (2.0 * (q 0 * q 1 + q 2 * q 3)) (1.0 - 2.0 * (q 1 * q 1 + q 2 * q 2))
  let sinp := 2.0 * (q 0 * q 2 - q 3 * q 1)
  let pitch := if Scalar.abs sinp ≥ 1.0 then Angles.halfPiWithSign sinp else Elementary.asin sinp
  let yaw := Angles.atan2 (2.0 * (q 0 * q 3 + q 1 * q 2)) (1.0 - 2.0 * (q 2 * q 2 + q 3 * q 3))
  (roll, pitch, yaw)

/-- Roll, pitch and yaw of a quaternion, normalized first. -/
def toEuler (q : Fin 4 → K) : Outcome (K × K × K) := (normalize q).map eulerOfUnit

end Formulas

end Attitude

/-! ### The model's angles at `Float` -/

namespace Quat

theorem toEuler_eq_map (q : Quat) :
    q.toEuler = q.normalize.map fun r => Attitude.eulerOfUnit r.toFun := by
  unfold toEuler toEulerList normalize
  cases normalizeList q.toList with
  | error f => rfl
  | ok cs =>
    cases ofList cs with
    | error f => rfl
    | ok r => rfl

theorem toEuler_eq (q : Quat) : q.toEuler = Attitude.toEuler q.toFun := by
  rw [toEuler_eq_map, Attitude.toEuler, ← normalize_toFun]
  cases q.normalize <;> rfl

/-! ### Negation in binary64 -/

open Binary64

theorem neg_mul_neg_float (x y : Float) : -x * -y = x * y := by
  rw [neg_mul_float, mul_neg_float, neg_neg_float]

/-- Negating every component leaves the squared length as fused multiply-add accumulates it. -/
theorem dotList_neg (cs : List Float) : dotList (cs.map (- ·)) (cs.map (- ·)) = dotList cs cs := by
  unfold dotList
  rw [List.zip_map, List.foldl_map]
  congr 1
  funext acc p
  exact fma_neg_neg p.1 p.2 acc

theorem ofList_neg (cs : List Float) : ofList (cs.map (- ·)) = (ofList cs).map negate := by
  match cs with
  | [] => rfl
  | [_] => rfl
  | [_, _] => rfl
  | [_, _, _] => rfl
  | [_, _, _, _] => rfl
  | _ :: _ :: _ :: _ :: _ :: _ => rfl

/-- Normalizing the negated components gives the negated unit components. -/
theorem normalizeList_neg (cs : List Float) :
    normalizeList (cs.map (- ·)) = (normalizeList cs).map (List.map (- ·)) := by
  unfold normalizeList normList
  rw [dotList_neg]
  by_cases hn : (dotList cs cs).sqrt < 1e-12
  · simp only [hn, if_true]
    rfl
  · simp only [hn, if_false]
    show Except.ok _ = Except.ok _
    rw [List.map_map, List.map_map]
    exact congrArg Except.ok (List.map_congr_left fun c _ => neg_div_float c _)

theorem normalize_negate (q : Quat) : q.negate.normalize = q.normalize.map negate := by
  have hl : q.negate.toList = q.toList.map (- ·) := rfl
  unfold normalize
  rw [hl, normalizeList_neg]
  cases normalizeList q.toList with
  | error f => rfl
  | ok u => exact ofList_neg u

theorem eulerOfUnit_negate (r : Quat) :
    Attitude.eulerOfUnit r.negate.toFun = Attitude.eulerOfUnit r.toFun := by
  simp [Attitude.eulerOfUnit, toFun, negate, neg_mul_neg_float]

/-- A quaternion and its negation have the same Euler angles, exactly. -/
theorem toEuler_negate (q : Quat) : q.negate.toEuler = q.toEuler := by
  rw [toEuler_eq_map, toEuler_eq_map, normalize_negate]
  cases q.normalize with
  | error f => rfl
  | ok r => exact congrArg Except.ok (eulerOfUnit_negate r)

end Quat

/-- Each row of an ephemeris' table carries, in the roll, pitch and yaw columns, the Euler angles
of the quaternion in its `q0 … q3` columns. -/
theorem Ephemeris.row_euler_columns {s : SatState} {r : List Float} (h : Ephemeris.row s = .ok r) :
    (r.drop 7).take 4 = s.quaternion.toList ∧ ∃ roll pitch yaw : Float,
      (r.drop 14).take 3 = [roll, pitch, yaw] ∧ s.quaternion.toEuler = .ok (roll, pitch, yaw) := by
  unfold Ephemeris.row at h
  cases he : s.quaternion.toEuler with
  | error f => simp [he, bind, Except.bind] at h
  | ok angles =>
    obtain ⟨roll, pitch, yaw⟩ := angles
    simp only [he, bind, Except.bind, pure, Except.pure, Except.ok.injEq] at h
    subst h
    exact ⟨rfl, roll, pitch, yaw, rfl, rfl⟩

theorem Ephemeris.table_euler_columns {e : Ephemeris} {rows : List (List Float)}
    (h : e.table = .ok rows) (j : Nat) {s : SatState} (hs : e.entries.toList[j]? = some s) :
    ∃ r, rows[j]? = some r ∧ (r.drop 7).take 4 = s.quaternion.toList ∧ ∃ roll pitch yaw : Float,
      (r.drop 14).take 3 = [roll, pitch, yaw] ∧ s.quaternion.toEuler = .ok (roll, pitch, yaw) := by
  obtain ⟨r, hr, hj⟩ := Outcome.mapM_getElem? h j hs
  exact ⟨r, hj, row_euler_columns hr⟩

/-! ### Exact arithmetic -/

namespace Attitude

open Real Matrix

/-- The rotation of a frame about its first axis by `a`. -/
noncomputable def frameX (a : ℝ) : Matrix (Fin 3) (Fin 3) ℝ :=
  !![1, 0, 0; 0, cos a, sin a; 0, -sin a, cos a]

/-- The rotation of a frame about its second axis by `a`. -/
noncomputable def frameY (a : ℝ) : Matrix (Fin 3) (Fin 3) ℝ :=
  !![cos a, 0, -sin a; 0, 1, 0; sin a, 0, cos a]

/-- The rotation of a frame about its third axis by `a`. -/
noncomputable def frameZ (a : ℝ) : Matrix (Fin 3) (Fin 3) ℝ :=
  !![cos a, sin a, 0; -sin a, cos a, 0; 0, 0, 1]

theorem cos_atan2 {x y : ℝ} (h : x ^ 2 + y ^ 2 ≠ 0) :
    cos (Angles.atan2 y x) = x / √(x ^ 2 + y ^ 2) := by
  have hz : (⟨x, y⟩ : ℂ) ≠ 0 := fun hz => h (by simp [Complex.ext_iff] at hz; simp [hz])
  show cos (Complex.arg ⟨x, y⟩) = _
  rw [Complex.cos_arg hz, Complex.norm_eq_sqrt_sq_add_sq]

theorem sin_atan2 (x y : ℝ) : sin (Angles.atan2 y x) = y / √(x ^ 2 + y ^ 2) := by
  show sin (Complex.arg ⟨x, y⟩) = _
  rw [Complex.sin_arg, Complex.norm_eq_sqrt_sq_add_sq]

/-- Off the gimbal lock a proper rotation is the product of the frame rotations by the angles read
off its entries: roll from the last column, pitch from `C₀₂`, yaw from the first row. -/
theorem frames_of_rotation {C : Matrix (Fin 3) (Fin 3) ℝ} (hR : RotationEntries C)
    (h : |C 0 2| < 1) :
    frameX (Angles.atan2 (C 1 2) (C 2 2)) * frameY (arcsin (-C 0 2)) *
      frameZ (Angles.atan2 (C 0 1) (C 0 0)) = C := by
  obtain ⟨hlo, hhi⟩ := abs_lt.1 h
  -- the cosine of the pitch, positive off the gimbal lock
  set c := √(1 - C 0 2 ^ 2) with hc
  have hc0 : 0 < c := Real.sqrt_pos.2 (by nlinarith)
  have hcc : c ^ 2 = 1 - C 0 2 ^ 2 := Real.sq_sqrt (by nlinarith)
  -- it is the length of the last column and of the first row without their `C₀₂`
  have hcol : √(C 2 2 ^ 2 + C 1 2 ^ 2) = c := by
    rw [hc]
    congr 1
    linear_combination hR.col22
  have hrow : √(C 0 0 ^ 2 + C 0 1 ^ 2) = c := by
    rw [hc]
    congr 1
    linear_combination hR.row00
  have hcol0 : C 2 2 ^ 2 + C 1 2 ^ 2 ≠ 0 := fun h0 => hc0.ne' (by rw [← hcol, h0, Real.sqrt_zero])
  have hrow0 : C 0 0 ^ 2 + C 0 1 ^ 2 ≠ 0 := fun h0 => hc0.ne' (by rw [← hrow, h0, Real.sqrt_zero])
  have hcr : cos (Angles.atan2 (C 1 2) (C 2 2)) = C 2 2 / c := by rw [cos_atan2 hcol0, hcol]
  have hsr : sin (Angles.atan2 (C 1 2) (C 2 2)) = C 1 2 / c := by rw [sin_atan2, hcol]
  have hcy : cos (Angles.atan2 (C 0 1) (C 0 0)) = C 0 0 / c := by rw [cos_atan2 hrow0, hrow]
  have hsy : sin (Angles.atan2 (C 0 1) (C 0 0)) = C 0 1 / c := by rw [sin_atan2, hrow]
  have hcp : cos (arcsin (C 0 2)) = c := Real.cos_arcsin _
  have hsp : sin (arcsin (C 0 2)) = C 0 2 := Real.sin_arcsin (by linarith) (by linarith)
  -- the four entries off the first row and the last column, by the cofactor identities
  have e10 : C 1 0 * c ^ 2 = -(C 2 2 * C 0 1) - C 1 2 * C 0 2 * C 0 0 := by
    rw [hcc]; linear_combination -hR.cof01 - C 0 2 * hR.cof12
  have e11 : C 1 1 * c ^ 2 = C 2 2 * C 0 0 - C 1 2 * C 0 2 * C 0 1 := by
    rw [hcc]; linear_combination -hR.cof11 + C 0 2 * hR.cof02
  have e20 : C 2 0 * c ^ 2 = C 1 2 * C 0 1 - C 2 2 * C 0 2 * C 0 0 := by
    rw [hcc]; linear_combination -hR.cof02 + C 0 2 * hR.cof11
  have e21 : C 2 1 * c ^ 2 = -(C 1 2 * C 0 0) - C 2 2 * C 0 2 * C 0 1 := by
    rw [hcc]; linear_combination -hR.cof12 - C 0 2 * hR.cof01
  ext i j
  fin_cases i <;> fin_cases j <;>
    simp [frameX, frameY, frameZ, Matrix.mul_apply, Fin.sum_univ_three, hcr, hsr, hcy, hsy, hcp,
      hsp] <;> field_simp
  -- what is left are the four entries off the first row and the last column
  · linear_combination -e10
  · linear_combination -e11
  · linear_combination -e20
  · linear_combination -e21

/-- The entries of the rotation of a unit quaternion that its Euler angles read. -/
theorem dcmOfUnit_entries (q : Fin 4 → ℝ) :
    dcmOfUnit q 0 0 = 1 - 2 * (q 2 * q 2 + q 3 * q 3) ∧
    dcmOfUnit q 0 1 = 2 * (q 0 * q 3 + q 1 * q 2) ∧
    -dcmOfUnit q 0 2 = 2 * (q 0 * q 2 - q 3 * q 1) ∧
    dcmOfUnit q 1 2 = 2 * (q 0 * q 1 + q 2 * q 3) ∧
    dcmOfUnit q 2 2 = 1 - 2 * (q 1 * q 1 + q 2 * q 2) := by
  refine ⟨?_, ?_, ?_, ?_, ?_⟩ <;>
    simp only [dcmOfUnit, Matrix.of_apply, Matrix.cons_val, Matrix.cons_val_zero,
      Matrix.cons_val_one] <;> norm_num <;> ring

/-- Off the gimbal lock the Euler angles of a unit quaternion are the angles read off its
rotation. -/
theorem eulerOfUnit_real {q : Fin 4 → ℝ} (hp : |2 * (q 0 * q 2 - q 1 * q 3)| < 1) :
    eulerOfUnit q = (Angles.atan2 (dcmOfUnit q 1 2) (dcmOfUnit q 2 2),
      arcsin (-dcmOfUnit q 0 2), Angles.atan2 (dcmOfUnit q 0 1) (dcmOfUnit q 0 0)) := by
  obtain ⟨h00, h01, h02, h12, h22⟩ := dcmOfUnit_entries q
  -- the arithmetic normal form of the gimbal-lock test
  have hs : ¬ 1 ≤ 2 * |q 0 * q 2 - q 3 * q 1| := by
    rw [mul_comm (q 3), ← abs_two, ← abs_mul]
    exact not_le.2 hp
  rw [h00, h01, h02, h12, h22]
  norm_num [eulerOfUnit, hs]

/-- Off the gimbal lock the Euler angles of a unit quaternion exist, the pitch lies strictly
between `-π/2` and `π/2`, and the frame rotations by the three angles compose to the quaternion's
direction cosine matrix. -/
theorem euler_frames {q : Fin 4 → ℝ} (hq : q ⬝ᵥ q = 1) (hp : |2 * (q 0 * q 2 - q 1 * q 3)| < 1) :
    ∃ roll pitch yaw : ℝ, toEuler q = .ok (roll, pitch, yaw) ∧
      pitch ∈ Set.Ioo (-(π / 2)) (π / 2) ∧
      toDcm q = .ok (frameX roll * frameY pitch * frameZ yaw) := by
  have hn := normalize_of_unit hq
  have hR := RotationEntries.of_mem (dcmOfUnit_mem hq)
  obtain ⟨-, -, h02, -, -⟩ := dcmOfUnit_entries q
  have hc : |dcmOfUnit q 0 2| < 1 := by
    rw [← abs_neg, h02, mul_comm (q 3)]
    exact hp
  obtain ⟨hlo, hhi⟩ := abs_lt.1 hc
  refine ⟨Angles.atan2 (dcmOfUnit q 1 2) (dcmOfUnit q 2 2), arcsin (-dcmOfUnit q 0 2),
    Angles.atan2 (dcmOfUnit q 0 1) (dcmOfUnit q 0 0), ?_,
    ⟨neg_pi_div_two_lt_arcsin.2 (by linarith), arcsin_lt_pi_div_two.2 (by linarith)⟩, ?_⟩
  · rw [toEuler, hn]
    exact congrArg Except.ok (eulerOfUnit_real hp)
  · rw [toDcm, hn, frames_of_rotation hR hc]
    rfl

/-- The exported Euler angles describe the attitude of the quaternion. In exact arithmetic, for a
unit quaternion off the gimbal lock, the pitch lies in `(-π/2, π/2)` and the frame rotations about
`x`, `y` and `z` by roll, pitch and yaw compose to its direction cosine matrix; in binary64 the
model's angles are these formulas, a quaternion and its negation have exactly the same angles,
and every row of an ephemeris' table carries the angles of its own quaternion. -/
theorem euler_angles_describe_attitude :
    (∀ q : Fin 4 → ℝ, q ⬝ᵥ q = 1 → |2 * (q 0 * q 2 - q 1 * q 3)| < 1 →
      ∃ roll pitch yaw : ℝ, toEuler q = .ok (roll, pitch, yaw) ∧
        pitch ∈ Set.Ioo (-(π / 2)) (π / 2) ∧
        toDcm q = .ok (frameX roll * frameY pitch * frameZ yaw)) ∧
    (∀ q : Quat, q.toEuler = toEuler q.toFun) ∧
    (∀ q : Quat, q.negate.toEuler = q.toEuler) ∧
    (∀ (e : Ephemeris) (rows : List (List Float)), e.table = .ok rows →
      ∀ (j : Nat) (s : SatState), e.entries.toList[j]? = some s →
        ∃ r, rows[j]? = some r ∧ (r.drop 7).take 4 = s.quaternion.toList ∧
          ∃ roll pitch yaw : Float, (r.drop 14).take 3 = [roll, pitch, yaw] ∧
            s.quaternion.toEuler = .ok (roll, pitch, yaw)) :=
  ⟨fun _ hq hp => euler_frames hq hp, Quat.toEuler_eq, Quat.toEuler_negate,
    fun _ _ h j _ hs => Ephemeris.table_euler_columns h j hs⟩

/-- The quaternion `(1, 1, 1, 1) / 2`, the third of a turn about `(1, 1, 1)`, has Euler angles
whose frame rotations give back its matrix. -/
theorem third_turn_euler_frames :
    ∃ roll pitch yaw : ℝ,
      toEuler (![1 / 2, 1 / 2, 1 / 2, 1 / 2] : Fin 4 → ℝ) = .ok (roll, pitch, yaw) ∧
      pitch ∈ Set.Ioo (-(π / 2)) (π / 2) ∧
      toDcm (![1 / 2, 1 / 2, 1 / 2, 1 / 2] : Fin 4 → ℝ) =
        .ok (frameX roll * frameY pitch * frameZ yaw) :=
  euler_angles_describe_attitude.1 _
    (by simp only [dotProduct, Fin.sum_univ_four, Matrix.cons_val]; norm_num)
    (by simp only [Matrix.cons_val]; norm_num)

end Attitude

end Spacecraft
