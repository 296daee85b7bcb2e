import Mathlib
import Spacecraft.Guidance.Pointing
import Spacecraft.Proofs.Exact.Rotation
import Spacecraft.Proofs.Exact.EulerEquations

/-!
# Pointing frames in exact arithmetic

The frames of automatic pointing over any ordered `Scalar`: the nadir frame of an orbit (third
axis to the centre, second against the orbit normal, first completing them), the velocity frame
(first axis along the velocity, second against the orbit normal) and the Sun frame (third axis
to the Sun, first normal to it and to a reference axis, the pole or, near it, the vernal
equinox). A command is the quaternion Shepperd's method reads off the frame, normalized, with
the target rates. At `Float` these are the model's (`Guidance.target_orbit`,
`Guidance.target_sun`).

Over the real numbers each frame has orthonormal rows and determinant one wherever the axes it
is built from are defined: the orbit normal `r × v` non-zero for the nadir and velocity frames,
the Sun away from the satellite for the Sun frame, whichever reference axis that frame takes.
So the quaternion of the command is a unit quaternion with non-negative scalar part whose
rotation is the frame, and that rotation takes each axis the frame was built from to the body
axis it names.
-/

namespace Spacecraft

namespace Pointing

open Matrix

section Formulas

variable {K : Type} [Scalar K] [LT K] [DecidableLT K]

/-- The inner product, accumulated by fused multiply-add from zero in index order. -/
def dot (a b : Fin 3 → K) : K :=
  Scalar.fma (a 2) (b 2) (Scalar.fma (a 1) (b 1) (Scalar.fma (a 0) (b 0) 0.0))

/-- The unit vector along `v`, each component divided by the length. -/
def unit (v : Fin 3 → K) : Fin 3 → K := fun i => v i / Scalar.sqrt (dot v v)

/-- The matrix with the given rows. -/
def rows (x y z : Fin 3 → K) : Matrix (Fin 3) (Fin 3) K := Matrix.of ![x, y, z]

/-- The nadir frame of an orbit and its inertial angular velocity `h / |r|²`. -/
def orbitFrame (r v : Fin 3 → K) : Matrix (Fin 3) (Fin 3) K × (Fin 3 → K) :=
  let h := Euler.cross r v
  let z : Fin 3 → K := fun i => -unit r i
  let y : Fin 3 → K := fun i => -unit h i
  (rows (Euler.cross y z) y z, fun i => h i / dot r r)

/-- The velocity frame: first axis along the velocity, second the nadir frame's. -/
def velocityFrame (r v : Fin 3 → K) : Matrix (Fin 3) (Fin 3) K :=
  let x := unit v
  let y := (orbitFrame r v).1 1
  rows x y (Euler.cross x y)

/-- The reference axis of Sun pointing: the pole, or the vernal equinox when the direction to
the Sun is within `acos 0.99` of the pole. -/
def reference (z : Fin 3 → K) : Fin 3 → K :=
  if Scalar.abs (dot ![0.0, 0.0, 1.0] z) > 0.99 then ![1.0, 0.0, 0.0] else ![0.0, 0.0, 1.0]

/-- The Sun frame of a direction to the Sun. -/
def sunFrame (toSun : Fin 3 → K) : Matrix (Fin 3) (Fin 3) K :=
  let z := unit toSun
  let x := unit (Euler.cross (reference z) z)
  rows x (Euler.cross z x) z

/-- A command: the attitude normalized, with the target rates. -/
def command (q : Fin 4 → K) (w : Fin 3 → K) : Outcome ((Fin 4 → K) × (Fin 3 → K)) :=
  (Attitude.normalize q).map fun u => (u, w)

/-- The command of a frame turning at `omega` (inertial): the quaternion of the frame and the
rates in the frame's axes. -/
def frameCommand (C : Matrix (Fin 3) (Fin 3) K) (omega : Fin 3 → K) :
    Outcome ((Fin 4 → K) × (Fin 3 → K)) := do
  let q ← Attitude.ofDcm C
  command q (Euler.mulVec C omega)

/-- The command of automatic pointing in each mode, from the direction to the Sun, the fixed
attitude of inertial pointing and the position and velocity. -/
def target (mode : PointingMode) (toSun : Fin 3 → K) (inertial : Fin 4 → K) (r v : Fin 3 → K) :
    Outcome ((Fin 4 → K) × (Fin 3 → K)) :=
  match mode with
  | .inertial => command inertial ![0.0, 0.0, 0.0]
  | .sun => do
    let q ← Attitude.ofDcm (sunFrame toSun)
    command q ![0.0, 0.0, 0.0]
  | .nadir => frameCommand (orbitFrame r v).1 (orbitFrame r v).2
  | .velocity => frameCommand (velocityFrame r v) (orbitFrame r v).2

end Formulas

end Pointing

/-! ### The model's pointing at `Float` -/

/-- The target attitude and rates of a command. -/
def Command.view (c : Command) : List Float × (Fin 3 → Float) := (c.attitude, c.rates.toFun)

namespace Vec3

theorem toFun_dot (a b : Vec3) : a.dot b = Pointing.dot a.toFun b.toFun := rfl

theorem toFun_unit (v : Vec3) : v.unit.toFun = Pointing.unit v.toFun := by
  funext i
  fin_cases i <;> rfl

end Vec3

theorem orbitFrame_toMatrix (s : SatState) :
    (orbitFrame s).1.toMatrix = (Pointing.orbitFrame s.position.toFun s.velocity.toFun).1 ∧
      (orbitFrame s).2.toFun = (Pointing.orbitFrame s.position.toFun s.velocity.toFun).2 := by
  constructor
  · ext i j
    fin_cases i <;> fin_cases j <;> rfl
  · funext i
    fin_cases i <;> rfl

theorem Quat.toList_eq_ofFn (q : Quat) : q.toList = List.ofFn q.toFun := rfl

theorem Vec3.toList_eq_ofFn (v : Vec3) : v.toList = List.ofFn v.toFun := rfl

theorem Command.make_view (u : Fin 4 → Float) (w : Fin 3 → Float) :
    (Command.make (List.ofFn u) (List.ofFn w)).map Command.view =
      (Pointing.command u w).map fun p => (List.ofFn p.1, p.2) := by
  have hn : normList (List.ofFn u) = Scalar.sqrt (Attitude.normSq u) := rfl
  have hw : Vec3.ofList? (List.ofFn w) = some ⟨w 0, w 1, w 2⟩ := rfl
  unfold Command.make Quat.normalizeList Pointing.command Attitude.normalize
  rw [hn, hw]
  dsimp only
  split_ifs
  · rfl
  · show Except.ok _ = Except.ok _
    simp only [List.map_ofFn, Command.view]
    congr 2
    funext i
    fin_cases i <;> rfl

/-- The command of a frame, at `Float`, is the model's. -/
theorem frameCommand_view (dcm : Mat3) (omega : Vec3) :
    (do let q ← Quat.ofDcm dcm; Command.make q.toList (dcm.mulVec omega).toList).map Command.view =
      (Pointing.frameCommand dcm.toMatrix omega.toFun).map fun p => (List.ofFn p.1, p.2) := by
  unfold Pointing.frameCommand
  rw [← Quat.ofDcm_toFun, ← Mat3.toFun_mulVec]
  cases Quat.ofDcm dcm with
  | error f => rfl
  | ok q => exact Command.make_view q.toFun (dcm.mulVec omega).toFun

theorem Mat3.ofRows_toMatrix (a b c : Vec3) :
    (Mat3.ofRows a b c).toMatrix = Pointing.rows a.toFun b.toFun c.toFun := by
  ext i j
  fin_cases i <;> fin_cases j <;> rfl

theorem reference_toFun (z : Vec3) :
    (if ((⟨0.0, 0.0, 1.0⟩ : Vec3).dot z).abs > 0.99 then (⟨1.0, 0.0, 0.0⟩ : Vec3)
      else ⟨0.0, 0.0, 1.0⟩).toFun = Pointing.reference z.toFun := by
  have hc : ((⟨0.0, 0.0, 1.0⟩ : Vec3).dot z).abs =
      Scalar.abs (Pointing.dot ![0.0, 0.0, 1.0] z.toFun) := rfl
  unfold Pointing.reference
  rw [hc]
  split_ifs <;> funext i <;> fin_cases i <;> rfl

theorem sunFrame_toMatrix (toSun : Vec3) :
    (Guidance.sunFrame toSun).toMatrix = Pointing.sunFrame toSun.toFun := by
  unfold Guidance.sunFrame Pointing.sunFrame
  dsimp only
  rw [Mat3.ofRows_toMatrix, ← Vec3.toFun_unit, ← reference_toFun, ← Vec3.toFun_cross,
    ← Vec3.toFun_unit, ← Vec3.toFun_cross]

theorem velocityFrame_toMatrix (s : SatState) :
    (Mat3.ofRows s.velocity.unit (orbitFrame s).1.r1
      (s.velocity.unit.cross (orbitFrame s).1.r1)).toMatrix =
      Pointing.velocityFrame s.position.toFun s.velocity.toFun := by
  have hy : (orbitFrame s).1.r1.toFun = (Pointing.orbitFrame s.position.toFun s.velocity.toFun).1 1 := by
    rw [← (orbitFrame_toMatrix s).1]
    rfl
  rw [Mat3.ofRows_toMatrix, Vec3.toFun_cross, hy, Vec3.toFun_unit]
  rfl

/-- Automatic pointing at `Float` is `Pointing.target`, with the Sun where the model's ephemeris
puts it. -/
theorem Guidance.target_view (mode : PointingMode) (e : Epoch) (qi : Fin 4 → Float) (t : Float)
    (s : SatState) (m : GuidanceMemory) :
    (Guidance.target (.automatic mode e (List.ofFn qi)) t s m).map Command.view =
      (Pointing.target mode (SunMoon.sun e t - s.position).toFun qi s.position.toFun
        s.velocity.toFun).map fun p => (List.ofFn p.1, p.2) := by
  cases mode with
  | inertial => exact Command.make_view qi ![0.0, 0.0, 0.0]
  | sun =>
    show (do
        let q ← Quat.ofDcm (Guidance.sunFrame (SunMoon.sun e t - s.position))
        Command.hold q.toList).map Command.view = _
    unfold Pointing.target
    rw [← sunFrame_toMatrix, ← Quat.ofDcm_toFun]
    cases Quat.ofDcm (Guidance.sunFrame (SunMoon.sun e t - s.position)) with
    | error f => rfl
    | ok q => exact Command.make_view q.toFun ![0.0, 0.0, 0.0]
  | nadir =>
    have h := frameCommand_view (orbitFrame s).1 (orbitFrame s).2
    rw [(orbitFrame_toMatrix s).1, (orbitFrame_toMatrix s).2] at h
    exact h
  | velocity =>
    have h := frameCommand_view (Mat3.ofRows s.velocity.unit (orbitFrame s).1.r1
      (s.velocity.unit.cross (orbitFrame s).1.r1)) (orbitFrame s).2
    rw [velocityFrame_toMatrix, (orbitFrame_toMatrix s).2] at h
    exact h

end Spacecraft

namespace Spacecraft

namespace Pointing

open Matrix

section Real

theorem dot_real (a b : Fin 3 → ℝ) : dot a b = a ⬝ᵥ b := by
  have h0 : (0.0 : ℝ) = 0 := by norm_num
  simp only [dot, Scalar.real_fma, h0, dotProduct, Fin.sum_univ_three]
  ring

theorem unit_real (v : Fin 3 → ℝ) : unit v = (√(v ⬝ᵥ v))⁻¹ • v := by
  funext i
  simp [unit, dot_real, div_eq_inv_mul]

theorem dotProduct_self_pos {v : Fin 3 → ℝ} (hv : v ≠ 0) : 0 < v ⬝ᵥ v := by
  have h0 : 0 ≤ v ⬝ᵥ v := Finset.sum_nonneg fun i _ => mul_self_nonneg (v i)
  rcases h0.lt_or_eq with h | h
  · exact h
  · exact absurd (dotProduct_self_eq_zero.mp h.symm) hv

theorem unit_dotProduct_unit {v : Fin 3 → ℝ} (hv : v ≠ 0) : unit v ⬝ᵥ unit v = 1 := by
  have h := dotProduct_self_pos hv
  rw [unit_real, smul_dotProduct, dotProduct_smul, smul_eq_mul, smul_eq_mul, ← mul_assoc,
    ← mul_inv, Real.mul_self_sqrt h.le, inv_mul_cancel₀ h.ne']

/-- Three rows that are unit vectors, pairwise orthogonal and right-handed. -/
structure RightHanded (x y z : Fin 3 → ℝ) : Prop where
  xx : x ⬝ᵥ x = 1
  yy : y ⬝ᵥ y = 1
  zz : z ⬝ᵥ z = 1
  xy : x ⬝ᵥ y = 0
  xz : x ⬝ᵥ z = 0
  yz : y ⬝ᵥ z = 0
  triple : x ⬝ᵥ y ⨯₃ z = 1

theorem rows_mul_transpose (x y z : Fin 3 → ℝ) :
    rows x y z * (rows x y z)ᵀ =
      Matrix.of ![![x ⬝ᵥ x, x ⬝ᵥ y, x ⬝ᵥ z], ![y ⬝ᵥ x, y ⬝ᵥ y, y ⬝ᵥ z], ![z ⬝ᵥ x, z ⬝ᵥ y, z ⬝ᵥ z]] := by
  ext i j
  fin_cases i <;> fin_cases j <;> rfl

theorem rows_mulVec (x y z w : Fin 3 → ℝ) : rows x y z *ᵥ w = ![x ⬝ᵥ w, y ⬝ᵥ w, z ⬝ᵥ w] := by
  funext i
  fin_cases i <;> rfl

namespace RightHanded

variable {x y z : Fin 3 → ℝ}

/-- Right-handed orthonormal rows make a proper rotation. -/
theorem mem (h : RightHanded x y z) : rows x y z ∈ specialOrthogonalGroup (Fin 3) ℝ := by
  have hyx : y ⬝ᵥ x = 0 := by rw [dotProduct_comm, h.xy]
  have hzx : z ⬝ᵥ x = 0 := by rw [dotProduct_comm, h.xz]
  have hzy : z ⬝ᵥ y = 0 := by rw [dotProduct_comm, h.yz]
  rw [mem_specialOrthogonalGroup_iff, mem_orthogonalGroup_iff, rows_mul_transpose]
  refine ⟨?_, ?_⟩
  · ext i j
    fin_cases i <;> fin_cases j <;> simp [h.xx, h.yy, h.zz, h.xy, h.xz, h.yz, hyx, hzx, hzy]
  · show Matrix.det ![x, y, z] = 1
    rw [← triple_product_eq_det]
    exact h.triple

/-- The rotation takes each row to the body axis of its index. -/
theorem mulVec_rows (h : RightHanded x y z) :
    rows x y z *ᵥ x = ![1, 0, 0] ∧ rows x y z *ᵥ y = ![0, 1, 0] ∧ rows x y z *ᵥ z = ![0, 0, 1] := by
  have hyx : y ⬝ᵥ x = 0 := by rw [dotProduct_comm, h.xy]
  have hzx : z ⬝ᵥ x = 0 := by rw [dotProduct_comm, h.xz]
  have hzy : z ⬝ᵥ y = 0 := by rw [dotProduct_comm, h.yz]
  simp only [rows_mulVec, h.xx, h.yy, h.zz, h.xy, h.xz, h.yz, hyx, hzx, hzy, and_self]

end RightHanded

/-- Two orthonormal vectors and their cross product, in each of the orders the frames use. -/
theorem rightHanded_of_orthonormal {a b : Fin 3 → ℝ} (ha : a ⬝ᵥ a = 1) (hb : b ⬝ᵥ b = 1)
    (hab : a ⬝ᵥ b = 0) :
    RightHanded a b (a ⨯₃ b) ∧ RightHanded (a ⨯₃ b) a b ∧ RightHanded b (a ⨯₃ b) a := by
  have hba : b ⬝ᵥ a = 0 := by rw [dotProduct_comm, hab]
  have hcc : a ⨯₃ b ⬝ᵥ a ⨯₃ b = 1 := by rw [cross_dot_cross, ha, hb, hab, hba]; ring
  have hac : a ⬝ᵥ a ⨯₃ b = 0 := dot_self_cross a b
  have hbc : b ⬝ᵥ a ⨯₃ b = 0 := dot_cross_self a b
  have hca : a ⨯₃ b ⬝ᵥ a = 0 := by rw [dotProduct_comm, hac]
  have hcb : a ⨯₃ b ⬝ᵥ b = 0 := by rw [dotProduct_comm, hbc]
  -- the three triple products are the squared length of `a × b`, cyclically
  have t1 : a ⬝ᵥ b ⨯₃ (a ⨯₃ b) = 1 := by rw [← triple_product_permutation, hcc]
  have t2 : a ⨯₃ b ⬝ᵥ a ⨯₃ b = 1 := hcc
  have t3 : b ⬝ᵥ (a ⨯₃ b) ⨯₃ a = 1 := by
    rw [triple_product_permutation, hcc]
  exact ⟨⟨ha, hb, hcc, hab, hac, hbc, t1⟩, ⟨hcc, ha, hb, hca, hcb, hab, t2⟩,
    ⟨hb, hcc, ha, hbc, hba, hca, t3⟩⟩

theorem unit_dotProduct_unit_eq_zero {a b : Fin 3 → ℝ} (h : a ⬝ᵥ b = 0) :
    unit a ⬝ᵥ unit b = 0 := by
  rw [unit_real, unit_real, smul_dotProduct, dotProduct_smul, h, smul_zero, smul_zero]

theorem ne_zero_of_cross_ne_zero {r v : Fin 3 → ℝ} (h : r ⨯₃ v ≠ 0) : r ≠ 0 ∧ v ≠ 0 := by
  constructor <;> rintro rfl <;> simp at h

/-- Over the reals the nadir frame has rows `(-ĥ) × (-r̂)`, `-ĥ` and `-r̂` and turns at
`h / |r|²`. -/
theorem orbitFrame_real (r v : Fin 3 → ℝ) :
    orbitFrame r v = (rows (-unit (r ⨯₃ v) ⨯₃ -unit r) (-unit (r ⨯₃ v)) (-unit r),
      (r ⬝ᵥ r)⁻¹ • (r ⨯₃ v)) := by
  unfold orbitFrame
  simp only [Euler.cross_real, dot_real]
  congr 1
  funext i
  simp [div_eq_inv_mul]

theorem velocityFrame_real (r v : Fin 3 → ℝ) :
    velocityFrame r v = rows (unit v) (-unit (r ⨯₃ v)) (unit v ⨯₃ -unit (r ⨯₃ v)) := by
  unfold velocityFrame
  rw [orbitFrame_real]
  simp only [Euler.cross_real]
  rfl

theorem reference_real (z : Fin 3 → ℝ) :
    reference z = if (0.99 : ℝ) < |z 2| then ![1, 0, 0] else ![0, 0, 1] := by
  have h0 : (0.0 : ℝ) = 0 := by norm_num
  have h1 : (1.0 : ℝ) = 1 := by norm_num
  have hd : dot ![0.0, 0.0, 1.0] z = z 2 := by simp [dot_real, dotProduct, Fin.sum_univ_three, h0, h1]
  rw [reference, hd, Scalar.real_abs, h0, h1]

theorem sunFrame_real (toSun : Fin 3 → ℝ) :
    sunFrame toSun = rows (unit (reference (unit toSun) ⨯₃ unit toSun))
      (unit toSun ⨯₃ unit (reference (unit toSun) ⨯₃ unit toSun)) (unit toSun) := by
  unfold sunFrame
  simp only [Euler.cross_real]

/-- The nadir frame of an orbit with a non-zero orbit normal is right-handed orthonormal. -/
theorem rightHanded_orbitFrame {r v : Fin 3 → ℝ} (h : r ⨯₃ v ≠ 0) :
    RightHanded (-unit (r ⨯₃ v) ⨯₃ -unit r) (-unit (r ⨯₃ v)) (-unit r) := by
  have hr := (ne_zero_of_cross_ne_zero h).1
  have hhr : r ⨯₃ v ⬝ᵥ r = 0 := by rw [dotProduct_comm]; exact dot_self_cross r v
  refine (rightHanded_of_orthonormal ?_ ?_ ?_).2.1
  · rw [neg_dotProduct_neg, unit_dotProduct_unit h]
  · rw [neg_dotProduct_neg, unit_dotProduct_unit hr]
  · rw [neg_dotProduct_neg, unit_dotProduct_unit_eq_zero hhr]

/-- The velocity frame of an orbit with a non-zero orbit normal is right-handed orthonormal. -/
theorem rightHanded_velocityFrame {r v : Fin 3 → ℝ} (h : r ⨯₃ v ≠ 0) :
    RightHanded (unit v) (-unit (r ⨯₃ v)) (unit v ⨯₃ -unit (r ⨯₃ v)) := by
  have hv := (ne_zero_of_cross_ne_zero h).2
  have hvh : v ⬝ᵥ r ⨯₃ v = 0 := dot_cross_self r v
  refine (rightHanded_of_orthonormal ?_ ?_ ?_).1
  · exact unit_dotProduct_unit hv
  · rw [neg_dotProduct_neg, unit_dotProduct_unit h]
  · rw [dotProduct_neg, unit_dotProduct_unit_eq_zero hvh, neg_zero]

/-- The reference axis is never along a unit direction to the Sun: it is the pole only when
the direction is at least `acos 0.99` from it, and the equinox only when the direction is
within that angle of the pole, hence far from the equinox. -/
theorem reference_cross_ne_zero {z : Fin 3 → ℝ} (hz : z ⬝ᵥ z = 1) : reference z ⨯₃ z ≠ 0 := by
  have hzz : z 0 * z 0 + z 1 * z 1 + z 2 * z 2 = 1 := by
    simpa [dotProduct, Fin.sum_univ_three] using hz
  -- the cross product of two unit vectors has squared length `1 - (e ⬝ z)²`
  have hlen : reference z ⨯₃ z ⬝ᵥ reference z ⨯₃ z =
      reference z ⬝ᵥ reference z - (reference z ⬝ᵥ z) ^ 2 := by
    rw [cross_dot_cross, hz, dotProduct_comm z (reference z)]
    ring
  intro h0
  rw [h0, zero_dotProduct] at hlen
  rw [reference_real] at hlen
  split_ifs at hlen with hpole
  · have hsq : (0.99 : ℝ) ^ 2 < z 2 ^ 2 := by
      have := abs_nonneg (z 2)
      nlinarith [sq_abs (z 2)]
    simp [dotProduct, Fin.sum_univ_three] at hlen
    nlinarith [mul_self_nonneg (z 1)]
  · have hsq : z 2 ^ 2 ≤ (0.99 : ℝ) ^ 2 := by
      have h99 : |z 2| ≤ 0.99 := not_lt.mp hpole
      nlinarith [sq_abs (z 2), abs_nonneg (z 2)]
    simp [dotProduct, Fin.sum_univ_three] at hlen
    nlinarith

/-- The Sun frame of a direction to the Sun is right-handed orthonormal, whichever reference
axis it takes. -/
theorem rightHanded_sunFrame {toSun : Fin 3 → ℝ} (h : toSun ≠ 0) :
    RightHanded (unit (reference (unit toSun) ⨯₃ unit toSun))
      (unit toSun ⨯₃ unit (reference (unit toSun) ⨯₃ unit toSun)) (unit toSun) := by
  have hz := unit_dotProduct_unit h
  have hc := reference_cross_ne_zero hz
  have hzc : unit toSun ⬝ᵥ reference (unit toSun) ⨯₃ unit toSun = 0 := dot_cross_self _ _
  exact (rightHanded_of_orthonormal hz (unit_dotProduct_unit hc)
    (by rw [unit_real (_ ⨯₃ _), dotProduct_smul, hzc, smul_zero])).2.2

/-- The quaternion Shepperd's method gives has a non-negative scalar part: the sign fix makes
it so, and normalizing scales by a positive factor. -/
theorem ofDcm_scalar_nonneg {m : Matrix (Fin 3) (Fin 3) ℝ} {u : Fin 4 → ℝ}
    (h : Attitude.ofDcm m = .ok u) : 0 ≤ u 0 := by
  rw [Attitude.ofDcm_real, Attitude.normalize_real] at h
  set p := if Attitude.shepperd m 0 < 0 then -Attitude.shepperd m else Attitude.shepperd m
  have hp : 0 ≤ p 0 := by
    simp only [p]
    split_ifs with hneg
    · simp only [Pi.neg_apply]
      linarith
    · exact not_lt.mp hneg
  split_ifs at h
  cases h
  exact mul_nonneg (inv_nonneg.mpr (Real.sqrt_nonneg _)) hp

theorem zero_vector_real : (![0.0, 0.0, 0.0] : Fin 3 → ℝ) = 0 := by
  funext i
  fin_cases i <;> norm_num

theorem command_of_unit {q : Fin 4 → ℝ} (hq : q ⬝ᵥ q = 1) (w : Fin 3 → ℝ) :
    command q w = .ok (q, w) := by
  rw [command, Attitude.normalize_of_unit hq]
  rfl

/-- The command of a proper rotation: a unit quaternion with non-negative scalar part whose
rotation is the frame, with the rates in the frame's axes. -/
theorem frameCommand_of_mem {C : Matrix (Fin 3) (Fin 3) ℝ}
    (hC : C ∈ specialOrthogonalGroup (Fin 3) ℝ) (omega : Fin 3 → ℝ) :
    ∃ q, frameCommand C omega = .ok (q, C *ᵥ omega) ∧ q ⬝ᵥ q = 1 ∧ 0 ≤ q 0 ∧
      Attitude.toDcm q = .ok C := by
  obtain ⟨u, hu, hunit, hdcm⟩ := Attitude.ofDcm_of_mem hC
  refine ⟨u, ?_, hunit, ofDcm_scalar_nonneg hu, hdcm⟩
  rw [frameCommand, hu, Euler.mulVec_real]
  exact command_of_unit hunit _

/-- Nadir pointing: the commanded rotation takes the direction to the centre of the Earth to
the third body axis and the orbit normal against the second, and turns at the orbit rate. -/
theorem target_nadir {r v : Fin 3 → ℝ} (h : r ⨯₃ v ≠ 0) (toSun : Fin 3 → ℝ) (qi : Fin 4 → ℝ) :
    ∃ q, target .nadir toSun qi r v = .ok (q, (orbitFrame r v).1 *ᵥ (orbitFrame r v).2) ∧
      q ⬝ᵥ q = 1 ∧ 0 ≤ q 0 ∧ Attitude.toDcm q = .ok (orbitFrame r v).1 ∧
      (orbitFrame r v).1 *ᵥ (-(√(r ⬝ᵥ r))⁻¹ • r) = ![0, 0, 1] ∧
      (orbitFrame r v).1 *ᵥ ((√(r ⨯₃ v ⬝ᵥ r ⨯₃ v))⁻¹ • r ⨯₃ v) = ![0, -1, 0] := by
  have hR := rightHanded_orbitFrame h
  obtain ⟨-, hy, hz⟩ := hR.mulVec_rows
  have hmem : (orbitFrame r v).1 ∈ specialOrthogonalGroup (Fin 3) ℝ := by
    rw [orbitFrame_real]
    exact hR.mem
  obtain ⟨q, hq, hunit, hq0, hdcm⟩ := frameCommand_of_mem hmem (orbitFrame r v).2
  refine ⟨q, hq, hunit, hq0, hdcm, ?_, ?_⟩
  · rw [orbitFrame_real, neg_smul, ← unit_real]
    exact hz
  · rw [orbitFrame_real, ← unit_real, ← neg_neg (_ *ᵥ unit _), ← mulVec_neg]
    dsimp only
    rw [hy]
    simp

/-- Velocity pointing: the commanded rotation takes the velocity to the first body axis and
the orbit normal against the second. -/
theorem target_velocity {r v : Fin 3 → ℝ} (h : r ⨯₃ v ≠ 0) (toSun : Fin 3 → ℝ)
    (qi : Fin 4 → ℝ) :
    ∃ q, target .velocity toSun qi r v = .ok (q, velocityFrame r v *ᵥ (orbitFrame r v).2) ∧
      q ⬝ᵥ q = 1 ∧ 0 ≤ q 0 ∧ Attitude.toDcm q = .ok (velocityFrame r v) ∧
      velocityFrame r v *ᵥ ((√(v ⬝ᵥ v))⁻¹ • v) = ![1, 0, 0] ∧
      velocityFrame r v *ᵥ ((√(r ⨯₃ v ⬝ᵥ r ⨯₃ v))⁻¹ • r ⨯₃ v) = ![0, -1, 0] := by
  have hR := rightHanded_velocityFrame h
  obtain ⟨hx, hy, -⟩ := hR.mulVec_rows
  have hmem : velocityFrame r v ∈ specialOrthogonalGroup (Fin 3) ℝ := by
    rw [velocityFrame_real]
    exact hR.mem
  obtain ⟨q, hq, hunit, hq0, hdcm⟩ := frameCommand_of_mem hmem (orbitFrame r v).2
  refine ⟨q, hq, hunit, hq0, hdcm, ?_, ?_⟩
  · rw [velocityFrame_real, ← unit_real]
    exact hx
  · rw [velocityFrame_real, ← unit_real, ← neg_neg (_ *ᵥ unit _), ← mulVec_neg, hy]
    simp

/-- Sun pointing: the commanded rotation takes the direction to the Sun to the third body
axis, and holds it with zero rates. -/
theorem target_sun {sun r : Fin 3 → ℝ} (h : sun ≠ r) (qi : Fin 4 → ℝ) (v : Fin 3 → ℝ) :
    ∃ q, target .sun (sun - r) qi r v = .ok (q, 0) ∧ q ⬝ᵥ q = 1 ∧ 0 ≤ q 0 ∧
      Attitude.toDcm q = .ok (sunFrame (sun - r)) ∧
      sunFrame (sun - r) *ᵥ ((√((sun - r) ⬝ᵥ (sun - r)))⁻¹ • (sun - r)) = ![0, 0, 1] := by
  have hR := rightHanded_sunFrame (sub_ne_zero.mpr h)
  obtain ⟨-, -, hz⟩ := hR.mulVec_rows
  have hmem : sunFrame (sun - r) ∈ specialOrthogonalGroup (Fin 3) ℝ := by
    rw [sunFrame_real]
    exact hR.mem
  obtain ⟨u, hu, hunit, hdcm⟩ := Attitude.ofDcm_of_mem hmem
  refine ⟨u, ?_, hunit, ofDcm_scalar_nonneg hu, hdcm, ?_⟩
  · rw [target, hu, zero_vector_real]
    exact command_of_unit hunit 0
  · rw [sunFrame_real, ← unit_real]
    exact hz

/-- Inertial pointing holds the fixed attitude normalized, with zero rates. -/
theorem target_inertial {qi : Fin 4 → ℝ} (hq : 1e-12 ≤ √(qi ⬝ᵥ qi)) (toSun r v : Fin 3 → ℝ) :
    target .inertial toSun qi r v = .ok (Attitude.unit qi, 0) := by
  rw [target, command, Attitude.normalize_of_le hq, zero_vector_real]
  rfl

/-- The nadir frame of an orbit with a non-zero orbit normal is a proper rotation. -/
theorem orbitFrame_mem {r v : Fin 3 → ℝ} (h : r ⨯₃ v ≠ 0) :
    (orbitFrame r v).1 ∈ specialOrthogonalGroup (Fin 3) ℝ := by
  rw [orbitFrame_real]
  exact (rightHanded_orbitFrame h).mem

end Real

/-- Pointing geometry. Automatic pointing at `Float` is `target`. Over the reals the nadir frame
of an orbit with a non-zero orbit normal `h = r × v` is a proper rotation turning at `h / |r|²`;
the nadir and velocity commands are unit quaternions with non-negative scalar part whose
rotations are their frames, taking `-r/|r|` to the third body axis (nadir), `v/|v|` to the first
(velocity) and `h/|h|` against the second; the Sun command's rotation takes the direction to a
Sun anywhere but at the satellite to the third body axis, whichever reference axis its frame
takes; and inertial pointing holds the fixed attitude normalized. -/
theorem pointing_geometry :
    (∀ (mode : PointingMode) (e : Epoch) (qi : Fin 4 → Float) (t : Float) (s : SatState)
      (m : GuidanceMemory),
      (Guidance.target (.automatic mode e (List.ofFn qi)) t s m).map Command.view =
        (target mode (SunMoon.sun e t - s.position).toFun qi s.position.toFun
          s.velocity.toFun).map fun p => (List.ofFn p.1, p.2)) ∧
    (∀ r v : Fin 3 → ℝ, r ⨯₃ v ≠ 0 →
      (orbitFrame r v).1 ∈ specialOrthogonalGroup (Fin 3) ℝ ∧
        (orbitFrame r v).2 = (r ⬝ᵥ r)⁻¹ • r ⨯₃ v) ∧
    (∀ (r v toSun : Fin 3 → ℝ) (qi : Fin 4 → ℝ), r ⨯₃ v ≠ 0 →
      ∃ q, target .nadir toSun qi r v = .ok (q, (orbitFrame r v).1 *ᵥ (orbitFrame r v).2) ∧
        q ⬝ᵥ q = 1 ∧ 0 ≤ q 0 ∧ Attitude.toDcm q = .ok (orbitFrame r v).1 ∧
        (orbitFrame r v).1 *ᵥ (-(√(r ⬝ᵥ r))⁻¹ • r) = ![0, 0, 1] ∧
        (orbitFrame r v).1 *ᵥ ((√(r ⨯₃ v ⬝ᵥ r ⨯₃ v))⁻¹ • r ⨯₃ v) = ![0, -1, 0]) ∧
    (∀ (r v toSun : Fin 3 → ℝ) (qi : Fin 4 → ℝ), r ⨯₃ v ≠ 0 →
      ∃ q, target .velocity toSun qi r v = .ok (q, velocityFrame r v *ᵥ (orbitFrame r v).2) ∧
        q ⬝ᵥ q = 1 ∧ 0 ≤ q 0 ∧ Attitude.toDcm q = .ok (velocityFrame r v) ∧
        velocityFrame r v *ᵥ ((√(v ⬝ᵥ v))⁻¹ • v) = ![1, 0, 0] ∧
        velocityFrame r v *ᵥ ((√(r ⨯₃ v ⬝ᵥ r ⨯₃ v))⁻¹ • r ⨯₃ v) = ![0, -1, 0]) ∧
    (∀ (sun r v : Fin 3 → ℝ) (qi : Fin 4 → ℝ), sun ≠ r →
      ∃ q, target .sun (sun - r) qi r v = .ok (q, 0) ∧ q ⬝ᵥ q = 1 ∧ 0 ≤ q 0 ∧
        Attitude.toDcm q = .ok (sunFrame (sun - r)) ∧
        sunFrame (sun - r) *ᵥ ((√((sun - r) ⬝ᵥ (sun - r)))⁻¹ • (sun - r)) = ![0, 0, 1]) ∧
    (∀ (toSun r v : Fin 3 → ℝ) (qi : Fin 4 → ℝ), 1e-12 ≤ √(qi ⬝ᵥ qi) →
      target .inertial toSun qi r v = .ok (Attitude.unit qi, 0)) := by
  refine ⟨Guidance.target_view, fun r v h => ⟨orbitFrame_mem h, ?_⟩,
    fun r v toSun qi h => target_nadir h toSun qi, fun r v toSun qi h => target_velocity h toSun qi,
    fun sun r v qi h => target_sun h qi v, fun toSun r v qi h => target_inertial h toSun r v⟩
  rw [orbitFrame_real]

/-- An equatorial orbit through the first axis, moving along the second: the nadir command
exists, with the properties of `pointing_geometry`. -/
theorem equatorial_nadir_command :
    (![1, 0, 0] : Fin 3 → ℝ) ⨯₃ ![0, 1, 0] ≠ 0 ∧
      ∃ q, target .nadir (0 : Fin 3 → ℝ) ![1, 0, 0, 0] ![1, 0, 0] ![0, 1, 0] =
          .ok (q, (orbitFrame (![1, 0, 0] : Fin 3 → ℝ) ![0, 1, 0]).1 *ᵥ
            (orbitFrame (![1, 0, 0] : Fin 3 → ℝ) ![0, 1, 0]).2) ∧
        q ⬝ᵥ q = 1 ∧ 0 ≤ q 0 ∧
        Attitude.toDcm q = .ok (orbitFrame (![1, 0, 0] : Fin 3 → ℝ) ![0, 1, 0]).1 ∧
        (orbitFrame (![1, 0, 0] : Fin 3 → ℝ) ![0, 1, 0]).1 *ᵥ
          (-(√((![1, 0, 0] : Fin 3 → ℝ) ⬝ᵥ ![1, 0, 0]))⁻¹ • (![1, 0, 0] : Fin 3 → ℝ)) = ![0, 0, 1] ∧
        (orbitFrame (![1, 0, 0] : Fin 3 → ℝ) ![0, 1, 0]).1 *ᵥ
          ((√((![1, 0, 0] : Fin 3 → ℝ) ⨯₃ ![0, 1, 0] ⬝ᵥ (![1, 0, 0] : Fin 3 → ℝ) ⨯₃ ![0, 1, 0]))⁻¹ •
            (![1, 0, 0] : Fin 3 → ℝ) ⨯₃ ![0, 1, 0]) = ![0, -1, 0] := by
  have h : (![1, 0, 0] : Fin 3 → ℝ) ⨯₃ ![0, 1, 0] ≠ 0 := by
    rw [cross_apply]
    simp
  exact ⟨h, pointing_geometry.2.2.1 _ _ _ _ h⟩

end Pointing

/-- A satellite at `(1, 2, 2)` moving along the second axis. -/
def tiltedState : SatState :=
  { (default : SatState) with position := ⟨1.0, 2.0, 2.0⟩, velocity := ⟨0.0, 1.0, 0.0⟩ }

/-- In binary64 the commanded rotation misses the nadir direction: for the tilted state it takes
`-r/|r|` to a vector whose first component is not zero. -/
theorem Guidance.nadir_axis_rounds :
    ((Guidance.target (.automatic .nadir Epoch.j2000 []) 0.0 tiltedState {} >>= fun c =>
      Quat.toDcmList c.attitude).toOption.map
        (fun C => (C.mulVec (-tiltedState.position.unit)).x == 0.0)) = some false := by
  decide +kernel

end Spacecraft
