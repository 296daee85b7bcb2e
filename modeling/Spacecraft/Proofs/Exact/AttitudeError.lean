import Mathlib
import Spacecraft.Control.Law
import Spacecraft.Proofs.Binary64.Symmetry
import Spacecraft.Proofs.Exact.Detumbling
import Spacecraft.Proofs.Exact.Elementary
import Spacecraft.Proofs.Exact.Feedback

/-!
# The attitude error does not see the sign of a quaternion

A quaternion and its negation describe one rotation. The error `target* ⊗ current` of the
controller changes sign with either quaternion, and the error the model uses is made to have a
non-negative scalar part, so it stays the same; its angle `2 acos |e₀|` only reads the size of
the scalar part.

In binary64 this holds exactly, because rounding is symmetric in the sign: a product changes
sign with either factor, and a sum of negated terms is the negated sum, except that an exact
cancellation gives `+0` both ways (`Binary64.Agree`). So the angle of the error is the same for
`±current` and `±target` and in both orders (`Quat.angle_error_comm`), the condition on the
attitude error is met for exactly the same states (`Condition.isMet_negate_current`), and the
torque of the attitude controller is the same up to the signs of zeros, as long as the scalar
part of the error is not zero or NaN (`PdGains.torque_negate_current`): at a zero scalar part
the sign fix cannot tell the two errors apart.

Over the real numbers the angle between unit quaternions is `2 arccos |t ⬝ q|`, in `[0, π]`,
zero exactly at `q = ±t`, and it satisfies the triangle inequality: it is twice the angle
between the lines through `q` and `t` in `ℝ⁴`. In binary64 the angle of an error whose scalar
part rounds to one is that of the identity, so two different attitudes closer than about
`1e-8` rad are not told apart (`Quat.angle_blind_below_rounding`).
-/

namespace Spacecraft

open Binary64

/-! ### Binary64 -/

namespace Vec3

/-- Two vectors whose components agree up to the signs of zeros. -/
def Agree (a b : Vec3) : Prop :=
  Binary64.Agree a.x b.x ∧ Binary64.Agree a.y b.y ∧ Binary64.Agree a.z b.z

end Vec3

namespace Quat

/-- Two quaternions whose components agree up to the signs of zeros. -/
def Agree (p q : Quat) : Prop :=
  Binary64.Agree p.w q.w ∧ Binary64.Agree p.x q.x ∧ Binary64.Agree p.y q.y ∧
    Binary64.Agree p.z q.z

theorem negate_negate (q : Quat) : q.negate.negate = q := by
  simp only [negate, neg_neg_float]

theorem conj_negate (q : Quat) : q.negate.conj = q.conj.negate := rfl

theorem Agree.negate {p q : Quat} (h : Agree p q) : Agree p.negate q.negate :=
  ⟨h.1.neg, h.2.1.neg, h.2.2.1.neg, h.2.2.2.neg⟩

/-- Negating the right factor negates the product, up to the signs of zeros. -/
theorem mul_negate_right (p q : Quat) : Agree (mul p q.negate) (mul p q).negate := by
  simp only [mul, negate, mul_neg_float]
  exact ⟨(((Binary64.Agree.refl _).neg_sub _).neg_sub _).neg_sub _,
    (((Binary64.Agree.refl _).neg_add _).neg_add _).neg_sub _,
    (((Binary64.Agree.refl _).neg_sub _).neg_add _).neg_add _,
    (((Binary64.Agree.refl _).neg_add _).neg_sub _).neg_add _⟩

/-- Negating the left factor negates the product, up to the signs of zeros. -/
theorem mul_negate_left (p q : Quat) : Agree (mul p.negate q) (mul p q).negate := by
  simp only [mul, negate, neg_mul_float]
  exact ⟨(((Binary64.Agree.refl _).neg_sub _).neg_sub _).neg_sub _,
    (((Binary64.Agree.refl _).neg_add _).neg_add _).neg_sub _,
    (((Binary64.Agree.refl _).neg_sub _).neg_add _).neg_add _,
    (((Binary64.Agree.refl _).neg_add _).neg_sub _).neg_add _⟩

/-- The scalar part of `p* ⊗ q` is `p ⬝ q` accumulated in one order, whichever of the two is
conjugated. -/
theorem mul_conj_w_comm (p q : Quat) : (mul p.conj q).w = (mul q.conj p).w := by
  simp only [mul, conj, neg_mul_float, mul_comm_float p.w q.w, mul_comm_float p.x q.x,
    mul_comm_float p.y q.y, mul_comm_float p.z q.z]

theorem error_eq (current target : Quat) :
    error current target =
      if (mul target.conj current).w < 0.0 then (mul target.conj current).negate
      else mul target.conj current := rfl

/-- The sign fix of the error takes a product and its negation to the same quaternion, when
the scalar part has a sign. -/
theorem Agree.signFix {e e' : Quat} (h : Agree e' e.negate) (hw : 0.0 < e.w ∨ e.w < 0.0) :
    Agree (if e'.w < 0.0 then e'.negate else e') (if e.w < 0.0 then e.negate else e) := by
  have hlt : e'.w < 0.0 ↔ 0.0 < e.w := (h.1.lt_left 0.0).trans (neg_lt_zero_float e.w)
  rcases hw with hpos | hneg
  · rw [if_pos (hlt.2 hpos), if_neg (lt_asymm_float hpos), ← negate_negate e]
    exact h.negate
  · rw [if_neg (fun h' => lt_asymm_float hneg (hlt.1 h')), if_pos hneg]
    exact h

theorem error_negate_current (q t : Quat) (hw : 0.0 < (mul t.conj q).w ∨ (mul t.conj q).w < 0.0) :
    Agree (error q.negate t) (error q t) := by
  rw [error_eq, error_eq]
  exact (mul_negate_right _ _).signFix hw

theorem error_negate_target (q t : Quat) (hw : 0.0 < (mul t.conj q).w ∨ (mul t.conj q).w < 0.0) :
    Agree (error q t.negate) (error q t) := by
  rw [error_eq, error_eq, conj_negate]
  exact (mul_negate_left _ _).signFix hw

theorem Agree.vec {p q : Quat} (h : Agree p q) : Vec3.Agree p.vec q.vec := h.2

theorem angleOfScalar_neg (x : Float) : angleOfScalar (-x) = angleOfScalar x := by
  simp only [angleOfScalar, abs_neg_float]

theorem angleOfScalar_of_agree {x y : Float} (h : Binary64.Agree x y) :
    angleOfScalar x = angleOfScalar y := by
  simp only [angleOfScalar, h.abs_eq]

/-- The angle of the error reads the scalar part of `target* ⊗ current` before the sign fix. -/
theorem angle_error (current target : Quat) :
    (error current target).angle = angleOfScalar (mul target.conj current).w := by
  rw [error_eq]
  split
  · exact angleOfScalar_neg _
  · rfl

theorem angle_error_comm (q t : Quat) : (error q t).angle = (error t q).angle := by
  rw [angle_error, angle_error, mul_conj_w_comm]

theorem angle_error_negate_current (q t : Quat) : (error q.negate t).angle = (error q t).angle := by
  rw [angle_error, angle_error, angleOfScalar_of_agree (mul_negate_right _ _).1, negate,
    angleOfScalar_neg]

theorem angle_error_negate_target (q t : Quat) : (error q t.negate).angle = (error q t).angle := by
  rw [angle_error, angle_error, conj_negate, angleOfScalar_of_agree (mul_negate_left _ _).1,
    negate, angleOfScalar_neg]

end Quat

/-- A command whose target attitude has each component negated. -/
def Command.negateTarget (c : Command) : Command := { c with attitude := c.attitude.map (- ·) }

theorem Command.target_negateTarget (c : Command) :
    c.negateTarget.target = Quat.negate <$> c.target := by
  rcases c with ⟨_ | ⟨w, _ | ⟨x, _ | ⟨y, _ | ⟨z, rest⟩⟩⟩⟩, rates⟩ <;> rfl

/-- Two outcomes that fail with the same fault, or succeed with related values. -/
def Outcome.Rel {α β : Type} (r : α → β → Prop) : Outcome α → Outcome β → Prop
  | .ok a, .ok b => r a b
  | .error e, .error e' => e = e'
  | _, _ => False

namespace Vec3.Agree

variable {a b : Vec3}

theorem smul (h : Agree a b) (k : Float) : Agree (Vec3.smul k a) (Vec3.smul k b) :=
  ⟨h.1.mul_right k, h.2.1.mul_right k, h.2.2.mul_right k⟩

theorem sub_left (h : Agree a b) (c : Vec3) : Agree (a - c) (b - c) :=
  ⟨h.1.sub_left c.x, h.2.1.sub_left c.y, h.2.2.sub_left c.z⟩

theorem clip (h : Agree a b) (lo hi : Float) : Agree (a.clip lo hi) (b.clip lo hi) :=
  ⟨h.1.clamp lo hi, h.2.1.clamp lo hi, h.2.2.clamp lo hi⟩

end Vec3.Agree

namespace PdGains

/-- The saturated feedback torque of an attitude error vector. -/
theorem torque_eq (g : PdGains) (s : SatState) (c : Option Command) (integral : Vec3) :
    g.torque s c integral =
      (fun target =>
        let tau := Vec3.smul (-g.kp) (Quat.error s.quaternion target).vec -
          Vec3.smul g.kd (s.angularVelocity - c.elim Vec3.zero Command.rates) -
          Vec3.smul g.ki integral
        match g.maxTorque with
        | some m => tau.clip (-m) m
        | none => tau) <$> c.elim (pure Quat.identity) Command.target := by
  cases c with
  | none => rfl
  | some c =>
    simp only [torque, attitudeError, Option.elim]
    cases c.target <;> rfl

/-- Negating the current attitude changes the torque only in the signs of zeros, when the
scalar part of the error has a sign. -/
theorem torque_negate_current (g : PdGains) (s : SatState) (c : Option Command) (integral : Vec3)
    (hw : ∀ t, c.elim (pure Quat.identity) Command.target = .ok t →
      0.0 < (Quat.mul t.conj s.quaternion).w ∨ (Quat.mul t.conj s.quaternion).w < 0.0) :
    Outcome.Rel Vec3.Agree (g.torque { s with quaternion := s.quaternion.negate } c integral)
      (g.torque s c integral) := by
  rw [torque_eq, torque_eq]
  cases ht : c.elim (pure Quat.identity) Command.target with
  | error f => rfl
  | ok t =>
    have he := (Quat.error_negate_current _ _ (hw t ht)).vec
    show Vec3.Agree _ _
    cases g.maxTorque with
    | none => exact ((he.smul _).sub_left _).sub_left _
    | some m => exact (((he.smul _).sub_left _).sub_left _).clip _ _

/-- Negating the commanded attitude changes the torque only in the signs of zeros, when the
scalar part of the error has a sign. -/
theorem torque_negateTarget (g : PdGains) (s : SatState) (c : Command) (integral : Vec3)
    (hw : ∀ t, c.target = .ok t →
      0.0 < (Quat.mul t.conj s.quaternion).w ∨ (Quat.mul t.conj s.quaternion).w < 0.0) :
    Outcome.Rel Vec3.Agree (g.torque s (some c.negateTarget) integral)
      (g.torque s (some c) integral) := by
  rw [torque_eq, torque_eq]
  simp only [Option.elim, Command.target_negateTarget]
  cases ht : c.target with
  | error f => rfl
  | ok t =>
    have he := (Quat.error_negate_target _ _ (hw t ht)).vec
    show Vec3.Agree _ _
    cases g.maxTorque with
    | none => exact ((he.smul _).sub_left _).sub_left _
    | some m => exact (((he.smul _).sub_left _).sub_left _).clip _ _

end PdGains

theorem Tracked.lift_ok_bind {σ α β : Type} (a : α) (k : α → Tracked σ β) :
    (Tracked.lift (.ok a) >>= k) = k a := rfl

namespace Condition

/-- The conditions of a torque law hold for a state exactly when they hold for the state with
its attitude quaternion negated. -/
theorem isMet_negate_current (time : Float) (s : SatState) (ls : LawState)
    (reference : Option Command) :
    isMet time { s with quaternion := s.quaternion.negate } ls reference =
      isMet time s ls reference := by
  simp only [isMet, SatState.spinRate, Quat.angle_error_negate_current]
  rfl

/-- The conditions of a torque law hold for a command exactly when they hold for the command
with its target attitude negated. -/
theorem isMet_negateTarget (time : Float) (s : SatState) (ls : LawState) (c : Command) :
    isMet time s ls (some c.negateTarget) = isMet time s ls (some c) := by
  simp only [isMet, Command.target_negateTarget]
  cases c.target with
  | error f => rfl
  | ok t => simp only [Functor.map, Except.map, Tracked.lift_ok_bind, Quat.angle_error_negate_target]

end Condition

/-! ### Exact arithmetic -/

namespace Attitude

section Formulas

variable {K : Type} [Scalar K] [LT K] [DecidableLT K] [Elementary K]

/-- The rotation angle `2 acos |q₀|` of a quaternion, with `|q₀|` clipped to at most one. -/
def angle (q : Fin 4 → K) : K :=
  let a := Scalar.abs (q 0)
  2.0 * Elementary.acos (if 1.0 < a then 1.0 else a)

end Formulas

end Attitude

/-- The model's angle of a quaternion is `Attitude.angle` at `Float`: its test for NaN in front
of the clip changes nothing. -/
theorem Quat.angle_toFun (q : Quat) : q.angle = Attitude.angle q.toFun := by
  simp only [Quat.angle, Quat.angleOfScalar, Attitude.angle, ite_isNaN_gt]
  rfl

namespace Attitude

section Real

open Matrix InnerProductGeometry

variable {q t : Fin 4 → ℝ}

theorem angle_real (q : Fin 4 → ℝ) : angle q = 2 * Real.arccos (min |q 0| 1) := by
  have hmin : (if (1 : ℝ) < |q 0| then 1 else |q 0|) = min |q 0| 1 := by
    split_ifs with h
    · exact (min_eq_right h.le).symm
    · exact (min_eq_left (not_lt.1 h)).symm
  norm_num [angle, hmin]

/-- The scalar part of the sign-fixed error is `|t ⬝ q|`. -/
theorem error_zero_real (q t : Fin 4 → ℝ) : error q t 0 = |t ⬝ᵥ q| := by
  rcases lt_or_ge (t ⬝ᵥ q) 0 with h | h
  · have h' : mul (conj t) q 0 < 0.0 := by norm_num [mul_conj_zero, h]
    simp only [error, if_pos h']
    rw [mul_conj_zero, abs_of_neg h]
  · have h' : ¬ mul (conj t) q 0 < 0.0 := by norm_num [mul_conj_zero, h]
    simp only [error, if_neg h']
    rw [mul_conj_zero, abs_of_nonneg h]

theorem angle_error_real (q t : Fin 4 → ℝ) :
    angle (error q t) = 2 * Real.arccos (min |t ⬝ᵥ q| 1) := by
  rw [angle_real, error_zero_real, abs_abs]

/-- The angle of every error lies in `[0, π]`: the clipped scalar part lies in `[0, 1]`. -/
theorem angle_error_mem_Icc (q t : Fin 4 → ℝ) : angle (error q t) ∈ Set.Icc 0 Real.pi := by
  have hle : Real.arccos (min |t ⬝ᵥ q| 1) ≤ Real.pi / 2 :=
    Real.arccos_le_pi_div_two.2 (le_min (abs_nonneg _) zero_le_one)
  rw [angle_error_real]
  constructor <;> linarith [Real.arccos_nonneg (min |t ⬝ᵥ q| 1)]

/-! Unit quaternions as unit vectors of `ℝ⁴`, where the angle between two lines is at hand. -/

theorem inner_toLp (x y : Fin 4 → ℝ) : inner ℝ (WithLp.toLp 2 x) (WithLp.toLp 2 y) = x ⬝ᵥ y := by
  rw [EuclideanSpace.inner_toLp_toLp, dotProduct_comm]
  rfl

theorem norm_toLp {x : Fin 4 → ℝ} (hx : x ⬝ᵥ x = 1) : ‖WithLp.toLp 2 x‖ = 1 := by
  have h := real_inner_self_eq_norm_sq (WithLp.toLp 2 x)
  rw [inner_toLp, hx] at h
  nlinarith [norm_nonneg (WithLp.toLp 2 x)]

theorem abs_dotProduct_le_one {x y : Fin 4 → ℝ} (hx : x ⬝ᵥ x = 1) (hy : y ⬝ᵥ y = 1) :
    |x ⬝ᵥ y| ≤ 1 := by
  have h := abs_real_inner_le_norm (WithLp.toLp 2 x) (WithLp.toLp 2 y)
  rwa [inner_toLp, norm_toLp hx, norm_toLp hy, one_mul] at h

theorem angle_toLp {x y : Fin 4 → ℝ} (hx : x ⬝ᵥ x = 1) (hy : y ⬝ᵥ y = 1) :
    InnerProductGeometry.angle (WithLp.toLp 2 x) (WithLp.toLp 2 y) = Real.arccos (x ⬝ᵥ y) := by
  rw [InnerProductGeometry.angle, inner_toLp, norm_toLp hx, norm_toLp hy, mul_one, div_one]

/-- `arccos |x ⬝ y|` is at most the angles from `x` to `y` and to `-y`. -/
theorem arccos_abs_le {x y : Fin 4 → ℝ} (hx : x ⬝ᵥ x = 1) (hy : y ⬝ᵥ y = 1) (σ : ℝ)
    (hσ : σ = 1 ∨ σ = -1) :
    Real.arccos |x ⬝ᵥ y| ≤ InnerProductGeometry.angle (WithLp.toLp 2 x) (WithLp.toLp 2 (σ • y)) := by
  have hy' : (σ • y) ⬝ᵥ (σ • y) = 1 := by
    rcases hσ with rfl | rfl <;> simp [hy]
  rw [angle_toLp hx hy']
  apply Real.arccos_le_arccos
  rw [dotProduct_smul, smul_eq_mul]
  rcases hσ with rfl | rfl
  · simpa using le_abs_self _
  · simpa using neg_le_abs (x ⬝ᵥ y)

/-- One of `y` and `-y` is at the angle `arccos |x ⬝ y|` from `x`. -/
theorem exists_sign_arccos_abs {x y : Fin 4 → ℝ} (hx : x ⬝ᵥ x = 1) (hy : y ⬝ᵥ y = 1) :
    ∃ σ : ℝ, (σ = 1 ∨ σ = -1) ∧
      Real.arccos |x ⬝ᵥ y| = InnerProductGeometry.angle (WithLp.toLp 2 x) (WithLp.toLp 2 (σ • y)) := by
  rcases le_total 0 (x ⬝ᵥ y) with h | h
  · refine ⟨1, .inl rfl, ?_⟩
    rw [one_smul, angle_toLp hx hy, abs_of_nonneg h]
  · refine ⟨-1, .inr rfl, ?_⟩
    have hy' : (-1 : ℝ) • y ⬝ᵥ (-1 : ℝ) • y = 1 := by simp [hy]
    rw [angle_toLp hx hy', abs_of_nonpos h, dotProduct_smul, smul_eq_mul, neg_one_mul]

/-- The angle between the lines through unit vectors satisfies the triangle inequality: choose
the signs of `b` and `c` that realize the two angles on the right, and the line angle on the
left is at most the vector angle from `a` to the chosen `c`. -/
theorem arccos_abs_triangle {a b c : Fin 4 → ℝ} (ha : a ⬝ᵥ a = 1) (hb : b ⬝ᵥ b = 1)
    (hc : c ⬝ᵥ c = 1) :
    Real.arccos |a ⬝ᵥ c| ≤ Real.arccos |a ⬝ᵥ b| + Real.arccos |b ⬝ᵥ c| := by
  obtain ⟨σ, hσ, hab⟩ := exists_sign_arccos_abs ha hb
  obtain ⟨τ, hτ, hbc⟩ := exists_sign_arccos_abs hb hc
  -- the angle from `σ b` to `σ τ c` is the angle from `b` to `τ c`
  have hshift : InnerProductGeometry.angle (WithLp.toLp 2 (σ • b)) (WithLp.toLp 2 ((σ * τ) • c)) =
      InnerProductGeometry.angle (WithLp.toLp 2 b) (WithLp.toLp 2 (τ • c)) := by
    have hne : σ ≠ 0 := by rcases hσ with rfl | rfl <;> norm_num
    rw [mul_smul, WithLp.toLp_smul, WithLp.toLp_smul, angle_smul_smul hne]
  have hστ : σ * τ = 1 ∨ σ * τ = -1 := by
    rcases hσ with rfl | rfl <;> rcases hτ with rfl | rfl <;> norm_num
  calc Real.arccos |a ⬝ᵥ c|
      ≤ InnerProductGeometry.angle (WithLp.toLp 2 a) (WithLp.toLp 2 ((σ * τ) • c)) :=
        arccos_abs_le ha hc _ hστ
    _ ≤ InnerProductGeometry.angle (WithLp.toLp 2 a) (WithLp.toLp 2 (σ • b)) +
          InnerProductGeometry.angle (WithLp.toLp 2 (σ • b)) (WithLp.toLp 2 ((σ * τ) • c)) :=
        angle_le_angle_add_angle _ _ _
    _ = Real.arccos |a ⬝ᵥ b| + Real.arccos |b ⬝ᵥ c| := by rw [hshift, ← hab, ← hbc]

section Unit

variable (hq : q ⬝ᵥ q = 1) (ht : t ⬝ᵥ t = 1)
include hq ht

/-- Between unit quaternions the clip is idle: the angle is `2 arccos |t ⬝ q|`. -/
theorem angle_error_unit : angle (error q t) = 2 * Real.arccos |t ⬝ᵥ q| := by
  rw [angle_error_real, min_eq_left (abs_dotProduct_le_one ht hq)]

/-- The angle between unit quaternions is zero exactly when they are equal or opposite. -/
theorem angle_error_eq_zero_iff : angle (error q t) = 0 ↔ q = t ∨ q = -t := by
  have hnt := norm_toLp ht
  have hnq := norm_toLp hq
  -- `arccos x` vanishes exactly at `x ≥ 1`, and `|t ⬝ q| ≤ 1`
  have hone : angle (error q t) = 0 ↔ |t ⬝ᵥ q| = 1 := by
    rw [angle_error_unit hq ht, mul_eq_zero, or_iff_right two_ne_zero, Real.arccos_eq_zero]
    exact ⟨fun h => le_antisymm (abs_dotProduct_le_one ht hq) h, fun h => h.ge⟩
  -- the equality cases of Cauchy–Schwarz
  rw [hone, abs_eq zero_le_one, ← inner_toLp, inner_eq_one_iff_of_norm_eq_one hnt hnq,
    inner_eq_neg_one_iff_of_norm_eq_one hnt hnq, ← WithLp.toLp_neg,
    (WithLp.toLp_injective 2).eq_iff, (WithLp.toLp_injective 2).eq_iff]
  exact or_congr eq_comm (eq_comm.trans neg_eq_iff_eq_neg)

end Unit

/-- The angle between unit quaternions satisfies the triangle inequality. -/
theorem angle_error_triangle {q₁ q₂ q₃ : Fin 4 → ℝ} (h₁ : q₁ ⬝ᵥ q₁ = 1) (h₂ : q₂ ⬝ᵥ q₂ = 1)
    (h₃ : q₃ ⬝ᵥ q₃ = 1) :
    angle (error q₁ q₃) ≤ angle (error q₁ q₂) + angle (error q₂ q₃) := by
  rw [angle_error_unit h₁ h₃, angle_error_unit h₁ h₂, angle_error_unit h₂ h₃]
  linarith [arccos_abs_triangle h₃ h₂ h₁]

end Real

end Attitude

open Matrix in
/-- The attitude error sees rotations, not quaternion signs. In binary64 the angle of the error
is the same in both orders and for either sign of either quaternion, the condition on the
attitude error holds for the same states and commands, and the attitude controller's torque is
the same up to the signs of zeros whenever the scalar part of the error has a sign. In exact
arithmetic the angle between unit quaternions lies in `[0, π]`, vanishes exactly at `q = ±t`
and satisfies the triangle inequality. -/
theorem attitude_error_sign_free :
    (∀ q t : Quat, (Quat.error q t).angle = (Quat.error t q).angle ∧
      (Quat.error q.negate t).angle = (Quat.error q t).angle ∧
      (Quat.error q t.negate).angle = (Quat.error q t).angle) ∧
    (∀ (time : Float) (s : SatState) (ls : LawState) (reference : Option Command),
      Condition.isMet time { s with quaternion := s.quaternion.negate } ls reference =
        Condition.isMet time s ls reference) ∧
    (∀ (time : Float) (s : SatState) (ls : LawState) (c : Command),
      Condition.isMet time s ls (some c.negateTarget) = Condition.isMet time s ls (some c)) ∧
    (∀ (g : PdGains) (s : SatState) (c : Option Command) (integral : Vec3),
      (∀ t, c.elim (pure Quat.identity) Command.target = .ok t →
        0.0 < (Quat.mul t.conj s.quaternion).w ∨ (Quat.mul t.conj s.quaternion).w < 0.0) →
      Outcome.Rel Vec3.Agree (g.torque { s with quaternion := s.quaternion.negate } c integral)
        (g.torque s c integral)) ∧
    (∀ (g : PdGains) (s : SatState) (c : Command) (integral : Vec3),
      (∀ t, c.target = .ok t →
        0.0 < (Quat.mul t.conj s.quaternion).w ∨ (Quat.mul t.conj s.quaternion).w < 0.0) →
      Outcome.Rel Vec3.Agree (g.torque s (some c.negateTarget) integral)
        (g.torque s (some c) integral)) ∧
    (∀ q t : Fin 4 → ℝ, Attitude.angle (Attitude.error q t) ∈ Set.Icc 0 Real.pi) ∧
    (∀ q t : Fin 4 → ℝ, q ⬝ᵥ q = 1 → t ⬝ᵥ t = 1 →
      (Attitude.angle (Attitude.error q t) = 0 ↔ q = t ∨ q = -t)) ∧
    (∀ q₁ q₂ q₃ : Fin 4 → ℝ, q₁ ⬝ᵥ q₁ = 1 → q₂ ⬝ᵥ q₂ = 1 → q₃ ⬝ᵥ q₃ = 1 →
      Attitude.angle (Attitude.error q₁ q₃) ≤
        Attitude.angle (Attitude.error q₁ q₂) + Attitude.angle (Attitude.error q₂ q₃)) :=
  ⟨fun q t => ⟨Quat.angle_error_comm q t, Quat.angle_error_negate_current q t,
      Quat.angle_error_negate_target q t⟩,
    Condition.isMet_negate_current, Condition.isMet_negateTarget,
    PdGains.torque_negate_current, PdGains.torque_negateTarget,
    Attitude.angle_error_mem_Icc, fun _ _ => Attitude.angle_error_eq_zero_iff,
    fun _ _ _ => Attitude.angle_error_triangle⟩

open Matrix in
/-- A unit quaternion is at angle zero from itself, and at angle `π` from a quaternion
orthogonal to it. -/
theorem identity_error_angles :
    Attitude.angle (Attitude.error ![1, 0, 0, 0] ![1, 0, 0, 0] : Fin 4 → ℝ) = 0 ∧
      Attitude.angle (Attitude.error ![0, 1, 0, 0] ![1, 0, 0, 0] : Fin 4 → ℝ) ∈
        Set.Icc 0 Real.pi := by
  obtain ⟨-, -, -, -, -, hrange, hzero, -⟩ := attitude_error_sign_free
  have h1 : (![1, 0, 0, 0] : Fin 4 → ℝ) ⬝ᵥ ![1, 0, 0, 0] = 1 := by
    simp [dotProduct, Fin.sum_univ_four]
  exact ⟨(hzero _ _ h1 h1).2 (.inl rfl), hrange _ _⟩

/-- In binary64 the angle of the error cannot tell apart attitudes closer than rounding: the
quaternion `(1, 1e-10, 0, 0)` is a unit quaternion of the model (normalizing gives it back) and
differs from `±1`, but the scalar part of its error from the identity rounds to one, so the angle
is the angle of the identity from itself. -/
theorem Quat.angle_blind_below_rounding :
    ((Quat.mk 1.0 1e-10 0.0 0.0).normalize.toOption.map Quat.toList ==
      some [1.0, 1e-10, 0.0, 0.0]) = true ∧
    ((Quat.mk 1.0 1e-10 0.0 0.0).toList == Quat.identity.toList) = false ∧
    ((Quat.mk 1.0 1e-10 0.0 0.0).toList == Quat.identity.negate.toList) = false ∧
    (Quat.error ⟨1.0, 1e-10, 0.0, 0.0⟩ Quat.identity).angle =
      (Quat.error Quat.identity Quat.identity).angle := by
  refine ⟨by decide +kernel, by decide, by decide, ?_⟩
  rw [Quat.angle_error, Quat.angle_error]
  rfl

end Spacecraft
