import Mathlib
import Spacecraft.Proofs.Control.Frame
import Spacecraft.Proofs.Control.LawState
import Spacecraft.Proofs.Binary64.Fused
import Spacecraft.Proofs.Exact.Detumbling
import Spacecraft.Proofs.Exact.Elementary

/-!
# The sensed B-dot estimator

The magnetometer-driven detumbler keeps an estimate of the rate of the body-frame field: the
time and value of its last sample, a filtered rate and the dipole it holds. An update at `t`
samples only when `dt = t - time` is neither at most zero nor short of the sample period by
more than `10⁻⁹` (`FieldRateSensing.sampleDue`). Otherwise it returns the estimate it was given
and leaves the detumbler as it was, so no noise is drawn. When it samples, the magnetometer is
read once, which draws one noise vector (`FieldRateSensing.afterReading`), the time becomes
`t`, and the rate and dipole follow the filter `α r + (1 - α)(B - B₀)/dt` with
`α = exp(-dt/τ)`, clipped after the gain (`FieldRate.rate`, `FieldRate.dipole`).

Along any run of updates at finite times the sample times therefore strictly increase, each
later than the one before by at least the sample period less the tolerance, and every dipole
component is within the limit or NaN. It is NaN exactly when `-gain · rate` is, which a NaN
gain makes it at every sample.

Over the real numbers `α` lies in `(0, 1)` for `dt > 0` and `τ > 0`, so the filtered rate is a
convex combination of the previous rate and the new finite difference; started from zero, every
component stays within the largest finite difference sampled so far, and the held dipole within
the limit.
-/

namespace Spacecraft

open Tracked

/-! ### The filter formulas -/

namespace FieldRate

variable {K : Type} [Scalar K] [LT K] [DecidableLT K] [Elementary K]

/-- The filtered field rate after a sample `measured` taken `dt` after the sample `field`:
`α r + (1 - α) (measured - field) / dt` on each axis, with `α = exp(-dt/τ)`. -/
def rate (timeConstant dt : K) (r field measured : Fin 3 → K) : Fin 3 → K :=
  let alpha := Elementary.exp (-dt / timeConstant)
  fun i => alpha * r i + (1.0 - alpha) * (measured i - field i) / dt

/-- The dipole held for a field rate: `-gain · rate`, clipped on each axis into
`[-limit, limit]`. -/
def dipole (gain limit : K) (rate : Fin 3 → K) : Fin 3 → K :=
  fun i => Detumble.clip (-gain * rate i) (-limit) limit

/-- The filtered rate after a list of samples, each a time and a field, from the sample
`(t, field)` with the rate `r`. -/
def filter (timeConstant t : K) (field r : Fin 3 → K) : List (K × (Fin 3 → K)) → Fin 3 → K
  | [] => r
  | (t', measured) :: rest =>
    filter timeConstant t' measured (rate timeConstant (t' - t) r field measured) rest

end FieldRate

/-! ### Binary64 -/

namespace FieldRateSensing

/-- The detumbler after one reading of its magnetometer: the generator moved on by one draw of
noise, and unchanged when the draw is refused. -/
def afterReading (r : FieldRateSensing) : FieldRateSensing :=
  match r.magnetometer.gen.uniform3 (-r.magnetometer.noise) r.magnetometer.noise with
  | .ok (_, gen) => { r with magnetometer := { r.magnetometer with gen } }
  | .error _ => r

/-- Whether an update at `t` takes a sample: the time since the last sample is neither at most
zero nor short of the sample period by more than the tolerance. -/
def sampleDue (r : FieldRateSensing) (t : Float) (e : FieldRateEstimate) : Bool :=
  !(t - e.time ≤ 0.0 || t - e.time < r.samplePeriod - sampleTolerance)

@[simp] theorem samplePeriod_afterReading (r : FieldRateSensing) :
    r.afterReading.samplePeriod = r.samplePeriod := by
  unfold afterReading
  split <;> rfl

/-- A sample reads the magnetometer once and changes nothing else of the detumbler. -/
theorem snd_runFrom_sample (t : Float) (s : SatState) (r : FieldRateSensing) :
    (runFrom (sample t s) r).2 = r.afterReading := by
  simp only [sample, runFrom_get_bind, runFrom_focus, Sensor.runFrom_read, afterReading]
  rcases r.magnetometer.gen.uniform3 (-r.magnetometer.noise) r.magnetometer.noise with
    e | ⟨noise, gen⟩ <;> rfl

section Update

variable {t : Float} {s : SatState} {b : Body} {e : FieldRateEstimate} {r : FieldRateSensing}

theorem updateEstimate_eq (t : Float) (s : SatState) (b : Body) (e : FieldRateEstimate)
    (r : FieldRateSensing) :
    runFrom (updateEstimate t s b e) r =
      if r.sampleDue t e then
        runFrom (do
          let measured ← sample t s
          let alpha := Float.exp (-(t - e.time) / r.timeConstant)
          let rate := Vec3.smul alpha e.rate +
            (Vec3.smul (1.0 - alpha) (measured - e.field)).divScalar (t - e.time)
          pure (⟨t, measured, rate, (Vec3.smul (-r.gain) rate).clip (-b.maxDipole) b.maxDipole⟩ :
            FieldRateEstimate)) r
      else (.ok e, r) := by
  simp only [updateEstimate, runFrom_get_bind, sampleDue]
  by_cases hc : (decide (t - e.time ≤ 0.0) ||
      decide (t - e.time < r.samplePeriod - sampleTolerance)) = true
  · rw [if_pos hc]
    simp only [hc, Bool.not_true, Bool.false_eq_true, if_false]
    rfl
  · rw [if_neg hc]
    simp only [Bool.not_eq_true] at hc
    simp only [hc, Bool.not_false, if_true]

/-- An update that is not due returns the estimate it was given and draws no noise. -/
theorem runFrom_updateEstimate_of_not_due (h : r.sampleDue t e = false) :
    runFrom (updateEstimate t s b e) r = (.ok e, r) := by
  rw [updateEstimate_eq, if_neg (by simp [h])]

/-- An update that is due reads the magnetometer once, whether it succeeds or not. -/
theorem snd_runFrom_updateEstimate_of_due (h : r.sampleDue t e = true) :
    (runFrom (updateEstimate t s b e) r).2 = r.afterReading := by
  rw [updateEstimate_eq, if_pos h, snd_runFrom_bind_pure, snd_runFrom_sample]

/-- An update that is due and succeeds holds the sample taken at `t`, and the rate and dipole
of the filter formulas at `Float`. -/
theorem fst_runFrom_updateEstimate_of_due (h : r.sampleDue t e = true) {e' : FieldRateEstimate}
    (he : (runFrom (updateEstimate t s b e) r).1 = .ok e') :
    e'.time = t ∧ (runFrom (sample t s) r).1 = .ok e'.field ∧
      e'.rate.toFun = FieldRate.rate r.timeConstant (t - e.time) e.rate.toFun e.field.toFun
        e'.field.toFun ∧
      e'.dipole = (Vec3.smul (-r.gain) e'.rate).clip (-b.maxDipole) b.maxDipole := by
  rw [updateEstimate_eq, if_pos h, bind_pure_comp, fst_runFrom_map] at he
  obtain ⟨measured, hm, rfl⟩ := Outcome.map_eq_ok he
  refine ⟨rfl, hm, ?_, rfl⟩
  funext i
  fin_cases i <;> rfl

theorem samplePeriod_runFrom_updateEstimate (t : Float) (s : SatState) (b : Body)
    (e : FieldRateEstimate) (r : FieldRateSensing) :
    (runFrom (updateEstimate t s b e) r).2.samplePeriod = r.samplePeriod := by
  cases hd : r.sampleDue t e
  · rw [runFrom_updateEstimate_of_not_due hd]
  · rw [snd_runFrom_updateEstimate_of_due hd, samplePeriod_afterReading]

/-- An update returns the estimate it was given or one sampled at its own time. -/
theorem eq_or_time_eq {e' : FieldRateEstimate}
    (h : (runFrom (updateEstimate t s b e) r).1 = .ok e') : e' = e ∨ e'.time = t := by
  cases hd : r.sampleDue t e
  · rw [runFrom_updateEstimate_of_not_due hd] at h
    cases h
    exact .inl rfl
  · exact .inr (fst_runFrom_updateEstimate_of_due hd h).1

end Update

/-- Two successive estimates of a run of updates: the same estimate, or a sample taken later by
at least the sample period less the tolerance. -/
def SampleStep (samplePeriod : Float) (e e' : FieldRateEstimate) : Prop :=
  e' = e ∨ (e.time < e'.time ∧ samplePeriod - sampleTolerance ≤ e'.time - e.time)

open Binary64 in
/-- At finite times a due sample is later than the last one, by at least the sample period
less the tolerance: the time since the last sample is not NaN, so failing both tests of the
gate means passing their opposites. -/
theorem sampleStep_of_due {t : Float} {e : FieldRateEstimate} {r : FieldRateSensing}
    (hp : 0 ≤ r.samplePeriod) (ht : t.isFinite = true) (he : e.time.isFinite = true)
    (h : r.sampleDue t e = true) :
    e.time < t ∧ r.samplePeriod - sampleTolerance ≤ t - e.time := by
  have hdt : view (t - e.time) ≠ .notANumber :=
    sub_ne_nan (ne_nan_of_isFinite ht) he
  have hgap : view (r.samplePeriod - sampleTolerance) ≠ .notANumber :=
    sub_ne_nan (ne_nan_of_le_right hp) (by decide)
  have h0 : view (0.0 : Float) ≠ .notANumber := view_zero_ne_nan
  simp only [sampleDue, Bool.not_eq_true', Bool.or_eq_false_iff, decide_eq_false_iff_not] at h
  refine ⟨lt_of_sub_pos ?_, float_le_of_not_lt hdt hgap h.2⟩
  exact float_lt_of_not_le hdt h0 h.1

theorem sampleStep_of_updateEstimate {t : Float} {s : SatState} {b : Body} {e e' : FieldRateEstimate}
    {r : FieldRateSensing} (hp : 0 ≤ r.samplePeriod) (ht : t.isFinite = true)
    (he : e.time.isFinite = true) (h : (runFrom (updateEstimate t s b e) r).1 = .ok e') :
    SampleStep r.samplePeriod e e' := by
  cases hd : r.sampleDue t e
  · rw [runFrom_updateEstimate_of_not_due hd] at h
    cases h
    exact .inl rfl
  · rw [SampleStep, (fst_runFrom_updateEstimate_of_due hd h).1]
    exact .inr (sampleStep_of_due hp ht he hd)

/-- Successive updates at the given times and states, each of the estimate the one before
returned, from the estimate `e`: the estimates they return. A fault ends the run. -/
def updates (b : Body) : FieldRateEstimate → List (Float × SatState) →
    Tracked FieldRateSensing (List FieldRateEstimate)
  | _, [] => pure []
  | e, (t, s) :: calls => do
    let e' ← updateEstimate t s b e
    let rest ← updates b e' calls
    pure (e' :: rest)

theorem fst_runFrom_bind_eq_ok {σ α β : Type} {m : Tracked σ α} {k : α → Tracked σ β} {s : σ}
    {b : β} (h : (runFrom (m >>= k) s).1 = .ok b) :
    ∃ a, (runFrom m s).1 = .ok a ∧ (runFrom (k a) (runFrom m s).2).1 = .ok b := by
  rw [runFrom_bind] at h
  rcases hm : runFrom m s with ⟨_ | a, s'⟩
  · rw [hm] at h
    cases h
  · rw [hm] at h
    exact ⟨a, rfl, h⟩

/-- A run of updates that succeeds took one update, and then the rest of the run from where it
left the detumbler. -/
theorem updates_cons_eq_ok {b : Body} {e : FieldRateEstimate} {t : Float} {s : SatState}
    {calls : List (Float × SatState)} {r : FieldRateSensing} {es : List FieldRateEstimate}
    (h : (runFrom (updates b e ((t, s) :: calls)) r).1 = .ok es) :
    ∃ e' rest, (runFrom (updateEstimate t s b e) r).1 = .ok e' ∧
      (runFrom (updates b e' calls) (runFrom (updateEstimate t s b e) r).2).1 = .ok rest ∧
      es = e' :: rest := by
  obtain ⟨e', he', h⟩ := fst_runFrom_bind_eq_ok h
  obtain ⟨rest, hrest, h⟩ := fst_runFrom_bind_eq_ok h
  rw [runFrom_pure] at h
  cases h
  exact ⟨e', rest, he', hrest, rfl⟩

/-- Along a run of updates at finite times, successive sample times strictly increase, by at
least the sample period less the tolerance. The invariant is that the estimate's time is
finite: it is the time of the first estimate or of some call. -/
theorem isChain_updates (b : Body) {calls : List (Float × SatState)} :
    ∀ {e : FieldRateEstimate} {r : FieldRateSensing} {es : List FieldRateEstimate},
      0 ≤ r.samplePeriod → (∀ c ∈ calls, c.1.isFinite = true) → e.time.isFinite = true →
      (runFrom (updates b e calls) r).1 = .ok es →
      List.IsChain (SampleStep r.samplePeriod) (e :: es) := by
  induction calls with
  | nil =>
    intro e r es _ _ _ h
    cases h
    exact .singleton e
  | cons call calls ih =>
    obtain ⟨t, s⟩ := call
    intro e r es hp hcalls he h
    obtain ⟨e', rest, he', hrest, rfl⟩ := updates_cons_eq_ok h
    have ht : t.isFinite = true := hcalls (t, s) List.mem_cons_self
    have he'' : e'.time.isFinite = true := by
      rcases eq_or_time_eq he' with rfl | h'
      · exact he
      · rw [h']; exact ht
    have hp' := samplePeriod_runFrom_updateEstimate t s b e r
    refine .cons_cons (sampleStep_of_updateEstimate hp ht he he') ?_
    rw [← hp']
    exact ih (hp'.symm ▸ hp) (fun c hc => hcalls c (List.mem_cons_of_mem _ hc)) he'' hrest

/-- Along a run of updates every held dipole component is within the limit or NaN. -/
theorem withinLimit_updates (b : Body) (hl : 0 ≤ b.maxDipole) {calls : List (Float × SatState)} :
    ∀ {e : FieldRateEstimate} {r : FieldRateSensing} {es : List FieldRateEstimate},
      e.dipole.WithinLimit b.maxDipole → (runFrom (updates b e calls) r).1 = .ok es →
      ∀ e' ∈ es, e'.dipole.WithinLimit b.maxDipole := by
  induction calls with
  | nil =>
    intro e r es _ h
    cases h
    simp
  | cons call calls ih =>
    obtain ⟨t, s⟩ := call
    intro e r es he h
    obtain ⟨e', rest, he', hrest, rfl⟩ := updates_cons_eq_ok h
    -- the first estimate is the one given, or a clipped new dipole
    have hfirst : e'.dipole.WithinLimit b.maxDipole := by
      cases hd : r.sampleDue t e
      · rw [runFrom_updateEstimate_of_not_due hd] at he'
        cases he'
        exact he
      · rw [(fst_runFrom_updateEstimate_of_due hd he').2.2.2]
        exact Vec3.withinLimit_clip _ hl
    intro x hx
    rcases List.mem_cons.1 hx with rfl | hx
    · exact hfirst
    · exact ih hfirst hrest x hx

/-- A first estimate reads the magnetometer once and holds no rate and no dipole. -/
theorem initialEstimate_spec (t : Float) (s : SatState) (r : FieldRateSensing) :
    (runFrom (initialEstimate t s) r).2 = r.afterReading ∧
      ∀ e, (runFrom (initialEstimate t s) r).1 = .ok e →
        e.time = t ∧ e.rate = Vec3.zero ∧ e.dipole = Vec3.zero := by
  refine ⟨by rw [initialEstimate, snd_runFrom_bind_pure, snd_runFrom_sample], ?_⟩
  intro e h
  rw [initialEstimate, bind_pure_comp, fst_runFrom_map] at h
  obtain ⟨_, -, rfl⟩ := Outcome.map_eq_ok h
  exact ⟨rfl, rfl, rfl⟩

end FieldRateSensing

/-! ### A NaN gain -/

section NanGain

open Binary64

theorem isOk_bind_pure {ε α β : Type} (o : Except ε α) (f : α → β) :
    (o >>= fun a => pure (f a)).isOk = o.isOk := by
  cases o <;> rfl

/-- A row `(a, b, 0)` of an Earth rotation times a point on the polar axis is a zero or NaN,
whatever `a` and `b` are. -/
theorem Mat3.rowTimes_polar (a b z : Float) : ZeroOrNaN (Mat3.rowTimes ⟨a, b, 0.0⟩ ⟨0.0, 0.0, z⟩) := by
  have h0 : IsZero (0.0 : Float) := ⟨_, rfl⟩
  exact ZeroOrNaN.add (.inl h0)
    (fma_zeroOrNaN (.inl h0) (fma_zeroOrNaN (.inr h0) (zeroOrNaN_mul (.inr h0))))

theorem Dipole.fieldFixed_polar_isOk (d : Dipole) {x y : Float} (hx : ZeroOrNaN x)
    (hy : ZeroOrNaN y) : (d.fieldFixed ⟨x, y, 7.0e6⟩).isOk = true := by
  have hr : Scalar.isZero (Vec3.norm ⟨x, y, 7.0e6⟩) = false := by
    rcases zeroOrNaN_iff.1 hx with rfl | rfl | rfl <;>
      rcases zeroOrNaN_iff.1 hy with rfl | rfl | rfl <;> decide +kernel
  simp only [Dipole.fieldFixed, divOrFault, checkedDiv, hr]
  rfl

/-- The dipole field is defined on the polar axis at 7000 km, whatever the Earth's rotation
angle: the rotation keeps the height of the point and makes its other components zeros or NaN,
so its distance from the centre is never zero. -/
theorem Dipole.field_polar_isOk (d : Dipole) (t : Float) :
    (d.field t ⟨0.0, 0.0, 7.0e6⟩).isOk = true := by
  have hz : Mat3.rowTimes ⟨0.0, 0.0, 1.0⟩ ⟨0.0, 0.0, 7.0e6⟩ = 7.0e6 := by decide +kernel
  have hf := d.fieldFixed_polar_isOk (Mat3.rowTimes_polar (d.angle0 + earthRate * t).cos
      (d.angle0 + earthRate * t).sin 7.0e6)
    (Mat3.rowTimes_polar (-(d.angle0 + earthRate * t).sin) (d.angle0 + earthRate * t).cos 7.0e6)
  rw [Dipole.field, isOk_bind_pure]
  simp only [Dipole.earthRotation, Mat3.mulVec, hz]
  exact hf

theorem exists_eq_ok_of_isOk {ε α : Type} {o : Except ε α} (h : o.isOk = true) :
    ∃ a, o = .ok a := by
  cases o with
  | error => cases h
  | ok a => exact ⟨a, rfl⟩

/-- A noiseless draw is never refused. -/
theorem Pcg.uniform3_noiseless (g : Pcg) : ∃ v g', g.uniform3 (-0.0) 0.0 = .ok (v, g') := by
  have hr : (0.0 - -0.0 : Float).isFinite = true := by decide
  have hs : Binary64.signBitSet (0.0 - -0.0 : Float) = false := by decide
  simp only [Pcg.uniform3, hr, hs]
  exact ⟨_, _, rfl⟩

/-- A detumbler with a NaN gain and a noiseless magnetometer, in the default environment. -/
def nanGainSensing : FieldRateSensing :=
  { magnetometer := ⟨0.0, 0, Pcg.ofSeed 0⟩, environment := {}, gain := 0.0 / 0.0 }

/-- A state on the polar axis at 7000 km, in the identity attitude. -/
def polarState : SatState :=
  { (default : SatState) with position := ⟨0.0, 0.0, 7.0e6⟩, quaternion := Quat.identity }

/-- A body that may hold no dipole. -/
def zeroLimitBody : Body := { (default : Body) with maxDipole := 0.0 }

theorem sample_polar_isOk (t : Float) :
    ∃ m, (runFrom (FieldRateSensing.sample t polarState) nanGainSensing).1 = .ok m := by
  obtain ⟨v, g, hv⟩ := Pcg.uniform3_noiseless (Pcg.ofSeed 0)
  have hdcm : polarState.dcm.isOk = true := by decide +kernel
  obtain ⟨B, hB⟩ := exists_eq_ok_of_isOk ((({} : Environment).magnetic).field_polar_isOk t)
  obtain ⟨M, hM⟩ := exists_eq_ok_of_isOk hdcm
  have hsensor : nanGainSensing.magnetometer = ⟨0.0, 0, Pcg.ofSeed 0⟩ := rfl
  have henv : nanGainSensing.environment.magnetic.field t polarState.position = .ok B := hB
  simp only [FieldRateSensing.sample, runFrom_get_bind, runFrom_focus, Sensor.runFrom_read,
    hsensor, hv, henv]
  simp only [SatState.toBody, hM]
  exact ⟨_, rfl⟩

/-- With a NaN gain the dipole held after the first due sample is NaN, though the body may hold
none: the clip lets NaN through. -/
theorem FieldRateSensing.nan_gain_dipole :
    0.0 < nanGainSensing.timeConstant ∧ 0.0 ≤ nanGainSensing.samplePeriod ∧
      0.0 ≤ zeroLimitBody.maxDipole ∧
      ∀ e : FieldRateEstimate, e.time = 0.0 →
        ∃ e', (runFrom (FieldRateSensing.updateEstimate 0.2 polarState zeroLimitBody e)
          nanGainSensing).1 = .ok e' ∧ e'.dipole.x.isNaN = true := by
  refine ⟨by decide, by decide, by decide, fun e he => ?_⟩
  have hdue : nanGainSensing.sampleDue 0.2 e = true := by
    rw [FieldRateSensing.sampleDue, he]
    decide
  obtain ⟨m, hm⟩ := sample_polar_isOk 0.2
  rw [FieldRateSensing.updateEstimate_eq, if_pos hdue, bind_pure_comp, fst_runFrom_map, hm]
  refine ⟨_, rfl, ?_⟩
  have hg : (-nanGainSensing.gain).isNaN = true := by decide
  show (clamp (-nanGainSensing.gain * _) (-zeroLimitBody.maxDipole)
    zeroLimitBody.maxDipole).isNaN = true
  rw [clamp_isNaN _ (by decide)]
  exact isNaN_mul_left _ hg

end NanGain

/-! ### Exact arithmetic -/

namespace FieldRate

section Real

variable {τ dt : ℝ}

/-- The weight `exp(-dt/τ)` of the previous rate lies in `(0, 1)`. -/
theorem exp_mem_Ioo (hτ : 0 < τ) (hdt : 0 < dt) : Real.exp (-dt / τ) ∈ Set.Ioo 0 1 :=
  ⟨Real.exp_pos _, Real.exp_lt_one_iff.2 (div_neg_of_neg_of_pos (neg_neg_of_pos hdt) hτ)⟩

theorem rate_real (τ dt : ℝ) (r field measured : Fin 3 → ℝ) (i : Fin 3) :
    rate τ dt r field measured i =
      Real.exp (-dt / τ) * r i + (1 - Real.exp (-dt / τ)) * ((measured i - field i) / dt) := by
  norm_num [rate]
  ring

/-- The filtered rate is a convex combination of the previous rate and the new finite
difference, so it stays within any bound of both. -/
theorem abs_rate_le (hτ : 0 < τ) (hdt : 0 < dt) {r field measured : Fin 3 → ℝ} {i : Fin 3}
    {M : ℝ} (hr : |r i| ≤ M) (hd : |(measured i - field i) / dt| ≤ M) :
    |rate τ dt r field measured i| ≤ M := by
  obtain ⟨hα0, hα1⟩ := exp_mem_Ioo hτ hdt
  rw [rate_real]
  set α := Real.exp (-dt / τ)
  have hβ : 0 < 1 - α := sub_pos.2 hα1
  calc |α * r i + (1 - α) * ((measured i - field i) / dt)|
      ≤ |α * r i| + |(1 - α) * ((measured i - field i) / dt)| := abs_add_le _ _
    _ = α * |r i| + (1 - α) * |(measured i - field i) / dt| := by
        rw [abs_mul, abs_mul, abs_of_pos hα0, abs_of_pos hβ]
    _ ≤ α * M + (1 - α) * M := by gcongr
    _ = M := by ring

/-- The largest size of a finite difference `(B' - B)ᵢ / (t' - t)` of axis `i` between
successive samples, from the sample `(t, field)`; zero without any. -/
noncomputable def largestDifference (i : Fin 3) (t : ℝ) (field : Fin 3 → ℝ) :
    List (ℝ × (Fin 3 → ℝ)) → ℝ
  | [] => 0
  | (t', measured) :: rest =>
    max |(measured i - field i) / (t' - t)| (largestDifference i t' measured rest)

theorem largestDifference_nonneg (i : Fin 3) (t : ℝ) (field : Fin 3 → ℝ)
    (samples : List (ℝ × (Fin 3 → ℝ))) : 0 ≤ largestDifference i t field samples := by
  cases samples with
  | nil => exact le_rfl
  | cons sample rest => exact le_max_of_le_left (abs_nonneg _)

/-- Along samples at increasing times the filtered rate stays within the larger of its
starting bound and the finite differences met. The induction is on the samples, with the bound
raised by each finite difference. -/
theorem abs_filter_le (hτ : 0 < τ) (i : Fin 3) (samples : List (ℝ × (Fin 3 → ℝ))) :
    ∀ (t : ℝ) (field r : Fin 3 → ℝ) (M : ℝ),
      List.IsChain (fun a b => a.1 < b.1) ((t, field) :: samples) → |r i| ≤ M →
      |filter τ t field r samples i| ≤ max M (largestDifference i t field samples) := by
  induction samples with
  | nil =>
    intro t field r M _ hr
    exact hr.trans (le_max_left _ _)
  | cons sample rest ih =>
    obtain ⟨t', measured⟩ := sample
    intro t field r M hc hr
    obtain ⟨hlt, hc'⟩ := List.isChain_cons_cons.1 hc
    set d := |(measured i - field i) / (t' - t)|
    have hstep : |rate τ (t' - t) r field measured i| ≤ max M d :=
      abs_rate_le hτ (sub_pos.2 hlt) (hr.trans (le_max_left _ _)) (le_max_right _ _)
    calc |filter τ t field r ((t', measured) :: rest) i|
        ≤ max (max M d) (largestDifference i t' measured rest) := ih _ _ _ _ hc' hstep
      _ = max M (largestDifference i t field ((t', measured) :: rest)) := max_assoc _ _ _

/-- Started from zero, the filtered rate stays within the largest finite difference sampled. -/
theorem abs_filter_zero_le (hτ : 0 < τ) (i : Fin 3) (t : ℝ) (field : Fin 3 → ℝ)
    (samples : List (ℝ × (Fin 3 → ℝ)))
    (hc : List.IsChain (fun a b => a.1 < b.1) ((t, field) :: samples)) :
    |filter τ t field 0 samples i| ≤ largestDifference i t field samples := by
  have h := abs_filter_le hτ i samples t field 0 0 hc (by simp)
  rwa [max_eq_right (largestDifference_nonneg i t field samples)] at h

/-- The held dipole is within the limit. -/
theorem abs_dipole_le {limit : ℝ} (hl : 0 ≤ limit) (gain : ℝ) (rate : Fin 3 → ℝ) (i : Fin 3) :
    |dipole gain limit rate i| ≤ limit := by
  rw [dipole, Detumble.clip_real, abs_le]
  exact ⟨le_min (by linarith) (le_max_right _ _), min_le_left _ _⟩

end Real

end FieldRate

namespace FieldRateSensing

/-- The magnetometer-driven estimator. An update that is not due returns its estimate and draws
no noise; one that is due reads the magnetometer once and, when it succeeds, holds the reading
taken at the time of the call, the filtered rate and the clipped dipole. A first estimate holds
no rate and no dipole. Along a run of updates at finite times the sample times increase by at
least the sample period less the tolerance, and every dipole component is within the limit or
NaN. In exact arithmetic the filter's weight lies in `(0, 1)`, the rate started from zero stays
within the largest finite difference sampled, and the dipole within the limit. -/
theorem estimator_spec (b : Body) (r : FieldRateSensing) (hp : 0 ≤ r.samplePeriod)
    (hl : 0 ≤ b.maxDipole) :
    (∀ t s e, r.sampleDue t e = false → runFrom (updateEstimate t s b e) r = (.ok e, r)) ∧
    (∀ t s e, r.sampleDue t e = true →
      (runFrom (updateEstimate t s b e) r).2 = r.afterReading ∧
      ∀ e', (runFrom (updateEstimate t s b e) r).1 = .ok e' →
        e'.time = t ∧ (runFrom (sample t s) r).1 = .ok e'.field ∧
        e'.rate.toFun = FieldRate.rate r.timeConstant (t - e.time) e.rate.toFun e.field.toFun
          e'.field.toFun ∧
        e'.dipole = (Vec3.smul (-r.gain) e'.rate).clip (-b.maxDipole) b.maxDipole) ∧
    (∀ t s, (runFrom (initialEstimate t s) r).2 = r.afterReading ∧
      ∀ e, (runFrom (initialEstimate t s) r).1 = .ok e →
        e.time = t ∧ e.rate = Vec3.zero ∧ e.dipole = Vec3.zero) ∧
    (∀ e calls es, (∀ c ∈ calls, c.1.isFinite = true) → e.time.isFinite = true →
      e.dipole.WithinLimit b.maxDipole → (runFrom (updates b e calls) r).1 = .ok es →
      List.IsChain (SampleStep r.samplePeriod) (e :: es) ∧
        ∀ e' ∈ es, e'.dipole.WithinLimit b.maxDipole) ∧
    (∀ τ dt : ℝ, 0 < τ → 0 < dt → Real.exp (-dt / τ) ∈ Set.Ioo 0 1) ∧
    (∀ (τ : ℝ) (i : Fin 3) (t : ℝ) (field : Fin 3 → ℝ) (samples : List (ℝ × (Fin 3 → ℝ))),
      0 < τ → List.IsChain (fun a b => a.1 < b.1) ((t, field) :: samples) →
      |FieldRate.filter τ t field 0 samples i| ≤ FieldRate.largestDifference i t field samples) ∧
    (∀ (limit gain : ℝ) (rate : Fin 3 → ℝ) (i : Fin 3), 0 ≤ limit →
      |FieldRate.dipole gain limit rate i| ≤ limit) := by
  refine ⟨fun t s e h => runFrom_updateEstimate_of_not_due h, fun t s e h => ?_,
    fun t s => initialEstimate_spec t s r, fun e calls es hcalls he hd h => ?_,
    fun τ dt hτ hdt => FieldRate.exp_mem_Ioo hτ hdt,
    fun τ i t field samples hτ hc => FieldRate.abs_filter_zero_le hτ i t field samples hc,
    fun limit gain rate i hlim => FieldRate.abs_dipole_le hlim gain rate i⟩
  · exact ⟨snd_runFrom_updateEstimate_of_due h, fun e' he => fst_runFrom_updateEstimate_of_due h he⟩
  · exact ⟨isChain_updates b hp hcalls he h, withinLimit_updates b hl hd h⟩

/-- An update `0.05 s` after a sample, under the default sample period of `0.1 s`, is not due:
it returns the estimate and leaves the detumbler as it was. -/
theorem early_update_returns_estimate :
    runFrom (updateEstimate 0.05 default default ⟨0.0, Vec3.zero, Vec3.zero, Vec3.zero⟩)
        ({ magnetometer := ⟨0.0, 0, Pcg.ofSeed 0⟩, environment := {} } : FieldRateSensing) =
      (.ok ⟨0.0, Vec3.zero, Vec3.zero, Vec3.zero⟩,
        { magnetometer := ⟨0.0, 0, Pcg.ofSeed 0⟩, environment := {} }) :=
  (estimator_spec default { magnetometer := ⟨0.0, 0, Pcg.ofSeed 0⟩, environment := {} }
    (by decide) (by decide)).1 _ _ _ (by decide)

end FieldRateSensing

end Spacecraft
