import Mathlib
import Spacecraft.Config.Run
import Spacecraft.Proofs.Tracked
import Spacecraft.Proofs.Binary64.Special
import Spacecraft.Proofs.Propagation.Trial

/-!
# What validation guarantees

Validation refuses a run description at its first value out of range. Every range check is
written as a refusal: a setting that must be positive is refused when `x ≤ 0`, one that must
not be negative when `x < 0`, the perigee when it is at most the Earth's radius. An undefined
float compares false with everything, so it passes every check written that way; only the
checks written the other way round (`0 < min_step ≤ max_step`, `0 ≤ e < 1`) and the body's mass,
which is also required to be finite, refuse it.

`RunConfig.Admitted` collects what an accepted description holds, and every description that
reading and validation accept is admitted (`admitted_of_ofJson`). The guarantees are the
ranges the checks name, each with an undefined value let through (`AboveOrNaN`,
`AtLeastOrNaN`), and the scenario steps are only known to be numbers: no check looks at the sign
of their durations.
-/

namespace Spacecraft

/-- A float a check `x ≤ b` lets through: above `b`, or undefined. -/
def AboveOrNaN (b x : Float) : Prop := x.isNaN = true ∨ b < x

/-- A float a check `x < b` lets through: at least `b`, or undefined. -/
def AtLeastOrNaN (b x : Float) : Prop := x.isNaN = true ∨ b ≤ x

namespace Binary64

theorem view_ne_nan_of_isNaN {x : Float} (h : x.isNaN = false) : view x ≠ .notANumber :=
  isNaN_eq_false_iff.1 h

theorem aboveOrNaN_of_not_le {b x : Float} (hb : b.isNaN = false) (h : ¬ x ≤ b) :
    AboveOrNaN b x := by
  cases hx : x.isNaN with
  | true => exact .inl hx
  | false => exact .inr (float_lt_of_not_le (view_ne_nan_of_isNaN hx) (view_ne_nan_of_isNaN hb) h)

theorem atLeastOrNaN_of_not_lt {b x : Float} (hb : b.isNaN = false) (h : ¬ x < b) :
    AtLeastOrNaN b x := by
  cases hx : x.isNaN with
  | true => exact .inl hx
  | false => exact .inr (float_le_of_not_lt (view_ne_nan_of_isNaN hx) (view_ne_nan_of_isNaN hb) h)

end Binary64

open Binary64

theorem isNaN_zero : (0.0 : Float).isNaN = false := by decide

@[simp] theorem Outcome.throw_bind {α β : Type} (e : Fault) (f : α → Outcome β) :
    ((throw e : Outcome α) >>= f) = throw e := rfl

@[simp] theorem Outcome.throw_ne_ok {α : Type} (e : Fault) (a : α) :
    (throw e : Outcome α) ≠ .ok a := nofun

/-! ## One section at a time -/

namespace IntegratorSettings

theorem validate_ok {c : IntegratorSettings} (h : c.validate = .ok ()) :
    ["rk4", "dopri45"].contains c.method = true ∧ ¬ c.stepSize ≤ 0.0 ∧ ¬ c.atol ≤ 0.0 ∧
      ¬ c.rtol < 0.0 ∧ 0.0 < c.minStep ∧ c.minStep ≤ c.maxStep ∧ 1 ≤ c.maxRejections.value ∧
      1 ≤ c.maxSteps.value ∧ ¬ c.maxPositionNorm ≤ 0.0 := by
  simp only [validate, refuse, Outcome.throw_bind] at h
  split_ifs at h with hm hs htol hstep hlim hnorm
  simp only [Bool.or_eq_true, Bool.and_eq_true, decide_eq_true_eq, not_or, not_lt] at htol hstep hlim
  exact ⟨hm, hs, htol.1, htol.2, hstep.1, hstep.2, hlim.1, hlim.2, hnorm⟩

end IntegratorSettings

namespace TorqueSettings

/-- A scenario step that passes has the shape `[start, duration, direction]` and its start and
duration read as numbers; the sign of the duration is not looked at. -/
theorem checkStep_ok {step : Json} (h : checkStep step = .ok ()) :
    ∃ start duration direction, step = .arr [start, duration, direction] ∧
      ∃ t d, number "Scenario start and duration" start = .ok t ∧
        number "Scenario start and duration" duration = .ok d := by
  unfold checkStep at h
  split at h
  · rename_i start duration direction
    obtain ⟨times, htimes, -⟩ := Outcome.bind_eq_ok h
    simp only [numbers, List.length_cons, List.length_nil, if_true, List.mapM_cons,
      List.mapM_nil] at htimes
    obtain ⟨t, ht, htimes⟩ := Outcome.bind_eq_ok htimes
    obtain ⟨rest, hrest, -⟩ := Outcome.bind_eq_ok htimes
    obtain ⟨d, hd, -⟩ := Outcome.bind_eq_ok hrest
    exact ⟨start, duration, direction, rfl, t, d, ht, hd⟩
  · simp [refuse] at h

theorem validate_ok {c : TorqueSettings} (h : c.validate = .ok ()) :
    (∀ step ∈ c.scenario, checkStep step = .ok ()) ∧ ¬ c.randomDisturbance < 0.0 ∧
      ¬ c.detumbleThreshold ≤ 0.0 ∧ ¬ c.bdotGain ≤ 0.0 ∧ ¬ c.bdotTimeConstant ≤ 0.0 ∧
      ¬ c.bdotSamplePeriod < 0.0 ∧ ¬ c.magnetometerNoise < 0.0 ∧ ¬ c.gyrometerNoise < 0.0 := by
  simp only [validate, refuse, Outcome.throw_bind] at h
  -- past the law's name the same checks follow, whichever law is asked for
  split at h
  on_goal 2 => obtain ⟨-, h⟩ := Outcome.ite_else_throw_eq_ok h
  all_goals
    obtain ⟨u, hscenario, h⟩ := Outcome.bind_eq_ok h
    split_ifs at h with hdist hthr hsense hbdot hperiod hnoise
    simp only [Bool.or_eq_true, decide_eq_true_eq, not_or] at hbdot hnoise
    exact ⟨Outcome.forM_eq_ok hscenario, hdist, hthr, hbdot.1, hbdot.2, hperiod, hnoise.1,
      hnoise.2⟩

end TorqueSettings

namespace StartSettings

/-- What validation checks of the orbit of a start: a circular orbit's altitude is not at most
zero; Keplerian elements have an eccentricity in `[0, 1)` and a perigee radius not at most the
Earth's radius. A Cartesian start has no range to check. -/
def OrbitAdmitted : StartSettings → Prop
  | .circular s => AboveOrNaN 0.0 s.altitude
  | .elements s => 0.0 ≤ s.eccentricity ∧ s.eccentricity < 1.0 ∧
      AboveOrNaN earthRadius (s.semiMajorAxis * (1.0 - s.eccentricity))
  | .cartesian _ => True

theorem orbitAdmitted_of_validate {c : StartSettings} (h : c.validate = .ok ()) :
    c.OrbitAdmitted := by
  cases c with
  | cartesian s => trivial
  | circular s =>
    simp only [validate, refuse, Outcome.throw_bind] at h
    exact aboveOrNaN_of_not_le isNaN_zero (Outcome.ite_throw_eq_ok h).1
  | elements s =>
    simp only [validate, refuse, Outcome.throw_bind] at h
    obtain ⟨he, h⟩ := Outcome.ite_else_throw_eq_ok h
    simp only [Bool.and_eq_true, decide_eq_true_eq] at he
    exact ⟨he.1, he.2, aboveOrNaN_of_not_le (by decide) (Outcome.ite_throw_eq_ok h).1⟩

end StartSettings

namespace Body

/-- What the checks of a body guarantee of it: a finite positive mass, dimensions not at most
zero, and coefficients, areas and saturation not below zero. -/
structure Physical (b : Body) : Prop where
  mass_finite : b.mass.isFinite = true
  mass_pos : 0.0 < b.mass
  dimensions : ∀ x ∈ b.dimensions.toList, AboveOrNaN 0.0 x
  coefficients : ∀ x ∈ [b.dragCoefficient, b.dragArea, b.radiationCoefficient, b.radiationArea,
    b.maxDipole], AtLeastOrNaN 0.0 x

/-- The loop over the coefficients passes only if none is below zero. -/
theorem forIn_nonneg_ok {l : List (String × Float)} (msg : String × Float → Fault) {u : PUnit}
    (h : forIn l PUnit.unit (fun x (_ : PUnit) =>
      if x.2 < 0.0 then (throw (msg x) : Outcome (ForInStep PUnit))
      else pure (ForInStep.yield PUnit.unit)) = .ok u) :
    ∀ x ∈ l, ¬ x.2 < 0.0 := by
  induction l with
  | nil => intro x hx; cases hx
  | cons a l ih =>
    rw [List.forIn_cons] at h
    obtain ⟨step, ha, h⟩ := Outcome.bind_eq_ok h
    obtain ⟨hna, ha⟩ := Outcome.ite_throw_eq_ok ha
    cases ha
    intro x hx
    rcases List.mem_cons.1 hx with rfl | hx
    · exact hna
    · exact ih h x hx

theorem physical_of_ofSpec {s : BodySpec} {b : Body} (h : Body.ofSpec s = .ok b) : b.Physical := by
  simp only [Body.ofSpec, Outcome.throw_bind] at h
  obtain ⟨hmass, h⟩ := Outcome.ite_throw_eq_ok h
  split at h
  case h_2 => exact absurd h (Outcome.throw_ne_ok _ _)
  obtain ⟨-, h⟩ := Outcome.ite_throw_eq_ok h
  obtain ⟨moments, -, h⟩ := Outcome.bind_eq_ok h
  obtain ⟨-, h⟩ := Outcome.ite_throw_eq_ok h
  obtain ⟨hdims, h⟩ := Outcome.ite_throw_eq_ok h
  split at h
  case h_2 => exact absurd h (Outcome.throw_ne_ok _ _)
  obtain ⟨u, hloop, h⟩ := Outcome.bind_eq_ok h
  cases h
  simp only [Bool.or_eq_true, Bool.not_eq_eq_eq_not, Bool.not_true, decide_eq_true_eq, not_or,
    Bool.not_eq_false] at hmass
  simp only [Bool.or_eq_true, not_or, Option.isNone_iff_eq_none, List.any_eq_true,
    decide_eq_true_eq, not_exists, not_and] at hdims
  obtain ⟨d, hd⟩ := Option.ne_none_iff_exists'.1 hdims.1
  have hnan : s.mass.isNaN = false :=
    isNaN_eq_false_iff.2 (ne_nan_of_isFinite (isFinite_iff.1 hmass.1))
  refine ⟨hmass.1, ?_, ?_, ?_⟩
  · rcases aboveOrNaN_of_not_le isNaN_zero hmass.2 with hn | hpos
    · rw [hnan] at hn
      cases hn
    · exact hpos
  · intro x hx
    rw [hd, Option.getD_some, Vec3.toList_of_ofList? hd] at hx
    exact aboveOrNaN_of_not_le isNaN_zero (hdims.2 x hx)
  · intro x hx
    have hchecked := forIn_nonneg_ok _ hloop
    simp only [List.mem_cons, List.not_mem_nil, or_false] at hx
    simp only [List.mem_cons, List.not_mem_nil, or_false, forall_eq_or_imp, forall_eq] at hchecked
    rcases hx with rfl | rfl | rfl | rfl | rfl
    · exact atLeastOrNaN_of_not_lt isNaN_zero hchecked.1
    · exact atLeastOrNaN_of_not_lt isNaN_zero hchecked.2.1
    · exact atLeastOrNaN_of_not_lt isNaN_zero hchecked.2.2.1
    · exact atLeastOrNaN_of_not_lt isNaN_zero hchecked.2.2.2.1
    · exact atLeastOrNaN_of_not_lt isNaN_zero hchecked.2.2.2.2

end Body

namespace BodySettings

theorem physical_of_toBody {c : BodySettings} {b : Body} (h : c.toBody = .ok b) : b.Physical := by
  simp only [toBody, refuse, Outcome.throw_bind] at h
  obtain ⟨-, h⟩ := Outcome.ite_else_throw_eq_ok h
  obtain ⟨inertia, -, h⟩ := Outcome.bind_eq_ok h
  obtain ⟨dimensions, -, h⟩ := Outcome.bind_eq_ok h
  obtain ⟨dipole, -, h⟩ := Outcome.bind_eq_ok h
  exact Body.physical_of_ofSpec h

end BodySettings

/-! ## A whole description -/

namespace RunConfig

/-- What an accepted run description holds: every range its validation names, each with an
undefined value let through where the check is written as a refusal; scenario steps whose
start and duration are numbers of either sign; an orbit within its ranges; and a physical
body. -/
structure Admitted (c : RunConfig) : Prop where
  duration : AboveOrNaN 0.0 c.duration
  stepSize : AboveOrNaN 0.0 c.integrator.stepSize
  atol : AboveOrNaN 0.0 c.integrator.atol
  rtol : AtLeastOrNaN 0.0 c.integrator.rtol
  minStep : 0.0 < c.integrator.minStep
  maxStep : c.integrator.minStep ≤ c.integrator.maxStep
  limits : 1 ≤ c.integrator.maxRejections.value ∧ 1 ≤ c.integrator.maxSteps.value
  maxPositionNorm : AboveOrNaN 0.0 c.integrator.maxPositionNorm
  randomDisturbance : AtLeastOrNaN 0.0 c.torques.randomDisturbance
  detumbleThreshold : AboveOrNaN 0.0 c.torques.detumbleThreshold
  bdotGain : AboveOrNaN 0.0 c.torques.bdotGain
  bdotTimeConstant : AboveOrNaN 0.0 c.torques.bdotTimeConstant
  bdotSamplePeriod : AtLeastOrNaN 0.0 c.torques.bdotSamplePeriod
  magnetometerNoise : AtLeastOrNaN 0.0 c.torques.magnetometerNoise
  gyrometerNoise : AtLeastOrNaN 0.0 c.torques.gyrometerNoise
  scenario : ∀ step ∈ c.torques.scenario, ∃ start duration direction,
    step = .arr [start, duration, direction] ∧
      ∃ t d, number "Scenario start and duration" start = .ok t ∧
        number "Scenario start and duration" duration = .ok d
  orbit : c.start.OrbitAdmitted
  body : ∃ b, c.body.toBody = .ok b ∧ b.Physical

theorem admitted_of_validate {c : RunConfig} (h : c.validate = .ok ()) : c.Admitted := by
  simp only [validate, refuse, Outcome.throw_bind] at h
  obtain ⟨hduration, h⟩ := Outcome.ite_throw_eq_ok h
  obtain ⟨u, hintegrator, h⟩ := Outcome.bind_eq_ok h
  obtain ⟨u, -, h⟩ := Outcome.bind_eq_ok h
  obtain ⟨u, htorques, h⟩ := Outcome.bind_eq_ok h
  obtain ⟨u, -, h⟩ := Outcome.bind_eq_ok h
  obtain ⟨b, hbody, hstart⟩ := Outcome.bind_eq_ok h
  obtain ⟨-, hstep, hatol, hrtol, hmin, hmax, hrej, hsteps, hnorm⟩ :=
    IntegratorSettings.validate_ok hintegrator
  obtain ⟨hscenario, hdist, hthr, hgain, htau, hperiod, hmag, hgyro⟩ :=
    TorqueSettings.validate_ok htorques
  exact
    { duration := aboveOrNaN_of_not_le isNaN_zero hduration
      stepSize := aboveOrNaN_of_not_le isNaN_zero hstep
      atol := aboveOrNaN_of_not_le isNaN_zero hatol
      rtol := atLeastOrNaN_of_not_lt isNaN_zero hrtol
      minStep := hmin
      maxStep := hmax
      limits := ⟨hrej, hsteps⟩
      maxPositionNorm := aboveOrNaN_of_not_le isNaN_zero hnorm
      randomDisturbance := atLeastOrNaN_of_not_lt isNaN_zero hdist
      detumbleThreshold := aboveOrNaN_of_not_le isNaN_zero hthr
      bdotGain := aboveOrNaN_of_not_le isNaN_zero hgain
      bdotTimeConstant := aboveOrNaN_of_not_le isNaN_zero htau
      bdotSamplePeriod := atLeastOrNaN_of_not_lt isNaN_zero hperiod
      magnetometerNoise := atLeastOrNaN_of_not_lt isNaN_zero hmag
      gyrometerNoise := atLeastOrNaN_of_not_lt isNaN_zero hgyro
      scenario := fun step hs => TorqueSettings.checkStep_ok (hscenario step hs)
      orbit := StartSettings.orbitAdmitted_of_validate hstart
      body := ⟨b, hbody, BodySettings.physical_of_toBody hbody⟩ }

/-- Every run description that reading and validation accept is admitted. -/
theorem admitted_of_ofJson {data : Json} {c : RunConfig} (h : RunConfig.ofJson data = .ok c) :
    c.Admitted := by
  obtain ⟨read, -, h⟩ := Outcome.bind_eq_ok h
  obtain ⟨u, hvalid, h⟩ := Outcome.bind_eq_ok h
  cases h
  exact admitted_of_validate hvalid

/-- The description that sets only an undefined duration is accepted, with that duration. -/
theorem ofJson_undefined_duration :
    (match RunConfig.ofJson (.obj [("duration", .float (0.0 / 0.0))]) with
      | .ok c => c.duration.isNaN
      | .error _ => false) = true := by
  decide +kernel

/-- An undefined duration is admitted. -/
theorem undefined_duration_admitted :
    ∃ c, RunConfig.ofJson (.obj [("duration", .float (0.0 / 0.0))]) = .ok c ∧ c.Admitted ∧
      c.duration.isNaN = true := by
  have hread := ofJson_undefined_duration
  rcases hc : RunConfig.ofJson (.obj [("duration", .float (0.0 / 0.0))]) with e | c
  · rw [hc] at hread
    cases hread
  · rw [hc] at hread
    exact ⟨c, rfl, admitted_of_ofJson hc, hread⟩

/-- Validation does not refuse an undefined duration: a description with one is accepted
although its duration is not positive. -/
theorem accepted_duration_not_positive :
    ∃ c, RunConfig.ofJson (.obj [("duration", .float (0.0 / 0.0))]) = .ok c ∧
      ¬ (0.0 < c.duration) := by
  have hread := ofJson_undefined_duration
  rcases hc : RunConfig.ofJson (.obj [("duration", .float (0.0 / 0.0))]) with e | c
  · rw [hc] at hread
    cases hread
  · rw [hc] at hread
    change c.duration.isNaN = true at hread
    refine ⟨c, rfl, not_lt_of_nan_right _ ?_⟩
    by_contra hne
    have hnum := isNaN_eq_false_iff.2 hne
    rw [hread] at hnum
    cases hnum

end RunConfig

end Spacecraft
