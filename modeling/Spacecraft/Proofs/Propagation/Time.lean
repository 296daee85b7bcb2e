import Mathlib
import Spacecraft.Proofs.Propagation.Summary
import Spacecraft.Proofs.Binary64.Special

/-!
# The times of a run

A step of `h` from `t` lands on `t + h`, or on the end time when that is within `10⁻⁶ h` of
it (`Propagator.landing`). Before the end time and with a finite `h` it lands on a time that
is not NaN and not past the end time (`landing_le`): a sum past the end time needs a positive
`h`, and then the snap takes it. With `h` at least zero it lands no earlier than `t`
(`le_landing`).

An accepted step has a finite size, so every progress of a run keeps a time that is not NaN
and not past the end time (`TimeBounded`). When the first trial step and every suggested step
are positive, every trial step is at least zero, and the time of a run also never goes back
and stays at or after the start (`TimeOrdered`).
-/

namespace Spacecraft

namespace Propagator

variable (p : Propagator) (tEnd : Float) (listen : Option Nat)

/-- A step before the end time, of a finite size, lands on a time that is not NaN and not
past the end time. -/
theorem landing_le {t h : Float} (ht : t < tEnd) (hh : h.isFinite = true) :
    Binary64.view (landing tEnd t h) ≠ .notANumber ∧ landing tEnd t h ≤ tEnd := by
  have hEnd := Binary64.ne_nan_of_lt_right ht
  unfold landing
  split_ifs with hc
  · exact ⟨hEnd, Binary64.le_refl_of_ne_nan hEnd⟩
  · have htn := Binary64.ne_nan_of_lt_left ht
    have hs := Binary64.add_ne_nan htn hh
    refine ⟨hs, ?_⟩
    by_contra hgt
    have hlt : tEnd < t + h := Binary64.float_lt_of_not_le hs hEnd hgt
    -- a sum past the end time needs a positive step
    have hpos : 0 < h := by
      by_contra hnp
      have hle : h ≤ 0 :=
        Binary64.float_le_of_not_lt Binary64.view_zero_ne_nan (Binary64.ne_nan_of_isFinite hh) hnp
      have h1 := (Binary64.le_iff_rank hs htn).1 (Binary64.add_le_of_nonpos htn hh hle)
      have h2 := (Binary64.lt_iff_rank htn hEnd).1 ht
      have h3 := (Binary64.lt_iff_rank hEnd hs).1 hlt
      omega
    -- and then the end time is within the snap
    have hsnap : 0 ≤ 1.0e-6 * h :=
      Binary64.mul_nonneg_of_pos (by decide) (by decide) (Binary64.le_of_float_lt hpos)
    exact hc (Binary64.float_le_trans (Binary64.sub_nonpos_of_lt hlt) hsnap)

/-- A step of at least zero before the end time lands no earlier than it starts. -/
theorem le_landing {t h : Float} (ht : t < tEnd) (hh : h.isFinite = true) (h0 : 0 ≤ h) :
    t ≤ landing tEnd t h := by
  unfold landing
  split_ifs
  · exact Binary64.le_of_float_lt ht
  · exact Binary64.le_add_of_finite_nonneg (Binary64.ne_nan_of_lt_left ht) hh h0

/-- Halving a step of at least zero keeps it at least zero. -/
theorem halved_nonneg {h : Float} (h0 : 0 ≤ h) (j : Nat) : 0 ≤ halved h j := by
  induction j generalizing h with
  | zero => exact h0
  | succ j ih =>
    rw [halved_succ]
    exact ih (Binary64.div_nonneg_of_pos h0 (by decide) (by decide))

/-- A time that is not NaN and not past the end time. -/
def TimeBounded (g : Progress) : Prop :=
  Binary64.view g.state.time ≠ .notANumber ∧ g.state.time ≤ tEnd

/-- The state a step accepts is at the time it lands on, by a trial of finite size. -/
theorem accepted_time {g : Progress} {o : StepOutcome} {h : Float} {k : Nat} {s : SatState}
    (ht : p.trials tEnd g = .ok (o, h, k)) (hr : p.rebuild tEnd g o h = .ok s) :
    s.time = landing tEnd g.state.time h ∧ h.isFinite = true :=
  ⟨(p.rebuild_ok tEnd hr).1.time, p.accepted_step_finite tEnd ht hr⟩

/-- Every step keeps the time of a run not NaN and not past the end time. -/
theorem stepsTo_timeBounded {g g' : Progress} {f : Option Fault} (hb : TimeBounded tEnd g)
    (hh : p.halt tEnd g = none) (hs : StepsTo p tEnd g g' f) : TimeBounded tEnd g' := by
  cases hs with
  | retryFault => exact hb
  | rebuildFault => exact hb
  | advanceFault => exact hb
  | accepted ht hr =>
    obtain ⟨htime, hfin⟩ := p.accepted_time tEnd ht hr
    show TimeBounded tEnd { g with state := _ }
    rw [TimeBounded, htime]
    exact landing_le tEnd (p.halt_eq_none tEnd hh).1 hfin

section Ordered

variable (t0 : Float)

/-- A time at or after `t0`, not NaN and not past the end time, with a positive suggested
step. -/
def TimeOrdered (g : Progress) : Prop :=
  TimeBounded tEnd g ∧ t0 ≤ g.state.time ∧ 0 < g.step

variable {p tEnd}

/-- With a positive suggested step, the first trial of a step before the end time is
positive. -/
theorem firstTrial_pos {g : Progress} (ht : g.state.time < tEnd) (hstep : 0 < g.step) :
    0 < firstTrial tEnd g := by
  unfold firstTrial
  split_ifs
  · exact Binary64.sub_pos_of_lt ht
  · exact hstep

/-- Where every suggested step is positive, a step keeps the time of a run at or after `t0`
and moves it no earlier, and the suggested step stays positive. -/
theorem stepsTo_timeOrdered
    (hnext : ∀ f t y h o, p.integrator.attempt f t y h = .ok o → 0 < o.nextStep)
    {g g' : Progress} {f : Option Fault} (hb : TimeOrdered tEnd t0 g)
    (hh : p.halt tEnd g = none) (hs : StepsTo p tEnd g g' f) :
    TimeOrdered tEnd t0 g' ∧ g.state.time ≤ g'.state.time := by
  have hbounded := stepsTo_timeBounded p tEnd hb.1 hh hs
  have hrefl := Binary64.le_refl_of_ne_nan hb.1.1
  cases hs with
  | retryFault => exact ⟨hb, hrefl⟩
  | rebuildFault => exact ⟨⟨hbounded, hb.2⟩, hrefl⟩
  | advanceFault => exact ⟨⟨hbounded, hb.2⟩, hrefl⟩
  | @accepted o h k s c d obs stop fault ht hr _ _ =>
    obtain ⟨htime, hfin⟩ := p.accepted_time tEnd ht hr
    obtain ⟨ha, hhalved, -, -⟩ := p.trials_ok tEnd ht
    have hbefore := (p.halt_eq_none tEnd hh).1
    -- the trial taken is the first trial halved, so at least zero
    have h0 : (0 : Float) ≤ h := by
      rw [hhalved]
      exact halved_nonneg (Binary64.le_of_float_lt (firstTrial_pos hbefore hb.2.2)) k
    have hmove : g.state.time ≤ s.time := by
      rw [htime]
      exact le_landing tEnd hbefore hfin h0
    exact ⟨⟨hbounded, Binary64.float_le_trans hb.2.1 hmove, hnext _ _ _ _ _ ha⟩, hmove⟩

/-- A progress before the end time, with a positive suggested step, has its times ordered from
its own time. -/
theorem timeOrdered_start {g : Progress} (hh : p.halt tEnd g = none) (hstep : 0 < g.step) :
    TimeOrdered tEnd g.state.time g := by
  have ht := (p.halt_eq_none tEnd hh).1
  have hn := Binary64.ne_nan_of_lt_left ht
  exact ⟨⟨hn, Binary64.le_of_float_lt ht⟩, Binary64.le_refl_of_ne_nan hn, hstep⟩

variable (listen : Option Nat) (interrupt : Option Interrupt)

/-- Where every suggested step is positive, the passes of a run keep its times ordered from
where it starts. -/
theorem passes_timeOrdered
    (hnext : ∀ f t y h o, p.integrator.attempt f t y h = .ok o → 0 < o.nextStep)
    {fuel : Nat} {g : Progress} (hstep : 0 < g.step) :
    ∀ q ∈ p.passes tEnd listen interrupt fuel g,
      TimeOrdered tEnd g.state.time q.before ∧ TimeOrdered tEnd g.state.time q.after :=
  p.passes_invariant tEnd listen interrupt (TimeOrdered tEnd g.state.time)
    (fun _ _ _ hb hh hs => (stepsTo_timeOrdered g.state.time hnext hb hh hs).1)
    (fun hh => timeOrdered_start hh hstep)

end Ordered

end Propagator

/-- The fixed-step method always suggests its own step. -/
theorem Integrator.rungeKutta_nextStep {stepSize : Float} {f : RateFunction} {t h : Float}
    {y : List Float} {o : StepOutcome} (ha : (Integrator.rungeKutta stepSize).attempt f t y h = .ok o) :
    o.nextStep = stepSize := by
  simp only [Integrator.attempt] at ha
  obtain ⟨_, -, ha⟩ := Outcome.bind_eq_ok ha
  obtain ⟨_, -, ha⟩ := Outcome.bind_eq_ok ha
  obtain ⟨_, -, ha⟩ := Outcome.bind_eq_ok ha
  obtain ⟨_, -, ha⟩ := Outcome.bind_eq_ok ha
  cases ha
  rfl

end Spacecraft
