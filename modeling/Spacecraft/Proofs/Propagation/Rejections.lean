import Mathlib
import Spacecraft.Proofs.Propagation.Summary
import Spacecraft.Proofs.Propagation.Time

/-!
# The refusals of a run

A step retries a refused trial with half the step (`Retry`). The trials of a step raise
`Propagator.raised` refusals: the refused trials in a row before the first one that is not
refused, or all the trials allowed when each of them is refused (`Retried`). A step whose
trials end in an outcome adds those refusals to the run's count, whatever happens to the state
afterwards; a step whose trials fail adds none, though its trials were refused just the same
(`stepsTo_rejected`). Only the last step of a run can fail its trials, so the summary counts
every refusal of the run except those of a last step whose trials failed
(`summary_rejectedSteps_add_lost`): a run that diverges on refusals reports none of the
refusals that made it diverge.
-/

namespace Spacecraft

namespace Propagator

variable (p : Propagator) (tEnd : Float) (listen : Option Nat) (interrupt : Option Interrupt)

/-- The refusals the trials of a step from `g` raise. -/
def raised (g : Progress) : Nat :=
  p.integrator.refusals (rate g.dynamics g.state.inertia g.control) g.state.time g.state.toArray
    (firstTrial tEnd g) (p.limits.maxRejections.toNat + 1)

/-- The refusals of a step from `g` that the run counts: all of them when its trials end in an
outcome, none when they fail. -/
def counted (g : Progress) : Nat :=
  match p.trials tEnd g with
  | .ok _ => p.raised tEnd g
  | .error _ => 0

/-- The refusals of a step from `g` that the run does not count. -/
def uncounted (g : Progress) : Nat :=
  match p.trials tEnd g with
  | .ok _ => 0
  | .error _ => p.raised tEnd g

/-- The refusals of the last of some passes that the run does not count. -/
def lostRefusals (qs : List Pass) : Nat :=
  (qs.getLast?.map fun q => p.uncounted tEnd q.before).getD 0

/-- What the trials of a step from `g` do: every trial before the count of refusals is
refused; with fewer refusals than the trials allowed, the trial at the count is not refused
and the trials give its outcome, its step and the count; otherwise every trial allowed was
refused and the trials diverge. -/
structure Retried (g : Progress) : Prop where
  refused : ∀ j < p.raised tEnd g, p.integrator.refuses (rate g.dynamics g.state.inertia g.control)
    g.state.time g.state.toArray (halved (firstTrial tEnd g) j) = true
  outcome : p.raised tEnd g < p.limits.maxRejections.toNat + 1 →
    p.integrator.refuses (rate g.dynamics g.state.inertia g.control) g.state.time g.state.toArray
        (halved (firstTrial tEnd g) (p.raised tEnd g)) = false ∧
      p.trials tEnd g =
        (p.integrator.attempt (rate g.dynamics g.state.inertia g.control) g.state.time
          g.state.toArray (halved (firstTrial tEnd g) (p.raised tEnd g))).map
          fun o => (o, halved (firstTrial tEnd g) (p.raised tEnd g), p.raised tEnd g)
  exhausted : p.raised tEnd g = p.limits.maxRejections.toNat + 1 ↔
    ∀ j < p.limits.maxRejections.toNat + 1, p.integrator.refuses
      (rate g.dynamics g.state.inertia g.control) g.state.time g.state.toArray
      (halved (firstTrial tEnd g) j) = true
  diverged : p.raised tEnd g = p.limits.maxRejections.toNat + 1 →
    p.trials tEnd g = .error (.divergence (toString (p.limits.maxRejections.toNat + 1) ++
      " consecutive step rejections") (some g.state.time))

theorem trials_eq (g : Progress) :
    p.trials tEnd g =
      if p.raised tEnd g < p.limits.maxRejections.toNat + 1 then
        (p.integrator.attempt (rate g.dynamics g.state.inertia g.control) g.state.time
          g.state.toArray (halved (firstTrial tEnd g) (p.raised tEnd g))).map
          fun o => (o, halved (firstTrial tEnd g) (p.raised tEnd g), p.raised tEnd g)
      else .error (.divergence (toString (p.limits.maxRejections.toNat + 1) ++
        " consecutive step rejections") (some g.state.time)) :=
  attemptHalving_eq _ _ _ _ _

/-- The trials of every step do what `Retried` says. -/
theorem retried (g : Progress) : p.Retried tEnd g where
  refused _ hj := Integrator.refuses_of_lt_refusals _ _ _ _ hj
  outcome hk := ⟨Integrator.not_refuses_at_refusals _ _ _ _ hk, by rw [trials_eq, if_pos hk]⟩
  exhausted := Integrator.refusals_eq_iff _ _ _ _
  diverged hk := by rw [trials_eq, if_neg (by omega)]

theorem counted_add_uncounted (g : Progress) :
    p.counted tEnd g + p.uncounted tEnd g = p.raised tEnd g := by
  unfold counted uncounted
  split <;> omega

variable {p tEnd}

theorem counted_of_trials_ok {g : Progress} {r : StepOutcome × Float × Nat}
    (ht : p.trials tEnd g = .ok r) : p.counted tEnd g = p.raised tEnd g := by
  rw [counted, ht]

theorem uncounted_of_trials_ok {g : Progress} {r : StepOutcome × Float × Nat}
    (ht : p.trials tEnd g = .ok r) : p.uncounted tEnd g = 0 := by
  rw [uncounted, ht]

/-- The refusals an outcome of the trials carries are the refusals they raised. -/
theorem refusals_of_trials_ok {g : Progress} {o : StepOutcome} {h : Float} {k : Nat}
    (ht : p.trials tEnd g = .ok (o, h, k)) : k = p.raised tEnd g :=
  (p.trials_ok tEnd ht).2.2.1

/-- A step adds to the run's count the refusals it counts. -/
theorem stepsTo_rejected {g g' : Progress} {f : Option Fault} (hs : StepsTo p tEnd g g' f) :
    g'.rejected = g.rejected + p.counted tEnd g := by
  cases hs with
  | retryFault ht => rw [counted, ht]; rfl
  | rebuildFault ht => rw [counted_of_trials_ok ht, ← refusals_of_trials_ok ht]
  | advanceFault ht => rw [counted_of_trials_ok ht, ← refusals_of_trials_ok ht]
  | accepted ht => rw [counted_of_trials_ok ht, ← refusals_of_trials_ok ht]

/-- A step that raises no fault counts every refusal it raised. -/
theorem uncounted_of_stepsTo {g g' : Progress} (hs : StepsTo p tEnd g g' none) :
    p.uncounted tEnd g = 0 := by
  cases hs with
  | accepted ht => exact uncounted_of_trials_ok ht

/-- An accepted step took the first trial halved once for each refusal, fewer than the
trials allowed, and landed where that step lands. -/
theorem stepsTo_accepted_time {g g' : Progress} {f : Option Fault} (hs : StepsTo p tEnd g g' f)
    (hacc : g'.steps = g.steps + 1) :
    p.raised tEnd g ≤ p.limits.maxRejections.toNat ∧
      g'.state.time = landing tEnd g.state.time (halved (firstTrial tEnd g) (p.raised tEnd g)) := by
  cases hs with
  | accepted ht hr =>
    obtain ⟨-, hh, -, hlt⟩ := p.trials_ok tEnd ht
    rw [← refusals_of_trials_ok ht, ← hh]
    exact ⟨by omega, (p.rebuild_ok tEnd hr).1.time⟩
  | _ => simp at hacc

/-- The refusals a run counts, from its start value. -/
theorem loop_rejected (fuel : Nat) (g : Progress) :
    (p.loop tEnd listen interrupt fuel g).progress.rejected =
      g.rejected + ((p.passes tEnd listen interrupt fuel g).map fun q => p.counted tEnd q.before).sum :=
  p.loop_count tEnd listen interrupt Progress.rejected (fun q => p.counted tEnd q.before)
    (fun _ _ _ hs => stepsTo_rejected hs) fuel g

/-- Passes of which only the last may leave refusals uncounted count all the refusals they
raised but those. -/
theorem sum_counted_add_lostRefusals {qs : List Pass}
    (h : qs.IsChain fun q _ => p.uncounted tEnd q.before = 0) :
    (qs.map fun q => p.counted tEnd q.before).sum + p.lostRefusals tEnd qs =
      (qs.map fun q => p.raised tEnd q.before).sum := by
  induction qs with
  | nil => rfl
  | cons q qs ih =>
    cases qs with
    | nil => simp [lostRefusals, counted_add_uncounted]
    | cons q' qs =>
      obtain ⟨hq, hrest⟩ := List.isChain_cons_cons.1 h
      have hc := p.counted_add_uncounted tEnd q.before
      have hl : p.lostRefusals tEnd (q :: q' :: qs) = p.lostRefusals tEnd (q' :: qs) := by
        simp only [lostRefusals, List.getLast?_cons_cons]
      simp only [List.map_cons, List.sum_cons] at ih ⊢
      rw [hl]
      have := ih hrest
      omega

/-- Only the last pass of a run may leave refusals uncounted: every pass before it was
accepted without a fault. -/
theorem passes_uncounted (fuel : Nat) (g : Progress) :
    (p.passes tEnd listen interrupt fuel g).IsChain fun q _ => p.uncounted tEnd q.before = 0 := by
  refine (p.passes_chain tEnd listen interrupt fuel g).imp_of_mem_imp ?_
  intro q _ hq _ hrel
  have hs := (p.mem_passes tEnd listen interrupt hq).2
  obtain ⟨hf, -⟩ := accepted_of_after_eq_none p tEnd listen interrupt hs hrel.1
  rw [hf] at hs
  exact uncounted_of_stepsTo hs

/-- Where the first suggested step and every suggested step of the method are positive,
every step of a run tries a positive step first. -/
theorem passes_firstTrial_pos
    (hnext : ∀ f t y h o, p.integrator.attempt f t y h = .ok o → 0 < o.nextStep)
    {fuel : Nat} {g : Progress} (hstep : 0 < g.step) :
    ∀ q ∈ p.passes tEnd listen interrupt fuel g, 0 < firstTrial tEnd q.before := by
  intro q hq
  exact firstTrial_pos (p.halt_eq_none tEnd (p.mem_passes tEnd listen interrupt hq).1).1
    (passes_timeOrdered listen interrupt hnext hstep q hq).1.2.2

/-- The refusals of a run. Every step retries its refused trials as `Retried` says; an
accepted step took its first trial halved once for each of fewer refusals than the trials
allowed; with positive suggested steps every first trial is positive. The summary counts
every refusal the steps raised except those of a last step whose trials failed. -/
theorem summary_rejectedSteps_add_lost {initial : SatState} {observers : List Observer}
    {S : RunSummary} (hS : (p.propagate initial tEnd observers listen).summary = some S) :
    (∀ q ∈ p.runPasses tEnd listen initial observers,
      p.Retried tEnd q.before ∧
      (q.Accepted → p.raised tEnd q.before ≤ p.limits.maxRejections.toNat ∧
        q.after.state.time = landing tEnd q.before.state.time
          (halved (firstTrial tEnd q.before) (p.raised tEnd q.before))) ∧
      (0 < p.integrator.initialStep initial.time tEnd →
        (∀ f t y h o, p.integrator.attempt f t y h = .ok o → 0 < o.nextStep) →
        0 < firstTrial tEnd q.before)) ∧
    S.rejectedSteps + p.lostRefusals tEnd (p.runPasses tEnd listen initial observers) =
      ((p.runPasses tEnd listen initial observers).map fun q => p.raised tEnd q.before).sum := by
  obtain ⟨g, f, h⟩ := p.exists_opening tEnd listen none hS
  have ho := p.opening_opened tEnd listen h
  obtain ⟨-, -, -, hrej⟩ := p.summary_of_opening tEnd listen none h hS
  rw [hrej]
  cases f with
  | some e => simp [p.runPasses_eq_nil tEnd listen none h, openingEnding, after, ho.rejected,
      lostRefusals]
  | none =>
    rw [p.runPasses_eq_passes tEnd listen none h (by simp)]
    simp only [openingEnding, (p.after_opening tEnd listen none h).2 ⟨rfl, by simp⟩]
    refine ⟨fun q hq => ⟨p.retried tEnd q.before, ?_, fun hinit hnext => ?_⟩, ?_⟩
    · exact stepsTo_accepted_time (p.mem_passes tEnd listen none hq).2
    · exact passes_firstTrial_pos listen none hnext (by rw [ho.step]; exact hinit) q hq
    · rw [loop_rejected, ho.rejected, Nat.zero_add]
      exact sum_counted_add_lostRefusals (passes_uncounted listen none _ g)

/-- The sample run of two fixed steps reports a summary, and its refusals are as
`summary_rejectedSteps_add_lost` says. -/
theorem sample_run_refusals :
    (samplePropagator.propagate sampleState 1.0 []).summary.isSome = true ∧
    ((∀ q ∈ samplePropagator.runPasses 1.0 none sampleState [],
      samplePropagator.Retried 1.0 q.before ∧
      (q.Accepted → samplePropagator.raised 1.0 q.before ≤
          samplePropagator.limits.maxRejections.toNat ∧
        q.after.state.time = landing 1.0 q.before.state.time
          (halved (firstTrial 1.0 q.before) (samplePropagator.raised 1.0 q.before))) ∧
      (0 < samplePropagator.integrator.initialStep sampleState.time 1.0 →
        (∀ f t y h o, samplePropagator.integrator.attempt f t y h = .ok o → 0 < o.nextStep) →
        0 < firstTrial 1.0 q.before)) ∧
    ((samplePropagator.propagate sampleState 1.0 []).summary.getD default).rejectedSteps +
        samplePropagator.lostRefusals 1.0 (samplePropagator.runPasses 1.0 none sampleState []) =
      ((samplePropagator.runPasses 1.0 none sampleState []).map
        fun q => samplePropagator.raised 1.0 q.before).sum) := by
  have hsome : (samplePropagator.propagate sampleState 1.0 []).summary.isSome = true := by
    decide +kernel
  exact ⟨hsome, summary_rejectedSteps_add_lost none
    (Option.getD_of_ne_none (Option.isSome_iff_ne_none.1 hsome) default).symm⟩

/-- The sample start, spinning at one radian per second about its third axis. -/
def spinningState : SatState :=
  { sampleState with angularVelocity := ⟨0.0, 0.0, 1.0⟩ }

/-- Adaptive steps with an error tolerance no spinning step meets, and one retry allowed. -/
def strictPropagator : Propagator :=
  { dynamics := { body := default },
    integrator := .dormandPrince { atol := 1.0e-300, rtol := 0.0 },
    limits := { maxRejections := 1 } }

/-- A run whose only step is refused twice diverges and reports no refusal. -/
theorem strict_run_loses_refusals :
    (strictPropagator.propagate spinningState 1.0 []).summary.map
        (fun S => (S.rejectedSteps, S.reason)) = some (0, .diverged) ∧
      (strictPropagator.runPasses 1.0 none spinningState []).map
        (fun q => strictPropagator.raised 1.0 q.before) = [2] := by
  refine ⟨by decide +kernel, ?_⟩
  -- the run's one pass starts where its loop does, with both trials of its step refused;
  -- each fact is evaluated on its own, so that no trial is evaluated twice in one check
  have hopen : (strictPropagator.opening 1.0 none spinningState []).map
      (fun x => x.2.isNone) = some true := by
    decide +kernel
  have hraised : (strictPropagator.opening 1.0 none spinningState []).map
      (fun x => strictPropagator.raised 1.0 x.1) = some 2 := by
    decide +kernel
  have hstep : (strictPropagator.opening 1.0 none spinningState []).map
      (fun x => (strictPropagator.halt 1.0 x.1).isNone &&
        (after none none (strictPropagator.advanceOnce 1.0 x.1).1
          (strictPropagator.advanceOnce 1.0 x.1).2).isSome) = some true := by
    decide +kernel
  obtain ⟨⟨g, f⟩, ho, hf⟩ := Option.map_eq_some_iff.1 hopen
  rw [ho] at hraised hstep
  simp only [Option.map_some, Option.some.injEq, Bool.and_eq_true, Option.isNone_iff_eq_none,
    Option.isSome_iff_exists] at hf hraised hstep
  obtain ⟨hh, e, he⟩ := hstep
  subst hf
  rw [runPasses_eq_passes strictPropagator 1.0 none none ho (by simp), passes_succ, hh]
  simp [he, hraised]

end Propagator

end Spacecraft
