import Mathlib
import Spacecraft.Proofs.Propagation.Summary
import Spacecraft.Proofs.Propagation.Time
import Spacecraft.Proofs.Propagation.Mass

/-!
# The states a run accepts

Every state a run accepts passed the checks of its step: it is finite, not beyond the
position bound, and its quaternion is the normalization of one of length at least `10⁻¹²`
(`stepsTo_checked`). Every step keeps the inertia of the start, a mass equal to it and the
number of steps within the limit (`Steady`). When the method's suggested steps are positive
the times stay ordered (`TimeOrdered`), so the accepted times never go back and lie between
the start and the end time (`acceptedStates_sound`). A state at or past the end time stops the
run, so only the last accepted state can be one, and it is at the end time; that state is the
only one whose observers are told that it is the last.

Times do not always grow: a step too small to move a large time lands where it started. And
a normalized quaternion need not have unit length: one whose squared length overflows is
normalized to zero (`accepted_states_repeat_time_and_lose_attitude`).
-/

namespace Spacecraft

/-- Floats that are not NaN are ordered transitively. -/
instance floatLeTrans : Trans (α := Float) (· ≤ ·) (· ≤ ·) (· ≤ ·) := ⟨Binary64.float_le_trans⟩

/-- A chain whose every element is related to no later one ends in that element. -/
theorem List.getLast?_of_isChain {α : Type} {R : α → α → Prop} {l : List α} {a : α}
    (hl : l.IsChain R) (ha : a ∈ l) (hnone : ∀ b ∈ l, ¬ R a b) : l.getLast? = some a := by
  induction l with
  | nil => cases ha
  | cons x l ih =>
    cases l with
    | nil => rw [List.mem_singleton.1 ha]; rfl
    | cons y l =>
      obtain ⟨hxy, hrest⟩ := List.isChain_cons_cons.1 hl
      rcases List.mem_cons.1 ha with rfl | ha
      · exact absurd hxy (hnone y (by simp))
      · rw [List.getLast?_cons_cons]
        exact ih hrest ha fun b hb => hnone b (List.mem_cons_of_mem _ hb)

namespace Propagator

theorem acceptedState_eq_some {q : Pass} {s : SatState} (h : q.acceptedState = some s) :
    q.Accepted ∧ q.after.state = s := by
  unfold Pass.acceptedState at h
  split_ifs at h with hacc
  exact ⟨hacc, Option.some.inj h⟩

theorem mem_filterMap_acceptedState {qs : List Pass} {s : SatState} :
    s ∈ qs.filterMap Pass.acceptedState ↔ ∃ q ∈ qs, q.Accepted ∧ q.after.state = s := by
  rw [List.mem_filterMap]
  constructor
  · rintro ⟨q, hq, h⟩
    exact ⟨q, hq, acceptedState_eq_some h⟩
  · rintro ⟨q, hq, hacc, rfl⟩
    exact ⟨q, hq, if_pos hacc⟩

/-- The last accepted state of passes whose last one accepts is that pass's state. -/
theorem getLast?_filterMap_acceptedState {qs : List Pass} {q : Pass}
    (hq : qs.getLast? = some q) (hacc : q.Accepted) :
    (qs.filterMap Pass.acceptedState).getLast? = some q.after.state := by
  obtain ⟨qs', rfl⟩ := List.getLast?_eq_some_iff.1 hq
  simp [List.filterMap_append, Pass.acceptedState, hacc]

variable {p : Propagator} {tEnd : Float}

/-- The state of an accepted step passed the checks: it is finite, not beyond the position
bound, and its quaternion is the normalization of one that is long enough. -/
theorem stepsTo_checked {g g' : Progress} {f : Option Fault} (hs : StepsTo p tEnd g g' f)
    (hacc : g'.steps = g.steps + 1) :
    g'.state.isFinite = true ∧ ¬ g'.state.radius > p.limits.maxPositionNorm ∧
      ∃ q, ¬ q.norm < minQuaternionNorm ∧ Quat.normalize q = .ok g'.state.quaternion := by
  cases hs with
  | accepted ht hr =>
    obtain ⟨hreb, hfin, hrad⟩ := p.rebuild_ok tEnd hr
    obtain ⟨q, -, hnorm, hq⟩ := hreb.quaternion
    refine ⟨hfin, hrad, q, hnorm, ?_⟩
    -- a finite state has a finite quaternion, so the one it came from was normalized
    split_ifs at hq with hqf
    · exact hq
    · cases hq
      rw [SatState.quaternion_isFinite hfin] at hqf
      exact absurd rfl hqf
  | _ => simp at hacc

/-- The observers of an accepted step are told of its state, as the last one exactly when
it is not before the end time. -/
theorem stepsTo_notice {g g' : Progress} {f : Option Fault} (hs : StepsTo p tEnd g g' f)
    (hacc : g'.steps = g.steps + 1) :
    noticeEach g'.state (decide (g'.state.time ≥ tEnd)) [] g.observers g.stopRequested =
      (g'.observers, g'.stopRequested, f) := by
  cases hs with
  | accepted _ _ _ hn => exact hn
  | _ => simp at hacc

theorem stepsTo_steps {g g' : Progress} {f : Option Fault} (hs : StepsTo p tEnd g g' f) :
    g'.steps = g.steps ∨ g'.steps = g.steps + 1 := by
  cases hs <;> simp

variable (p tEnd)

/-- What every step keeps from the start of a run: the inertia, a mass equal to the start's,
and the number of steps within the limit. -/
structure Steady (initial : SatState) (g : Progress) : Prop where
  inertia : g.state.inertia = initial.inertia
  mass : (g.state.mass == initial.mass) = true ∨ g.state.mass = initial.mass
  steps : g.steps ≤ p.limits.maxSteps.toNat

variable {p tEnd}

theorem stepsTo_steady {initial : SatState} {g g' : Progress} {f : Option Fault}
    (hb : Steady p initial g) (hh : p.halt tEnd g = none) (hs : StepsTo p tEnd g g' f) :
    Steady p initial g' := by
  have hlimit := (p.halt_eq_none tEnd hh).2.2
  have hsteps : g'.steps ≤ p.limits.maxSteps.toNat := by
    rcases stepsTo_steps hs with h | h <;> omega
  by_cases hacc : g'.steps = g.steps + 1
  · obtain ⟨hmass, hinertia⟩ := stepsTo_mass hs hacc
    have hfin := (stepsTo_checked hs hacc).1
    have hm' := Binary64.ne_nan_of_isFinite
      (SatState.isFinite_of_mem_toArray hfin (SatState.mass_mem_toArray _))
    -- the new mass equals the old one, which equals the start's
    refine ⟨hinertia.trans hb.inertia, .inl ?_, hsteps⟩
    rcases hb.mass with h | h
    · exact Binary64.beq_trans hm' (Binary64.ne_nan_of_beq_right hmass)
        (Binary64.ne_nan_of_beq_right h) hmass h
    · rwa [← h]
  · have hstate := StepsTo.state_of_not_accepted p tEnd hs hacc
    exact ⟨hstate ▸ hb.inertia, hstate ▸ hb.mass, hsteps⟩

variable (p tEnd) (listen : Option Nat) (interrupt : Option Interrupt)

theorem passes_steady {initial : SatState} {fuel : Nat} {g : Progress}
    (h0 : Steady p initial g) :
    ∀ q ∈ p.passes tEnd listen interrupt fuel g, Steady p initial q.before ∧ Steady p initial q.after :=
  p.passes_invariant tEnd listen interrupt _ (fun _ _ _ hb hh hs => stepsTo_steady hb hh hs) (fun _ => h0)

/-- Where every suggested step is positive, the times the passes of a run end at never go
back. -/
theorem passes_after_time_sorted
    (hnext : ∀ f t y h o, p.integrator.attempt f t y h = .ok o → 0 < o.nextStep)
    {fuel : Nat} {g : Progress} (hstep : 0 < g.step) :
    (p.passes tEnd listen interrupt fuel g).Pairwise
      fun q q' => q.after.state.time ≤ q'.after.state.time := by
  -- each pass starts where the one before it ended, and a step never moves time back
  have hchain : (p.passes tEnd listen interrupt fuel g).IsChain
      fun q q' => q.after.state.time ≤ q'.after.state.time := by
    refine (p.passes_chain tEnd listen interrupt fuel g).imp_of_mem_imp fun q q' _ hq' hrel => ?_
    have hmem := p.mem_passes tEnd listen interrupt hq'
    have hmove := (stepsTo_timeOrdered g.state.time hnext
      (passes_timeOrdered listen interrupt hnext hstep q' hq').1 hmem.1 hmem.2).2
    rwa [hrel.2] at hmove
  rw [← List.pairwise_map (f := fun q : Pass => q.after.state.time),
    ← List.isChain_iff_pairwise, List.isChain_map]
  exact hchain

/-- A pass whose state is at or past the end time is the last of its run. -/
theorem passes_getLast?_of_end {fuel : Nat} {g : Progress} {q : Pass}
    (hq : q ∈ p.passes tEnd listen interrupt fuel g) (hend : q.after.state.time ≥ tEnd) :
    (p.passes tEnd listen interrupt fuel g).getLast? = some q := by
  refine List.getLast?_of_isChain (p.passes_chain tEnd listen interrupt fuel g) hq fun q' hq' hrel => ?_
  -- a pass after it would start before the end time
  have hbefore := (p.halt_eq_none tEnd (p.mem_passes tEnd listen interrupt hq').1).1
  rw [hrel.2] at hbefore
  exact Binary64.not_lt_of_float_le hend hbefore

/-- The states a run accepts, when the method's suggested steps are positive: their times
never go back and lie between the start and the end time; each is finite, within the
position bound, with a normalized quaternion, the mass (as a float equal to it) and the
inertia of the start; only the last can be at or past the end time, and then it is at the end
time; there are at most as many as the step limit; and the observers of each are told that it
is the last exactly when it is not before the end time. -/
theorem acceptedStates_sound {initial : SatState} {observers : List Observer}
    (hinit : 0 < p.integrator.initialStep initial.time tEnd)
    (hnext : ∀ f t y h o, p.integrator.attempt f t y h = .ok o → 0 < o.nextStep) :
    let A := p.acceptedStates tEnd listen initial observers
    (A.map SatState.time).Pairwise (· ≤ ·) ∧
    (∀ s ∈ A, initial.time ≤ s.time ∧ s.time ≤ tEnd ∧ s.isFinite = true ∧
      ¬ s.radius > p.limits.maxPositionNorm ∧ (s.mass == initial.mass) = true ∧
      s.inertia = initial.inertia ∧
      ∃ q, ¬ q.norm < minQuaternionNorm ∧ Quat.normalize q = .ok s.quaternion) ∧
    (∀ s ∈ A, s.time ≥ tEnd → (s.time == tEnd) = true ∧ A.getLast? = some s) ∧
    A.length ≤ p.limits.maxSteps.toNat ∧
    (∀ q ∈ p.runPasses tEnd listen initial observers, q.Accepted →
      noticeEach q.after.state (decide (q.after.state.time ≥ tEnd)) [] q.before.observers
        q.before.stopRequested = (q.after.observers, q.after.stopRequested, q.fault)) := by
  intro A
  rcases ho : p.opening tEnd listen initial observers with _ | ⟨g, _ | e⟩
  -- a run that never reaches its loop accepts nothing
  case none | some.some =>
    have hA : A = [] := by simp [A, acceptedStates, runPasses, ho, after]
    simp [hA, runPasses, ho, after]
  case some.none =>
  have hopen := p.opening_opened tEnd listen ho
  have hR : p.runPasses tEnd listen initial observers =
      p.passes tEnd listen none (p.limits.maxSteps.toNat + 1) g :=
    p.runPasses_eq_passes tEnd listen none ho (by simp)
  have hA : A = (p.passes tEnd listen none (p.limits.maxSteps.toNat + 1) g).filterMap
      Pass.acceptedState := by simp only [A, acceptedStates, hR]
  have hstep : 0 < g.step := by rw [hopen.step]; exact hinit
  have hsteady : ∀ q ∈ p.passes tEnd listen none (p.limits.maxSteps.toNat + 1) g,
      Steady p initial q.before ∧ Steady p initial q.after :=
    passes_steady p tEnd listen none ⟨hopen.inertia, .inr hopen.mass, by rw [hopen.steps]; omega⟩
  have hord : ∀ q ∈ p.passes tEnd listen none (p.limits.maxSteps.toNat + 1) g,
      TimeOrdered tEnd g.state.time q.before ∧ TimeOrdered tEnd g.state.time q.after :=
    passes_timeOrdered listen none hnext hstep
  rw [hopen.time] at hord
  rw [hR, hA]
  refine ⟨?_, fun s hs => ?_, fun s hs hend => ?_, ?_, fun q hq hacc => ?_⟩
  · -- the accepted times are among the times the passes end at
    rw [List.pairwise_map]
    refine (passes_after_time_sorted p tEnd listen none hnext hstep).filterMap _ ?_
    intro q q' hqq' s hs s' hs'
    rw [← (acceptedState_eq_some hs).2, ← (acceptedState_eq_some hs').2]
    exact hqq'
  · obtain ⟨q, hq, hacc, rfl⟩ := mem_filterMap_acceptedState.1 hs
    obtain ⟨⟨-, hle⟩, hstart, -⟩ := (hord q hq).2
    obtain ⟨hfin, hrad, hquat⟩ := stepsTo_checked (p.mem_passes tEnd listen none hq).2 hacc
    have hsteady' := (hsteady q hq).2
    have hmass := Binary64.ne_nan_of_isFinite
      (SatState.isFinite_of_mem_toArray hfin (SatState.mass_mem_toArray _))
    refine ⟨hstart, hle, hfin, hrad, ?_, hsteady'.inertia, hquat⟩
    rcases hsteady'.mass with h | h
    · exact h
    · rw [← h]
      exact Binary64.beq_of_le_of_le (Binary64.le_refl_of_ne_nan hmass)
        (Binary64.le_refl_of_ne_nan hmass)
  · obtain ⟨q, hq, hacc, rfl⟩ := mem_filterMap_acceptedState.1 hs
    exact ⟨Binary64.beq_of_le_of_le (hord q hq).2.1.2 hend,
      getLast?_filterMap_acceptedState (passes_getLast?_of_end p tEnd listen none hq hend) hacc⟩
  · -- as many states as steps, and the steps stay within the limit
    have hlen := p.ending_steps tEnd listen none ho
    rw [acceptedStates, hR] at hlen
    rw [← hlen]
    simp only [openingEnding, (p.after_opening tEnd listen none ho).2 ⟨rfl, by simp⟩]
    rw [loop_progress]
    rcases hl : (p.passes tEnd listen none (p.limits.maxSteps.toNat + 1) g).getLast? with _ | q
    · simp [hopen.steps]
    · exact (hsteady q (List.mem_of_getLast? hl)).2.steps
  · exact stepsTo_notice (p.mem_passes tEnd listen none hq).2 hacc

/-- The sample run of two fixed steps has positive steps, and its accepted states are as
`acceptedStates_sound` says. -/
theorem sample_run_accepted :
    0 < samplePropagator.integrator.initialStep sampleState.time 1.0 ∧
    (∀ f t y h o, samplePropagator.integrator.attempt f t y h = .ok o → 0 < o.nextStep) ∧
    let A := samplePropagator.acceptedStates 1.0 none sampleState []
    (A.map SatState.time).Pairwise (· ≤ ·) ∧
    (∀ s ∈ A, sampleState.time ≤ s.time ∧ s.time ≤ 1.0 ∧ s.isFinite = true ∧
      ¬ s.radius > samplePropagator.limits.maxPositionNorm ∧
      (s.mass == sampleState.mass) = true ∧ s.inertia = sampleState.inertia ∧
      ∃ q, ¬ q.norm < minQuaternionNorm ∧ Quat.normalize q = .ok s.quaternion) ∧
    (∀ s ∈ A, s.time ≥ 1.0 → (s.time == 1.0) = true ∧ A.getLast? = some s) ∧
    A.length ≤ samplePropagator.limits.maxSteps.toNat ∧
    (∀ q ∈ samplePropagator.runPasses 1.0 none sampleState [], q.Accepted →
      noticeEach q.after.state (decide (q.after.state.time ≥ 1.0)) [] q.before.observers
        q.before.stopRequested = (q.after.observers, q.after.stopRequested, q.fault)) := by
  have hinit : 0 < samplePropagator.integrator.initialStep sampleState.time 1.0 := by decide
  have hnext : ∀ f t y h o, samplePropagator.integrator.attempt f t y h = .ok o →
      0 < o.nextStep := by
    intro f t y h o ha
    rw [Integrator.rungeKutta_nextStep ha]
    decide
  exact ⟨hinit, hnext, acceptedStates_sound samplePropagator 1.0 none hinit hnext⟩

/-- The sample start at time `10¹⁷`, where a half-second step is lost to rounding. -/
def absorbedState : SatState := { sampleState with time := 1.0e17 }

/-- Fixed steps of half a second, at most two of them. -/
def absorbedPropagator : Propagator := { samplePropagator with limits := { maxSteps := 2 } }

/-- The sample start tumbling at `10²⁰⁰` rad/s about its first principal axis. -/
def tumblingState : SatState := { sampleState with angularVelocity := ⟨1.0e200, 0.0, 0.0⟩ }

/-- Accepted states that are not what a run's steps are meant to give. Half-second steps from
`10¹⁷` towards an end time 32 s later accept two states, both at the start time. Normalizing
the attitude `(10²⁰⁰, 0, 0, 0)` divides it by its length, which overflows to infinity, and
gives the zero quaternion; one half-second step of the tumbling sample integrates such a
quaternion, and the checks let the state with a zero quaternion through. -/
theorem accepted_states_repeat_time_and_lose_attitude :
    (absorbedPropagator.acceptedStates (1.0e17 + 32.0) none absorbedState []).map
        (fun s => s.time == absorbedState.time) = [true, true] ∧
      (Quat.normalize ⟨1.0e200, 0.0, 0.0, 0.0⟩).toOption.map Quat.toList =
        some [0.0, 0.0, 0.0, 0.0] ∧
      (samplePropagator.acceptedStates 0.5 none tumblingState []).map (·.quaternion.toList) =
        [[0.0, 0.0, 0.0, 0.0]] := by
  decide +kernel

end Propagator

end Spacecraft
