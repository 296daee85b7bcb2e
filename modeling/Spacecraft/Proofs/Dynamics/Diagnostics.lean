import Mathlib
import Spacecraft.Proofs.Control.Frame
import Spacecraft.Dynamics.Model

/-!
# Asking the dynamics for their values outside a run

The forces, the torques and the state derivative can be asked for at any time and state, with
the control memory of a run or without it (`DynamicsModel.contributionsAt`, `totalForce`,
`computeDerivative`). Given the memory, such a call answers as the run's own derivative does
and changes nothing (`runFrom_contributionsAt_some`, `runFrom_computeDerivative_some`).

Without it, a law first sets up the memory that a run starting at that state would have, and
so the call leaves the model exactly as setting up a run's control memory does
(`snd_runFrom_contributionsAt_none`). That moves at most the sensor of the law's first phase,
by one reading (`snd_runFrom_initialControl`), and nothing at all when the first phase does not
estimate. A magnetometer-driven first phase does draw: asking such a model for its total force
changes it (`total_force_draws_magnetometer`).
-/

namespace Spacecraft

open Tracked

namespace FieldRateSensing

/-- A first estimate draws one reading from the magnetometer and changes nothing else. -/
theorem snd_runFrom_initialEstimate (t : Float) (s : SatState) (r : FieldRateSensing) :
    (runFrom (initialEstimate t s) r).2 =
      match r.magnetometer.gen.uniform3 (-r.magnetometer.noise) r.magnetometer.noise with
      | .ok (_, gen) => { r with magnetometer := { r.magnetometer with gen } }
      | .error _ => r := by
  simp only [initialEstimate, snd_runFrom_bind_pure, sample, runFrom_get_bind, runFrom_focus,
    Sensor.runFrom_read]
  rcases r.magnetometer.gen.uniform3 (-r.magnetometer.noise) r.magnetometer.noise with
    e | ⟨noise, gen⟩ <;> rfl

end FieldRateSensing

namespace Policy

/-- A policy that does not estimate sets up no sensor memory and stays as it is. -/
theorem runFrom_initialEstimate_of_not_estimating {p : Policy} (hp : p.isEstimating = false)
    (t : Float) (s : SatState) : runFrom (initialEstimate t s) p = (.ok none, p) := by
  cases p with
  | sensedBdot r => simp [isEstimating] at hp
  | _ => rfl

end Policy

namespace TorqueLaw

/-- Whether the first phase of a law estimates, and so reads its sensor when a run starts. -/
def drawsAtStart (law : TorqueLaw) : Bool := law.phases.head?.any (·.policy.isEstimating)

/-- The policy that a computation on phase `i` works on. -/
theorem policy_getD_zero (law : TorqueLaw) :
    (law.phases[0]?.map Phase.policy).getD Policy.zero = (law.phases.head?.map Phase.policy).getD Policy.zero := by
  rw [List.head?_eq_getElem?]

/-- A computation on the policy of a phase that leaves the policy as it was leaves the law as
it was. -/
theorem runFrom_onPhase_of_fixed {α : Type} (i : Nat) {m : Tracked Policy α} {law : TorqueLaw}
    {o : Outcome α}
    (h : runFrom m ((law.phases[i]?.map Phase.policy).getD Policy.zero) =
      (o, (law.phases[i]?.map Phase.policy).getD Policy.zero)) :
    runFrom (onPhase i m) law = (o, law) := by
  simp only [onPhase, runFrom_focus, h, Prod.mk.injEq, true_and]
  have hphases : (law.phases.mapIdx fun j ph =>
      if j = i then { ph with policy := (law.phases[i]?.map Phase.policy).getD Policy.zero }
      else ph) =
      law.phases := by
    rw [List.mapIdx_eq_iff]
    intro j
    cases hj : law.phases[j]? with
    | none => rfl
    | some ph =>
      by_cases hji : j = i
      · subst hji
        simp [hj]
      · simp [hji]
  rw [hphases]

/-- The first estimate of a phase that does not estimate changes nothing. -/
theorem runFrom_estimateAt_of_not_estimating {i : Nat} {s : SatState} {law : TorqueLaw}
    (h : ((law.phases[i]?.map Phase.policy).getD Policy.zero).isEstimating = false) :
    runFrom (estimateAt i s) law = (.ok none, law) :=
  runFrom_onPhase_of_fixed i (Policy.runFrom_initialEstimate_of_not_estimating h s.time s)

/-- The first estimate of a magnetometer-driven phase draws from its magnetometer. -/
theorem snd_runFrom_estimateAt_sensing {i : Nat} {s : SatState} {law : TorqueLaw}
    {name : String} {r : FieldRateSensing} (h : law.phases[i]? = some ⟨name, .sensedBdot r⟩) :
    (runFrom (estimateAt i s) law).2 =
      { law with
        phases := law.phases.set i
          ⟨name, .sensedBdot (runFrom (FieldRateSensing.initialEstimate s.time s) r).2⟩ } := by
  simp only [estimateAt, onPhase, runFrom_focus, h, Option.map_some, Option.getD_some,
    Policy.initialEstimate, runFrom_get_bind, snd_runFrom_map]
  congr 1
  apply List.ext_getElem?
  intro j
  rw [List.getElem?_mapIdx, List.getElem?_set]
  by_cases hji : j = i
  · subst hji
    have hj : j < law.phases.length := (List.getElem?_eq_some_iff.1 h).1
    rw [h]
    simp [hj]
  · simp [hji, Ne.symm hji]

/-- Setting up the law state of a run moves the law as the first estimate does, unless the
guidance fails to start first. -/
theorem snd_runFrom_initialState (s : SatState) (law : TorqueLaw) :
    (runFrom (initialState s) law).2 =
      match law.guidance.map (·.initialMemory (some s)) with
      | some (.error _) => law
      | _ => (runFrom (estimateAt 0 s) law).2 := by
  simp only [initialState, runFrom_get_bind]
  rcases hg : law.guidance with _ | g
  · simp only [Option.map_none, pure_bind, snd_runFrom_bind_pure]
  · rcases hm : g.initialMemory (some s) with e | memory
    · simp only [runFrom_bind, runFrom_map, runFrom_lift, hm, Option.map_some]
      rfl
    · simp only [runFrom_bind, runFrom_map, runFrom_lift, hm, Option.map_some, Except.map]
      rw [← runFrom_bind, snd_runFrom_bind_pure]

end TorqueLaw

namespace DynamicsModel

/-- Whether starting a run reads a sensor: the model's law has an estimating first phase. -/
def drawsAtStart (m : DynamicsModel) : Bool := m.law.any TorqueLaw.drawsAtStart

theorem runFrom_initialControl (s : SatState) (m : DynamicsModel) :
    runFrom (initialControl s) m =
      match m.law with
      | none => (.ok none, m)
      | some law => ((runFrom (TorqueLaw.initialState s) law).1.map some,
          { m with law := some (runFrom (TorqueLaw.initialState s) law).2 }) := by
  rcases hl : m.law with _ | law <;>
    simp [initialControl, hl, onLaw, runFrom_map]

/-- Setting up the control memory of a run moves at most the sensor of the law's first phase,
by one reading. -/
theorem snd_runFrom_initialControl (s : SatState) (m : DynamicsModel) :
    (runFrom (initialControl s) m).2 = m ∨
      (runFrom (initialControl s) m).2 =
        { m with law := m.law.map fun law => (runFrom (TorqueLaw.estimateAt 0 s) law).2 } := by
  obtain ⟨body, forces, torques, law, executor⟩ := m
  rw [runFrom_initialControl]
  rcases law with _ | law
  · exact .inl rfl
  · dsimp only
    rw [TorqueLaw.snd_runFrom_initialState]
    split
    · exact .inl rfl
    · exact .inr rfl

/-- Without an estimating first phase, setting up the control memory of a run changes
nothing. -/
theorem snd_runFrom_initialControl_of_not_drawing {m : DynamicsModel}
    (h : m.drawsAtStart = false) (s : SatState) : (runFrom (initialControl s) m).2 = m := by
  rcases snd_runFrom_initialControl s m with hc | hc
  · exact hc
  rw [hc]
  obtain ⟨body, forces, torques, _ | law, executor⟩ := m
  · rfl
  have hlaw : law.drawsAtStart = false := h
  have hpolicy : ((law.phases[0]?.map Phase.policy).getD Policy.zero).isEstimating = false := by
    rw [TorqueLaw.policy_getD_zero]
    cases hp : law.phases.head? with
    | none => rfl
    | some ph => simpa [TorqueLaw.drawsAtStart, hp] using hlaw
  simp only [Option.map_some, TorqueLaw.runFrom_estimateAt_of_not_estimating hpolicy]

/-- Given the control memory, the values asked for are the run's own, and nothing moves. -/
theorem runFrom_contributionsAt_some (t : Float) (s : SatState) (ls : LawState)
    (m : DynamicsModel) : runFrom (contributionsAt t s (some ls)) m = (m.contributions t s ls, m) := by
  obtain ⟨body, fs, ts, law, executor⟩ := m
  simp only [contributionsAt, contributions, runFrom_get_bind, runFrom_lift_bind]
  rcases openLoop _ t s with e | ⟨forces, torques⟩
  · rfl
  · rcases law with _ | law <;> rfl

/-- Without the control memory, the model is left as setting up a run's control memory leaves
it, once the forces and open-loop torques have been found. -/
theorem snd_runFrom_contributionsAt_none (t : Float) (s : SatState) (m : DynamicsModel) :
    (runFrom (contributionsAt t s none) m).2 =
      if (m.openLoop t s).isOk then (runFrom (initialControl s) m).2 else m := by
  simp only [contributionsAt, runFrom_get_bind, runFrom_lift_bind]
  rcases m.openLoop t s with e | ⟨forces, torques⟩
  · rfl
  · simp only [Except.isOk, Except.toBool, if_true]
    rw [runFrom_bind]
    rcases runFrom (initialControl s) m with ⟨_ | c, m'⟩
    · rfl
    · dsimp only
      rw [runFrom_get_bind]
      split <;> rfl

theorem snd_runFrom_totalForce (t : Float) (s : SatState) (m : DynamicsModel) :
    (runFrom (totalForce t s) m).2 = (runFrom (contributionsAt t s none) m).2 := by
  simp only [totalForce, runFrom_bind]
  rcases runFrom (contributionsAt t s none) m with ⟨_ | ⟨forces, torques⟩, m'⟩ <;> rfl

theorem snd_runFrom_computeDerivative (t : Float) (s : SatState) (c : Option LawState)
    (m : DynamicsModel) :
    (runFrom (computeDerivative t s c) m).2 = (runFrom (contributionsAt t s c) m).2 := by
  simp only [computeDerivative, runFrom_bind]
  rcases runFrom (contributionsAt t s c) m with ⟨_ | ⟨forces, torques⟩, m'⟩ <;> rfl

/-- Given the control memory, the derivative asked for is the run's own, and nothing moves. -/
theorem runFrom_computeDerivative_some (t : Float) (s : SatState) (ls : LawState)
    (m : DynamicsModel) :
    runFrom (computeDerivative t s (some ls)) m = (m.derivative t s ls, m) := by
  simp only [computeDerivative, derivative, runFrom_bind, runFrom_contributionsAt_some]
  rcases m.contributions t s ls with e | ⟨forces, torques⟩ <;> rfl

/-- Without an estimating first phase, no call moves the model. -/
theorem snd_runFrom_contributionsAt_of_not_drawing {m : DynamicsModel}
    (h : m.drawsAtStart = false) (t : Float) (s : SatState) (c : Option LawState) :
    (runFrom (contributionsAt t s c) m).2 = m := by
  cases c with
  | some ls => rw [runFrom_contributionsAt_some]
  | none =>
    rw [snd_runFrom_contributionsAt_none, snd_runFrom_initialControl_of_not_drawing h, ite_self]

/-- The law adds its torque to the open-loop torques and leaves the forces alone. -/
theorem contributions_forces {m : DynamicsModel} {t : Float} {s : SatState} {c : LawState}
    {F T : List Contribution} (h : m.contributions t s c = .ok (F, T)) :
    ∃ T', m.openLoop t s = .ok (F, T') := by
  unfold contributions at h
  obtain ⟨⟨F', T'⟩, hol, h⟩ := Outcome.bind_eq_ok h
  refine ⟨T', ?_⟩
  rcases hl : m.law with _ | law <;> simp only [hl] at h
  · obtain ⟨rfl, -⟩ := Prod.mk.inj (Except.ok.inj h)
    exact hol
  · obtain ⟨_, _, h⟩ := Outcome.bind_eq_ok h
    obtain ⟨_, _, h⟩ := Outcome.bind_eq_ok h
    obtain ⟨rfl, -⟩ := Prod.mk.inj (Except.ok.inj h)
    exact hol

/-- A derivative moves the position with the velocity and the velocity with the total force
over the mass, and leaves the mass. -/
theorem derivative_eq_ok {m : DynamicsModel} {t : Float} {s : SatState} {c : LawState}
    {r : StateRate} (h : m.derivative t s c = .ok r) :
    ∃ F T, m.openLoop t s = .ok (F, T) ∧ r.position = s.velocity ∧
      r.velocity = RigidBody.translational (Contribution.total F) s.mass ∧ r.mass = 0.0 := by
  unfold derivative at h
  obtain ⟨⟨F, T'⟩, hc, h⟩ := Outcome.bind_eq_ok h
  obtain ⟨T, hol⟩ := contributions_forces hc
  obtain ⟨_, _, h⟩ := Outcome.bind_eq_ok h
  cases Except.ok.inj h
  exact ⟨F, T, hol, rfl, rfl, rfl⟩

/-- What asking the dynamics for their values does to them. Given the control memory of a run,
the contributions and the derivative are the run's own and the model stays as it was. Without
it, each of the three calls leaves the model as setting up the control memory of a run starting
at the state does, once the forces and open-loop torques have been found: that moves at most
the sensor of the law's first phase, by its first estimate, and nothing when that phase does
not estimate. -/
theorem diagnostic_calls_frame (m : DynamicsModel) (t : Float) (s : SatState) :
    (∀ ls, runFrom (contributionsAt t s (some ls)) m = (m.contributions t s ls, m) ∧
      runFrom (computeDerivative t s (some ls)) m = (m.derivative t s ls, m)) ∧
    (∀ c, (runFrom (computeDerivative t s c) m).2 = (runFrom (contributionsAt t s c) m).2) ∧
    (runFrom (totalForce t s) m).2 = (runFrom (contributionsAt t s none) m).2 ∧
    (runFrom (contributionsAt t s none) m).2 =
      (if (m.openLoop t s).isOk then (runFrom (initialControl s) m).2 else m) ∧
    ((runFrom (initialControl s) m).2 = m ∨
      (runFrom (initialControl s) m).2 =
        { m with law := m.law.map fun law => (runFrom (TorqueLaw.estimateAt 0 s) law).2 }) ∧
    (m.drawsAtStart = false → ∀ c, (runFrom (contributionsAt t s c) m).2 = m) :=
  ⟨fun ls => ⟨runFrom_contributionsAt_some t s ls m, runFrom_computeDerivative_some t s ls m⟩,
    fun c => snd_runFrom_computeDerivative t s c m, snd_runFrom_totalForce t s m,
    snd_runFrom_contributionsAt_none t s m, snd_runFrom_initialControl s m,
    fun h => snd_runFrom_contributionsAt_of_not_drawing h t s⟩

/-- The magnetometer-driven detumbler of the default environment, sampling at every step, its
magnetometer of half-width `10⁻⁷` T seeded with 0. -/
def seededDetumbling : FieldRateSensing :=
  { magnetometer := ⟨1.0e-7, 0, Pcg.ofSeed 0⟩, environment := default, samplePeriod := 0.0 }

/-- A model whose only law is the seeded detumbler. -/
def seededDetumbler : DynamicsModel :=
  { body := default,
    law := some { phases := [⟨"detumble", .sensedBdot seededDetumbling⟩], name := "detumble" } }

/-- Asking the seeded detumbler for its total force moves its magnetometer on. -/
theorem total_force_draws_magnetometer :
    (runFrom (totalForce 0.0 default) seededDetumbler).2 ≠ seededDetumbler := by
  have hdraw : (match (Pcg.ofSeed 0).uniform3 (-1.0e-7) 1.0e-7 with
      | .ok (_, gen) => gen.state != (Pcg.ofSeed 0).state
      | .error _ => false) = true := by decide +kernel
  have hopen : (seededDetumbler.openLoop 0.0 default).isOk = true := rfl
  intro h
  have hlaw := congrArg DynamicsModel.law h
  rw [snd_runFrom_totalForce, snd_runFrom_contributionsAt_none, if_pos hopen,
    runFrom_initialControl] at hlaw
  simp only [seededDetumbler, TorqueLaw.snd_runFrom_initialState, Option.map_none] at hlaw
  rw [TorqueLaw.snd_runFrom_estimateAt_sensing rfl,
    FieldRateSensing.snd_runFrom_initialEstimate] at hlaw
  simp only [seededDetumbling] at hlaw hdraw
  rcases hu : (Pcg.ofSeed 0).uniform3 (-1.0e-7) 1.0e-7 with e | ⟨noise, gen⟩
  · simp [hu] at hdraw
  · simp [hu] at hlaw hdraw
    exact hdraw (congrArg Pcg.state hlaw)

end DynamicsModel

end Spacecraft
