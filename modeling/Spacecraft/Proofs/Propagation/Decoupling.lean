import Mathlib
import Spacecraft.Proofs.Dynamics.Refusal
import Spacecraft.Proofs.Propagation.Report

/-!
# The orbit does not feel the attitude

Every force model reads the time, the position, the velocity and the mass of the satellite and
nothing of its attitude or spin, and the rates of the position and the velocity are the velocity
and the total force over the mass. So the first six rates of a flat state and its mass rate
depend only on its first six entries and its mass (`rate_sameMotion`), and every stage of the
fourth-order Runge–Kutta method keeps that (`attempt_sameMotion`). The fixed-step method takes
the step a run asks for whatever the attitude does (`trials_rungeKutta`), so a step from two
progresses at the same point of the orbit ends at the same point again (`stepsTo_sameOrbit`).

Two completed runs of the fixed-step method with the same step, forces and body, from the same
time, position, velocity and mass to the same end time, therefore accept states at the same
times, positions and velocities, however their attitudes, spins, torques and torque laws
differ (`rungeKutta_orbit_ignores_attitude`). The adaptive method has no such property: its
error norm mixes all fourteen entries.
-/

namespace Spacecraft

theorem Vec3.toList_injective : Function.Injective Vec3.toList := by
  rintro ⟨a, b, c⟩ ⟨a', b', c'⟩ h
  simp only [Vec3.toList, List.cons.injEq, and_true] at h
  obtain ⟨rfl, rfl, rfl⟩ := h
  rfl

/-! ### Flat states with the same motion -/

namespace FlatState

/-- Two flat states with the same position, velocity and mass entries. -/
def SameMotion (y₁ y₂ : List Float) : Prop := y₁.take 6 = y₂.take 6 ∧ y₁[13]? = y₂[13]?

variable {y₁ y₂ d₁ d₂ : List Float}

theorem SameMotion.zipWith {f : Float → Float → Float} (hy : SameMotion y₁ y₂)
    (hd : SameMotion d₁ d₂) : SameMotion (List.zipWith f y₁ d₁) (List.zipWith f y₂ d₂) := by
  refine ⟨?_, ?_⟩
  · rw [List.take_zipWith, List.take_zipWith, hy.1, hd.1]
  · rw [List.getElem?_zipWith, List.getElem?_zipWith, hy.2, hd.2]

theorem SameMotion.map (g : Float → Float) (hy : SameMotion y₁ y₂) :
    SameMotion (y₁.map g) (y₂.map g) := by
  refine ⟨?_, ?_⟩
  · rw [← List.map_take, ← List.map_take, hy.1]
  · rw [List.getElem?_map, List.getElem?_map, hy.2]

theorem SameMotion.addScaled (a : Float) (hy : SameMotion y₁ y₂) (hd : SameMotion d₁ d₂) :
    SameMotion (addScaled y₁ a d₁) (addScaled y₂ a d₂) :=
  hy.zipWith hd

end FlatState

open FlatState

theorem SatState.sameMotion_toArray {s₁ s₂ : SatState} (hp : s₁.position = s₂.position)
    (hv : s₁.velocity = s₂.velocity) (hm : s₁.mass = s₂.mass) :
    SameMotion s₁.toArray s₂.toArray := by
  refine ⟨?_, ?_⟩ <;> simp [SatState.toArray, Vec3.toList, Quat.toList, hp, hv, hm]

theorem StateRate.sameMotion_toArray {r₁ r₂ : StateRate} (hp : r₁.position = r₂.position)
    (hv : r₁.velocity = r₂.velocity) (hm : r₁.mass = r₂.mass) :
    SameMotion r₁.toArray r₂.toArray := by
  refine ⟨?_, ?_⟩ <;> simp [StateRate.toArray, Vec3.toList, Quat.toList, hp, hv, hm]

/-- States rebuilt from flat states with the same motion have the same position, velocity and
mass. -/
theorem SatState.Rebuilt.sameMotion {y₁ y₂ : List Float} {I₁ I₂ : Mat3} {t₁ t₂ : Float}
    {s₁ s₂ : SatState} (hy : SameMotion y₁ y₂) (h₁ : Rebuilt y₁ I₁ t₁ s₁)
    (h₂ : Rebuilt y₂ I₂ t₂ s₂) :
    s₁.position = s₂.position ∧ s₁.velocity = s₂.velocity ∧ s₁.mass = s₂.mass := by
  have hp : y₁.take 3 = y₂.take 3 := by
    simpa [List.take_take] using congrArg (List.take 3) hy.1
  have hv : (y₁.drop 3).take 3 = (y₂.drop 3).take 3 := by
    simpa [List.drop_take] using congrArg (List.drop 3) hy.1
  refine ⟨Vec3.toList_injective ?_, Vec3.toList_injective ?_, Option.some_injective _ ?_⟩
  · rw [h₁.position, h₂.position, hp]
  · rw [h₁.velocity, h₂.velocity, hv]
  · rw [← h₁.mass, ← h₂.mass, hy.2]

/-! ### The rate of the motion -/

/-- A force reads the position, the velocity and the mass of the state, and nothing else of it. -/
theorem ForceModel.force_congr (f : ForceModel) (t : Float) (b : Body) {s₁ s₂ : SatState}
    (hp : s₁.position = s₂.position) (hv : s₁.velocity = s₂.velocity) (hm : s₁.mass = s₂.mass) :
    f.force t s₁ b = f.force t s₂ b := by
  cases f with
  | thirdBody body epoch => cases body <;> simp [ForceModel.force, hp, hm]
  | _ => simp [ForceModel.force, ForceModel.relativeVelocity, hp, hv, hm]

namespace DynamicsModel

/-- Two models with the same forces and body find the same force contributions at two states
with the same position, velocity and mass. -/
theorem openLoop_forces {m₁ m₂ : DynamicsModel} (hf : m₁.forces = m₂.forces)
    (hb : m₁.body = m₂.body) {t : Float} {s₁ s₂ : SatState} (hp : s₁.position = s₂.position)
    (hv : s₁.velocity = s₂.velocity) (hm : s₁.mass = s₂.mass)
    {F₁ T₁ F₂ T₂ : List Contribution} (h₁ : m₁.openLoop t s₁ = .ok (F₁, T₁))
    (h₂ : m₂.openLoop t s₂ = .ok (F₂, T₂)) : F₁ = F₂ := by
  have hvalues : m₁.forces.mapM (fun f => f.force t s₁ m₁.body) =
      m₂.forces.mapM (fun f => f.force t s₂ m₂.body) := by
    rw [hf, hb]
    congr 1
    funext f
    exact f.force_congr t _ hp hv hm
  unfold openLoop at h₁ h₂
  rw [evaluate_eq_mapM] at h₁ h₂
  obtain ⟨vs₁, hvs₁, h₁⟩ := Outcome.bind_eq_ok h₁
  obtain ⟨vs₂, hvs₂, h₂⟩ := Outcome.bind_eq_ok h₂
  have hvs : vs₁ = vs₂ := Except.ok.inj (hvs₁.symm.trans (hvalues.trans hvs₂))
  subst hvs
  obtain ⟨G₁, hG₁, h₁⟩ := Outcome.bind_eq_ok h₁
  obtain ⟨G₂, hG₂, h₂⟩ := Outcome.bind_eq_ok h₂
  -- the torques that follow leave the forces as they were found
  obtain ⟨_, _, h₁⟩ := Outcome.bind_eq_ok h₁
  obtain ⟨_, _, h₂⟩ := Outcome.bind_eq_ok h₂
  obtain ⟨_, _, h₁⟩ := Outcome.bind_eq_ok h₁
  obtain ⟨_, _, h₂⟩ := Outcome.bind_eq_ok h₂
  obtain ⟨rfl, -⟩ := Prod.mk.inj (Except.ok.inj h₁)
  obtain ⟨rfl, -⟩ := Prod.mk.inj (Except.ok.inj h₂)
  rw [hf] at hG₁
  exact Except.ok.inj (hG₁.symm.trans hG₂)

end DynamicsModel

/-- The rates of a run's state equation at flat states with the same motion have the same
motion, whatever the attitude, spin, inertia, torques and law of the two. -/
theorem rate_sameMotion {d₁ d₂ : DynamicsModel} (hf : d₁.forces = d₂.forces)
    (hb : d₁.body = d₂.body) {I₁ I₂ : Mat3} {c₁ c₂ : Option LawState} {t : Float}
    {y₁ y₂ k₁ k₂ : List Float} (hy : SameMotion y₁ y₂)
    (h₁ : Propagator.rate d₁ I₁ c₁ t y₁ = .ok k₁) (h₂ : Propagator.rate d₂ I₂ c₂ t y₂ = .ok k₂) :
    SameMotion k₁ k₂ := by
  obtain ⟨s₁, hs₁, h₁⟩ := Outcome.bind_eq_ok h₁
  obtain ⟨s₂, hs₂, h₂⟩ := Outcome.bind_eq_ok h₂
  obtain ⟨r₁, hr₁, h₁⟩ := Outcome.bind_eq_ok h₁
  obtain ⟨r₂, hr₂, h₂⟩ := Outcome.bind_eq_ok h₂
  cases h₁
  cases h₂
  obtain ⟨hp, hv, hm⟩ :=
    (SatState.ofFlat_rebuilt hs₁).sameMotion hy (SatState.ofFlat_rebuilt hs₂)
  obtain ⟨F₁, T₁, ho₁, hp₁, hv₁, hm₁⟩ := DynamicsModel.derivative_eq_ok hr₁
  obtain ⟨F₂, T₂, ho₂, hp₂, hv₂, hm₂⟩ := DynamicsModel.derivative_eq_ok hr₂
  have hF := DynamicsModel.openLoop_forces hf hb hp hv hm ho₁ ho₂
  apply StateRate.sameMotion_toArray
  · rw [hp₁, hp₂, hv]
  · rw [hv₁, hv₂, hF, hm]
  · rw [hm₁, hm₂]

namespace Integrator

/-- A trial of the fixed-step method from flat states with the same motion, with rate functions
that keep the motion, ends at flat states with the same motion. -/
theorem attempt_sameMotion {f₁ f₂ : RateFunction}
    (hf : ∀ t y₁ y₂ k₁ k₂, SameMotion y₁ y₂ → f₁ t y₁ = .ok k₁ → f₂ t y₂ = .ok k₂ →
      SameMotion k₁ k₂)
    {stepSize t h : Float} {y₁ y₂ : List Float} {o₁ o₂ : StepOutcome} (hy : SameMotion y₁ y₂)
    (h₁ : (rungeKutta stepSize).attempt f₁ t y₁ h = .ok o₁)
    (h₂ : (rungeKutta stepSize).attempt f₂ t y₂ h = .ok o₂) :
    SameMotion o₁.state o₂.state ∧ o₁.nextStep = o₂.nextStep := by
  unfold attempt at h₁ h₂
  obtain ⟨a₁, ha₁, h₁⟩ := Outcome.bind_eq_ok h₁
  obtain ⟨a₂, ha₂, h₂⟩ := Outcome.bind_eq_ok h₂
  have hk₁ := hf _ _ _ _ _ hy ha₁ ha₂
  obtain ⟨b₁, hb₁, h₁⟩ := Outcome.bind_eq_ok h₁
  obtain ⟨b₂, hb₂, h₂⟩ := Outcome.bind_eq_ok h₂
  have hk₂ := hf _ _ _ _ _ (hy.addScaled _ hk₁) hb₁ hb₂
  obtain ⟨c₁, hc₁, h₁⟩ := Outcome.bind_eq_ok h₁
  obtain ⟨c₂, hc₂, h₂⟩ := Outcome.bind_eq_ok h₂
  have hk₃ := hf _ _ _ _ _ (hy.addScaled _ hk₂) hc₁ hc₂
  obtain ⟨e₁, he₁, h₁⟩ := Outcome.bind_eq_ok h₁
  obtain ⟨e₂, he₂, h₂⟩ := Outcome.bind_eq_ok h₂
  have hk₄ := hf _ _ _ _ _ (hy.addScaled _ hk₃) he₁ he₂
  cases h₁
  cases h₂
  -- the weighted sum of the four stage rates keeps the motion entry by entry
  exact ⟨hy.addScaled _ (((hk₁.zipWith (hk₂.map _)).zipWith (hk₃.map _)).zipWith hk₄), rfl⟩

end Integrator

/-! ### What a run keeps of its orbit -/

namespace SatState

/-- The time, position and velocity of a state: its point on the orbit. -/
def motion (s : SatState) : Float × Vec3 × Vec3 := (s.time, s.position, s.velocity)

/-- A copy keeps the position and the velocity. -/
theorem copy_motion {s s' : SatState} (h : s.copy = .ok s') :
    s'.position = s.position ∧ s'.velocity = s.velocity := by
  unfold SatState.copy SatState.ofParts at h
  dsimp only at h
  split at h
  · obtain ⟨_, -, h⟩ := Outcome.bind_eq_ok h
    cases h
    exact ⟨rfl, rfl⟩
  · cases h
    exact ⟨rfl, rfl⟩

end SatState

namespace DynamicsModel

/-- Restarting the models keeps the forces and the body. -/
theorem reset_forces {m m' : DynamicsModel} (h : m.reset = .ok m') :
    m'.forces = m.forces ∧ m'.body = m.body := by
  unfold reset at h
  obtain ⟨_, _, h⟩ := Outcome.bind_eq_ok h
  cases Except.ok.inj h
  exact ⟨rfl, rfl⟩

/-- A computation on the law keeps the forces and the body. -/
theorem keeps_forces_onLaw {α : Type} (m : Tracked TorqueLaw α) :
    Tracked.Keeps (fun d : DynamicsModel => (d.forces, d.body)) (onLaw m) :=
  fun _ => rfl

/-- Setting up the control memory works on the law alone. -/
theorem keeps_forces_initialControl (s : SatState) :
    Tracked.Keeps (fun m : DynamicsModel => (m.forces, m.body)) (initialControl s) := by
  unfold initialControl
  refine Tracked.keeps_get_bind fun m => ?_
  split
  · rfl
  · exact (keeps_forces_onLaw _).map _ m

/-- Moving on after a step works on the torque models and the law alone. -/
theorem keeps_forces_advance (t : Float) (s : SatState) (c : Option LawState) :
    Tracked.Keeps (fun m : DynamicsModel => (m.forces, m.body)) (advance t s c) := by
  unfold advance
  refine Tracked.keeps_get_bind fun m => ?_
  refine Tracked.keepsAt_lift_bind (f := fun m : DynamicsModel => (m.forces, m.body))
    fun torques => ?_
  refine Tracked.keepsAt_bind (f := fun m : DynamicsModel => (m.forces, m.body)) rfl fun _ => ?_
  split
  · exact (keeps_forces_onLaw _).map _
  · exact Tracked.keeps_pure _

end DynamicsModel

namespace Propagator

/-- Two progresses at the same point of the orbit: the same time, position, velocity and mass,
the same next step, and dynamics with the same forces and body. -/
structure SameOrbit (g₁ g₂ : Progress) : Prop where
  time : g₁.state.time = g₂.state.time
  position : g₁.state.position = g₂.state.position
  velocity : g₁.state.velocity = g₂.state.velocity
  mass : g₁.state.mass = g₂.state.mass
  step : g₁.step = g₂.step
  forces : g₁.dynamics.forces = g₂.dynamics.forces
  body : g₁.dynamics.body = g₂.dynamics.body

variable {p₁ p₂ : Propagator} {stepSize tEnd : Float}

/-- An accepted step of the fixed-step method from two progresses at the same point of the
orbit ends at the same point again. -/
theorem stepsTo_sameOrbit (hi₁ : p₁.integrator = .rungeKutta stepSize)
    (hi₂ : p₂.integrator = .rungeKutta stepSize) {g₁ g₂ g₁' g₂' : Progress}
    (hg : SameOrbit g₁ g₂) (hs₁ : StepsTo p₁ tEnd g₁ g₁' none)
    (hs₂ : StepsTo p₂ tEnd g₂ g₂' none) : SameOrbit g₁' g₂' := by
  cases hs₁ with
  | accepted ht₁ hr₁ ha₁ =>
  cases hs₂ with
  | accepted ht₂ hr₂ ha₂ =>
  have hfirst : firstTrial tEnd g₁ = firstTrial tEnd g₂ := by
    simp only [firstTrial, hg.time, hg.step]
  -- both steps are the first trial, of the same size from the same time
  rw [trials_rungeKutta hi₁] at ht₁
  rw [trials_rungeKutta hi₂] at ht₂
  obtain ⟨o₁, hat₁, ho₁⟩ := Outcome.map_eq_ok ht₁
  obtain ⟨o₂, hat₂, ho₂⟩ := Outcome.map_eq_ok ht₂
  cases ho₁
  cases ho₂
  rw [hi₁] at hat₁
  rw [hi₂, ← hfirst, ← hg.time] at hat₂
  have hrate : ∀ t y₁ y₂ k₁ k₂, SameMotion y₁ y₂ →
      rate g₁.dynamics g₁.state.inertia g₁.control t y₁ = .ok k₁ →
      rate g₂.dynamics g₂.state.inertia g₂.control t y₂ = .ok k₂ → SameMotion k₁ k₂ :=
    fun _ _ _ _ _ hy h₁ h₂ => rate_sameMotion hg.forces hg.body hy h₁ h₂
  obtain ⟨hmotion, hnext⟩ := Integrator.attempt_sameMotion hrate
    (SatState.sameMotion_toArray hg.position hg.velocity hg.mass) hat₁ hat₂
  obtain ⟨hb₁, -, -⟩ := rebuild_ok p₁ tEnd hr₁
  obtain ⟨hb₂, -, -⟩ := rebuild_ok p₂ tEnd hr₂
  obtain ⟨hp, hv, hm⟩ := hb₁.sameMotion hmotion hb₂
  obtain ⟨hf₁, hb₁'⟩ := Prod.mk.inj ((DynamicsModel.keeps_forces_advance _ _ _).eq_of_runFrom ha₁)
  obtain ⟨hf₂, hb₂'⟩ := Prod.mk.inj ((DynamicsModel.keeps_forces_advance _ _ _).eq_of_runFrom ha₂)
  refine ⟨?_, hp, hv, hm, hnext, ?_, ?_⟩ <;> dsimp only
  · rw [hb₁.time, hb₂.time, hfirst, hg.time]
  · rw [hf₁, hf₂, hg.forces]
  · rw [hb₁', hb₂', hg.body]

variable {p : Propagator} {listen : Option Nat}

theorem halt_completed {g : Progress} {e : Ending} (h : p.halt tEnd g = some e)
    (hc : e.reason = .completed) : ¬ g.state.time < tEnd := by
  simp only [halt] at h
  split_ifs at h with h1 <;> cases h
  · simpa using h1
  all_goals cases hc

theorem after_ne_completed {g : Progress} {f : Option Fault} {e : Ending}
    (h : after listen none g f = some e) : e.reason ≠ .completed := by
  cases f with
  | some f' =>
    cases h
    exact Termination.ofFault_ne_completed f'
  | none =>
    simp only [after] at h
    split_ifs at h with hi
    · simp at hi
    · cases h
      simp

/-- How a completed loop goes on from where it stands: it ends there, at or past the end time,
or it accepts a state without a fault and completes from there. -/
theorem loop_completed {fuel : Nat} {g : Progress} (hE : p.Enough g fuel)
    (hc : (p.loop tEnd listen none fuel g).reason = .completed) :
    (¬ g.state.time < tEnd ∧ p.passes tEnd listen none fuel g = []) ∨
      ∃ fuel' g', fuel = fuel' + 1 ∧ StepsTo p tEnd g g' none ∧ g'.steps = g.steps + 1 ∧
        g.state.time < tEnd ∧ p.Enough g' fuel' ∧
        (p.loop tEnd listen none fuel' g').reason = .completed ∧
        p.passes tEnd listen none fuel g = ⟨g, g', none⟩ :: p.passes tEnd listen none fuel' g' := by
  obtain ⟨hE1, hE2⟩ := hE
  cases fuel with
  | zero => omega
  | succ fuel =>
    rw [loop_succ] at hc
    rw [passes_succ]
    rcases hh : p.halt tEnd g with _ | e
    · rw [hh] at hc
      have hg := halt_eq_none p tEnd hh
      have hs := stepsTo_advanceOnce p tEnd g
      generalize p.advanceOnce tEnd g = r at hs hc ⊢
      obtain ⟨g', f⟩ := r
      dsimp only at hs hc ⊢
      rcases ha : after listen none g' f with _ | e
      · obtain ⟨rfl, hsteps⟩ := accepted_of_after_eq_none p tEnd listen none hs ha
        rw [ha] at hc
        exact Or.inr ⟨fuel, g', rfl, hs, hsteps, hg.1, ⟨by omega, by omega⟩, hc, rfl⟩
      · rw [ha] at hc
        exact absurd hc (after_ne_completed ha)
    · rw [hh] at hc
      exact Or.inl ⟨halt_completed hh hc, rfl⟩

/-- Two completed loops of the fixed-step method from the same point of the orbit accept states
at the same points of the orbit. -/
theorem passes_sameOrbit (hi₁ : p₁.integrator = .rungeKutta stepSize)
    (hi₂ : p₂.integrator = .rungeKutta stepSize) {listen₁ listen₂ : Option Nat} (fuel₁ : Nat) :
    ∀ {fuel₂ : Nat} {g₁ g₂ : Progress}, SameOrbit g₁ g₂ → p₁.Enough g₁ fuel₁ →
      p₂.Enough g₂ fuel₂ → (p₁.loop tEnd listen₁ none fuel₁ g₁).reason = .completed →
      (p₂.loop tEnd listen₂ none fuel₂ g₂).reason = .completed →
      ((p₁.passes tEnd listen₁ none fuel₁ g₁).filterMap Pass.acceptedState).map SatState.motion =
        ((p₂.passes tEnd listen₂ none fuel₂ g₂).filterMap Pass.acceptedState).map SatState.motion := by
  induction fuel₁ with
  | zero =>
    intro _ _ _ _ hE₁
    exact absurd hE₁.2 (by have := hE₁.1; omega)
  | succ n ih =>
    intro fuel₂ g₁ g₂ hg hE₁ hE₂ hc₁ hc₂
    -- the two runs stop at the same time, since they stand at the same time
    rcases loop_completed hE₁ hc₁ with ⟨hlate₁, hp₁⟩ |
      ⟨n₁, g₁', hn₁, hs₁, hsteps₁, hearly₁, hE₁', hc₁', hp₁⟩ <;>
    rcases loop_completed hE₂ hc₂ with ⟨hlate₂, hp₂⟩ |
      ⟨n₂, g₂', -, hs₂, hsteps₂, hearly₂, hE₂', hc₂', hp₂⟩
    · rw [hp₁, hp₂]
    · exact absurd (hg.time ▸ hearly₂) hlate₁
    · exact absurd (hg.time ▸ hearly₁) hlate₂
    · -- both take a step, to the same point of the orbit, and go on from there
      have hg' := stepsTo_sameOrbit hi₁ hi₂ hg hs₁ hs₂
      have ha₁ : Pass.acceptedState ⟨g₁, g₁', none⟩ = some g₁'.state := if_pos hsteps₁
      have ha₂ : Pass.acceptedState ⟨g₂, g₂', none⟩ = some g₂'.state := if_pos hsteps₂
      cases Nat.succ.inj hn₁
      rw [hp₁, hp₂, List.filterMap_cons_some ha₁, List.filterMap_cons_some ha₂, List.map_cons,
        List.map_cons, ih hg' hE₁' hE₂' hc₁' hc₂']
      simp only [SatState.motion, hg'.time, hg'.position, hg'.velocity]

/-- A run that completed got past its observers' start, and its loop completed. -/
theorem opening_completed {initial : SatState} {observers : List Observer} {g : Progress}
    {f : Option Fault} {S : RunSummary} (ho : p.opening tEnd listen initial observers = some (g, f))
    (hS : (p.propagate initial tEnd observers listen).summary = some S)
    (hc : S.reason = .completed) :
    f = none ∧ (p.loop tEnd listen none (p.limits.maxSteps.toNat + 1) g).reason = .completed := by
  rw [p.propagate_eq tEnd listen none ho, conclude_summary, closeAll_none_interrupted] at hS
  simp only [Bool.false_eq_true, if_false, Option.some.injEq] at hS
  subst hS
  -- a close failure would have made the run fail
  split_ifs at hc
  rcases ha : after listen none g f with _ | e
  · obtain ⟨rfl, -⟩ := (p.after_opening tEnd listen none ho).1 ha
    simp only [openingEnding, ha] at hc
    exact ⟨rfl, hc⟩
  · simp only [openingEnding, ha] at hc
    exact absurd hc (after_ne_completed ha)

/-- Two runs of the fixed-step method from the same point of the orbit start their loops at the
same point. -/
theorem opening_sameOrbit (hi₁ : p₁.integrator = .rungeKutta stepSize)
    (hi₂ : p₂.integrator = .rungeKutta stepSize) (hforces : p₁.dynamics.forces = p₂.dynamics.forces)
    (hbody : p₁.dynamics.body = p₂.dynamics.body) {initial₁ initial₂ : SatState}
    (htime : initial₁.time = initial₂.time) (hposition : initial₁.position = initial₂.position)
    (hvelocity : initial₁.velocity = initial₂.velocity) (hmass : initial₁.mass = initial₂.mass)
    {observers₁ observers₂ : List Observer} {listen₁ listen₂ : Option Nat} {g₁ g₂ : Progress}
    {f₁ f₂ : Option Fault} (ho₁ : p₁.opening tEnd listen₁ initial₁ observers₁ = some (g₁, f₁))
    (ho₂ : p₂.opening tEnd listen₂ initial₂ observers₂ = some (g₂, f₂)) : SameOrbit g₁ g₂ := by
  obtain ⟨-, -, s₁, d₁, c₁, d₁', hc₁, hd₁, hr₁, rfl, -⟩ := p₁.opening_eq_some tEnd listen₁ ho₁
  obtain ⟨-, -, s₂, d₂, c₂, d₂', hc₂, hd₂, hr₂, rfl, -⟩ := p₂.opening_eq_some tEnd listen₂ ho₂
  obtain ⟨ht₁, hm₁, -⟩ := copy_eq_ok hc₁
  obtain ⟨ht₂, hm₂, -⟩ := copy_eq_ok hc₂
  obtain ⟨hp₁, hv₁⟩ := SatState.copy_motion hc₁
  obtain ⟨hp₂, hv₂⟩ := SatState.copy_motion hc₂
  obtain ⟨hf₁, hb₁⟩ := DynamicsModel.reset_forces hd₁
  obtain ⟨hf₂, hb₂⟩ := DynamicsModel.reset_forces hd₂
  obtain ⟨he₁, hk₁⟩ :=
    Prod.mk.inj ((DynamicsModel.keeps_forces_initialControl s₁).eq_of_runFrom hr₁)
  obtain ⟨he₂, hk₂⟩ :=
    Prod.mk.inj ((DynamicsModel.keeps_forces_initialControl s₂).eq_of_runFrom hr₂)
  refine ⟨?_, ?_, ?_, ?_, ?_, ?_, ?_⟩ <;> dsimp only
  · rw [ht₁, ht₂, htime]
  · rw [hp₁, hp₂, hposition]
  · rw [hv₁, hv₂, hvelocity]
  · rw [hm₁, hm₂, hmass]
  · simp only [hi₁, hi₂, Integrator.initialStep]
  · rw [he₁, he₂, hf₁, hf₂, hforces]
  · rw [hk₁, hk₂, hb₁, hb₂, hbody]


/-- Two completed runs of the fixed-step method with the same step, forces and body, from the
same time, position, velocity and mass to the same end time, accept states at the same times,
positions and velocities, whatever their attitudes, spins, torques, torque laws, observers and
limits. -/
theorem rungeKutta_orbit_ignores_attitude {initial₁ initial₂ : SatState}
    {observers₁ observers₂ : List Observer} {listen₁ listen₂ : Option Nat} {S₁ S₂ : RunSummary}
    (hi₁ : p₁.integrator = .rungeKutta stepSize) (hi₂ : p₂.integrator = .rungeKutta stepSize)
    (hforces : p₁.dynamics.forces = p₂.dynamics.forces)
    (hbody : p₁.dynamics.body = p₂.dynamics.body) (htime : initial₁.time = initial₂.time)
    (hposition : initial₁.position = initial₂.position)
    (hvelocity : initial₁.velocity = initial₂.velocity) (hmass : initial₁.mass = initial₂.mass)
    (hS₁ : (p₁.propagate initial₁ tEnd observers₁ listen₁).summary = some S₁)
    (hc₁ : S₁.reason = .completed)
    (hS₂ : (p₂.propagate initial₂ tEnd observers₂ listen₂).summary = some S₂)
    (hc₂ : S₂.reason = .completed) :
    (p₁.acceptedStates tEnd listen₁ initial₁ observers₁).map SatState.motion =
      (p₂.acceptedStates tEnd listen₂ initial₂ observers₂).map SatState.motion := by
  obtain ⟨g₁, f₁, ho₁⟩ := p₁.exists_opening tEnd listen₁ none hS₁
  obtain ⟨g₂, f₂, ho₂⟩ := p₂.exists_opening tEnd listen₂ none hS₂
  obtain ⟨rfl, hl₁⟩ := opening_completed ho₁ hS₁ hc₁
  obtain ⟨rfl, hl₂⟩ := opening_completed ho₂ hS₂ hc₂
  rw [acceptedStates, runPasses_eq_passes p₁ tEnd listen₁ none ho₁ (by simp), acceptedStates,
    runPasses_eq_passes p₂ tEnd listen₂ none ho₂ (by simp)]
  exact passes_sameOrbit hi₁ hi₂ _
    (opening_sameOrbit hi₁ hi₂ hforces hbody htime hposition hvelocity hmass ho₁ ho₂)
    (opened_enough p₁ tEnd listen₁ (opening_opened p₁ tEnd listen₁ ho₁))
    (opened_enough p₂ tEnd listen₂ (opening_opened p₂ tEnd listen₂ ho₂)) hl₁ hl₂

/-- The sample start on the circular orbit of a unit attracting mass at unit distance. -/
def keplerPropagator : Propagator :=
  { samplePropagator with
    dynamics := { body := default, forces := [.gravity { mu := 1.0, minRadius := 0.5 }] } }

/-- The same orbit flown under a constant commanded torque. -/
def torquedPropagator : Propagator :=
  { keplerPropagator with
    dynamics := { keplerPropagator.dynamics with
      law := some { phases := [⟨"spin", .constant [0.1, 0.0, 0.0]⟩] } } }

/-- The sample start turned half a turn about its first axis and spinning. -/
def turnedState : SatState :=
  { sampleState with quaternion := ⟨0.0, 1.0, 0.0, 0.0⟩, angularVelocity := ⟨0.3, -0.2, 0.1⟩ }

theorem kepler_orbit_ignores_spin :
    (keplerPropagator.propagate sampleState 1.0 []).summary.map (·.reason) = some .completed ∧
    (torquedPropagator.propagate turnedState 1.0 []).summary.map (·.reason) =
      some .completed ∧
    (keplerPropagator.acceptedStates 1.0 none sampleState []).map SatState.motion =
      (torquedPropagator.acceptedStates 1.0 none turnedState []).map SatState.motion := by
  have h₁ : (keplerPropagator.propagate sampleState 1.0 []).summary.map (·.reason) =
      some .completed := by
    decide +kernel
  have h₂ : (torquedPropagator.propagate turnedState 1.0 []).summary.map (·.reason) =
      some .completed := by
    decide +kernel
  obtain ⟨S₁, hS₁, hc₁⟩ := Option.map_eq_some_iff.1 h₁
  obtain ⟨S₂, hS₂, hc₂⟩ := Option.map_eq_some_iff.1 h₂
  exact ⟨h₁, h₂, rungeKutta_orbit_ignores_attitude rfl rfl rfl rfl rfl rfl rfl rfl hS₁ hc₁ hS₂ hc₂⟩

end Propagator

end Spacecraft
