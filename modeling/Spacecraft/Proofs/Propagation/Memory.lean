import Mathlib
import Spacecraft.Proofs.Propagation.Summary

/-!
# The memory of a run

The dynamics of a run carry memory: a random disturbance holds the torque of the current step
and its generator, the torque law its sensors, and the run the law's control memory. The rate
of a step is a function of the memory where the step starts (`Propagator.trials`), so every
trial of the step and every stage of every trial sees one rate.

A step moves the memory only if it accepts its state, and then once, by the advance of the
dynamics at that state and its time, after the state passed its checks; a step that stops on
its trials or its checks leaves the memory as it was, and one whose advance fails stops the run
with what the advance left (`Propagator.MemoryStep`, `stepsTo_memoryStep`). The run starts from
the control memory set up at its starting state after the reset. So, where every step of every
run starts, the control memory is present exactly when the model has a law, and after `k`
accepted steps every disturbance holds the `k + 1`-th draw of its generator from its seed
(`Propagator.Memory`, `memory_moves_on_accepted_steps`).
-/

namespace Spacecraft

/-- The `n + 1`-th draw of three uniform values in `[lo, hi)` from a generator, with the
generator after it. -/
def Pcg.draw (g : Pcg) (lo hi : Float) : Nat → Outcome (Vec3 × Pcg)
  | 0 => g.uniform3 lo hi
  | n + 1 => do
    let (_, g') ← g.draw lo hi n
    g'.uniform3 lo hi

/-- Every disturbance of `d0` stands in `d` at the same place with the same half-width, and
holds the `n + 1`-th draw from its seed with the generator after it. -/
def DrawnAt (d0 : DynamicsModel) (n : Nat) (d : DynamicsModel) : Prop :=
  ∀ (j : Nat) (dist0 : Disturbance), d0.torques[j]? = some (.disturbance dist0) →
    ∃ dist : Disturbance, d.torques[j]? = some (.disturbance dist) ∧
      dist.intensity = dist0.intensity ∧
      (Pcg.ofSeed dist0.seed).draw (-dist0.intensity) dist0.intensity n =
        .ok (dist.current, dist.gen)

namespace TorqueModel

/-- A disturbance restarts at the first draw from its seed. -/
theorem reset_disturbance {dist0 : Disturbance} {m : TorqueModel}
    (h : (TorqueModel.disturbance dist0).reset = .ok m) :
    ∃ dist, m = .disturbance dist ∧ dist.intensity = dist0.intensity ∧
      (Pcg.ofSeed dist0.seed).draw (-dist0.intensity) dist0.intensity 0 =
        .ok (dist.current, dist.gen) := by
  simp only [reset, Disturbance.restart] at h
  obtain ⟨dist, hd, rfl⟩ := Outcome.map_eq_ok h
  obtain ⟨⟨current, gen⟩, hu, hd⟩ := Outcome.bind_eq_ok hd
  cases hd
  exact ⟨_, rfl, rfl, hu⟩

/-- A disturbance moves on to the next draw of its generator. -/
theorem advance_disturbance {dist : Disturbance} {m : TorqueModel} {g : Pcg} {n : Nat}
    (h : (TorqueModel.disturbance dist).advance = .ok m)
    (hn : g.draw (-dist.intensity) dist.intensity n = .ok (dist.current, dist.gen)) :
    ∃ dist', m = .disturbance dist' ∧ dist'.intensity = dist.intensity ∧
      g.draw (-dist.intensity) dist.intensity (n + 1) = .ok (dist'.current, dist'.gen) := by
  simp only [advance, Disturbance.advance] at h
  obtain ⟨dist', hd, rfl⟩ := Outcome.map_eq_ok h
  obtain ⟨⟨current, gen⟩, hu, hd⟩ := Outcome.bind_eq_ok hd
  cases hd
  refine ⟨_, rfl, rfl, ?_⟩
  rw [Pcg.draw, hn]
  exact hu

end TorqueModel

namespace DrawnAt

variable {d0 d d' : DynamicsModel} {n : Nat}

theorem of_torques_eq (hd : DrawnAt d0 n d) (h : d'.torques = d.torques) : DrawnAt d0 n d' := by
  unfold DrawnAt
  rw [h]
  exact hd

/-- Moving every torque model on moves every disturbance to its next draw. -/
theorem advance {ts : List TorqueModel} (hd : DrawnAt d0 n d)
    (hts : d.torques.mapM TorqueModel.advance = .ok ts) (h : d'.torques = ts) :
    DrawnAt d0 (n + 1) d' := by
  intro j dist0 hj
  obtain ⟨dist, hdj, hi, hdraw⟩ := hd j dist0 hj
  obtain ⟨m, hm, hj'⟩ := Outcome.mapM_getElem? hts j hdj
  rw [← hi] at hdraw ⊢
  obtain ⟨dist', rfl, hi', hdraw'⟩ := TorqueModel.advance_disturbance hm hdraw
  exact ⟨dist', h ▸ hj', hi', hdraw'⟩

end DrawnAt

namespace DynamicsModel

/-- A reset model keeps whether it has a law and holds every disturbance at its first draw. -/
theorem reset_spec {d0 d : DynamicsModel} (h : d0.reset = .ok d) :
    d.law.isSome = d0.law.isSome ∧ DrawnAt d0 0 d := by
  unfold reset at h
  obtain ⟨ts, hts, h⟩ := Outcome.bind_eq_ok h
  cases h
  refine ⟨by simp, fun j dist0 hj => ?_⟩
  obtain ⟨m, hm, hj'⟩ := Outcome.mapM_getElem? hts j hj
  obtain ⟨dist, rfl, hi, hdraw⟩ := TorqueModel.reset_disturbance hm
  exact ⟨dist, hj', hi, hdraw⟩

/-- The control memory at the start of a run is present exactly when the model has a law,
and setting it up touches only the law. -/
theorem initialControl_spec {s : SatState} {d d' : DynamicsModel} {c : Option LawState}
    (h : Tracked.runFrom (initialControl s) d = (.ok c, d')) :
    c.isSome = d.law.isSome ∧ d'.law.isSome = d.law.isSome ∧ d'.torques = d.torques := by
  simp only [initialControl, Tracked.runFrom_bind, Tracked.runFrom_get] at h
  cases hl : d.law with
  | none =>
    simp only [hl, Tracked.runFrom_pure, Prod.mk.injEq] at h
    obtain ⟨h, rfl⟩ := h
    cases h
    simp [hl]
  | some law =>
    simp only [hl, Tracked.runFrom_map, onLaw, Tracked.runFrom_focus, Prod.mk.injEq] at h
    obtain ⟨h, rfl⟩ := h
    obtain ⟨c', -, rfl⟩ := Outcome.map_eq_ok h
    simp

/-- An advance that succeeds moves every torque model on, keeps the law, and keeps the control
memory present as before. -/
theorem advance_ok {t : Float} {s : SatState} {c c' : Option LawState} {d d' : DynamicsModel}
    (h : Tracked.runFrom (advance t s c) d = (.ok c', d')) :
    (∃ ts, d.torques.mapM TorqueModel.advance = .ok ts ∧ d'.torques = ts) ∧
      d'.law.isSome = d.law.isSome ∧ c'.isSome = c.isSome := by
  simp only [advance, Tracked.runFrom_bind, Tracked.runFrom_get, Tracked.runFrom_lift] at h
  rcases hts : d.torques.mapM TorqueModel.advance with e | ts
  · simp only [hts] at h
    cases h
  simp only [hts, Tracked.runFrom_set] at h
  -- the law's memory moves on only when there is a law and a memory to move
  rcases hl : d.law with _ | law <;> rcases c with _ | ls
  all_goals simp only [hl, Tracked.runFrom_pure, Tracked.runFrom_map, onLaw,
    Tracked.runFrom_focus, Prod.mk.injEq] at h
  all_goals obtain ⟨h, rfl⟩ := h
  · cases h; simp
  · cases h; simp
  · cases h; simp
  · obtain ⟨c'', -, rfl⟩ := Outcome.map_eq_ok h
    simp

end DynamicsModel

namespace Propagator

variable (p : Propagator) (tEnd : Float) (listen : Option Nat)

/-- The memory of a run where a step starts: the model keeps whether it has a law, the control
memory is present exactly when it has one, and after `steps` accepted steps every disturbance
holds the `steps + 1`-th draw from its seed. -/
structure Memory (g : Progress) : Prop where
  law : g.dynamics.law.isSome = p.dynamics.law.isSome
  control : g.control.isSome = p.dynamics.law.isSome
  drawn : DrawnAt p.dynamics g.steps g.dynamics

/-- How one step moves the memory of a run. -/
inductive MemoryStep (g : Progress) : Progress → Option Fault → Prop
  /-- The trials or the checks of the new state failed: the memory stays as it was. -/
  | kept {g' : Progress} {f : Option Fault} :
      g'.steps = g.steps → g'.control = g.control → g'.dynamics = g.dynamics →
      MemoryStep g g' f
  /-- The dynamics failed to move on from a state that passed its checks: the run stops with
  the dynamics the advance left and the control memory it had. -/
  | failed {g' : Progress} {s : SatState} {e : Fault} :
      g'.steps = g.steps → g'.control = g.control → p.checkState s = .ok () →
      Tracked.runFrom (DynamicsModel.advance s.time s g.control) g.dynamics =
        (.error e, g'.dynamics) →
      MemoryStep g g' (some e)
  /-- The step is accepted: the memory moves on once, at the accepted state and its time. -/
  | advanced {g' : Progress} {f : Option Fault} :
      g'.steps = g.steps + 1 → p.checkState g'.state = .ok () →
      Tracked.runFrom (DynamicsModel.advance g'.state.time g'.state g.control) g.dynamics =
        (.ok g'.control, g'.dynamics) →
      MemoryStep g g' f

variable {p tEnd}

theorem rebuild_checkState {g : Progress} {o : StepOutcome} {h : Float} {s : SatState}
    (hr : p.rebuild tEnd g o h = .ok s) : p.checkState s = .ok () := by
  unfold rebuild at hr
  obtain ⟨s', -, hr⟩ := Outcome.bind_eq_ok hr
  obtain ⟨⟨⟩, hc, hr⟩ := Outcome.bind_eq_ok hr
  cases hr
  exact hc

/-- Every step moves the memory in one of the ways of `MemoryStep`. -/
theorem stepsTo_memoryStep {g g' : Progress} {f : Option Fault} (hs : StepsTo p tEnd g g' f) :
    p.MemoryStep g g' f := by
  cases hs with
  | retryFault _ => exact .kept rfl rfl rfl
  | rebuildFault _ _ => exact .kept rfl rfl rfl
  | advanceFault _ hr ha =>
    -- the rebuilt state carries the time the step lands on
    rw [← (p.rebuild_ok tEnd hr).1.time] at ha
    exact .failed rfl rfl (rebuild_checkState hr) ha
  | accepted _ hr ha _ =>
    rw [← (p.rebuild_ok tEnd hr).1.time] at ha
    exact .advanced rfl (rebuild_checkState hr) ha

/-- A step that raises nothing keeps the memory invariant. -/
theorem Memory.step {g g' : Progress} (hm : p.Memory g) (hs : p.MemoryStep g g' none) :
    p.Memory g' := by
  cases hs with
  | kept hn hc hd => exact ⟨hd ▸ hm.law, hc ▸ hm.control, hn ▸ hd ▸ hm.drawn⟩
  | advanced hn _ ha =>
    obtain ⟨⟨ts, hts, hd⟩, hl, hc⟩ := DynamicsModel.advance_ok ha
    exact ⟨hl.trans hm.law, hc.trans hm.control, hn ▸ hm.drawn.advance hts hd⟩

/-- The memory invariant holds where the loop of a run starts. -/
theorem memory_of_opening {initial : SatState} {observers : List Observer} {g : Progress}
    {f : Option Fault} (h : p.opening tEnd listen initial observers = some (g, f)) :
    p.Memory g := by
  obtain ⟨-, -, s, d, c, d', -, hd, hc, rfl, -⟩ := p.opening_eq_some tEnd listen h
  obtain ⟨hlaw, hdrawn⟩ := DynamicsModel.reset_spec hd
  obtain ⟨hc, hl, ht⟩ := DynamicsModel.initialControl_spec hc
  exact ⟨hl.trans hlaw, hc.trans hlaw, hdrawn.of_torques_eq ht⟩

variable (p tEnd)

/-- The memory of a run moves only on accepted steps. The run starts from the control memory
set up at its starting state after the reset; every step starts where the memory invariant
holds, and moves the memory once by the advance at its accepted state, or not at all. -/
theorem memory_moves_on_accepted_steps {initial : SatState} {observers : List Observer}
    {S : RunSummary} (hS : (p.propagate initial tEnd observers listen).summary = some S) :
    (∃ s d, initial.copy = .ok s ∧ p.dynamics.reset = .ok d ∧
      ∀ q ∈ (p.runPasses tEnd listen initial observers).head?, q.before.state = s ∧
        Tracked.runFrom (DynamicsModel.initialControl s) d =
          (.ok q.before.control, q.before.dynamics)) ∧
    ∀ q ∈ p.runPasses tEnd listen initial observers,
      p.Memory q.before ∧ p.MemoryStep q.before q.after q.fault := by
  obtain ⟨g, f, h⟩ := p.exists_opening tEnd listen none hS
  obtain ⟨-, -, s, d, c, d', hs, hd, hc, rfl, -⟩ := p.opening_eq_some tEnd listen h
  cases f with
  | some e => simp [p.runPasses_eq_nil tEnd listen none h, hs, hd]
  | none =>
    rw [p.runPasses_eq_passes tEnd listen none h (by simp)]
    refine ⟨⟨s, d, hs, hd, fun q hq => ?_⟩, fun q hq => ⟨?_, ?_⟩⟩
    · rw [p.passes_head tEnd listen none _ _ q hq]
      exact ⟨rfl, hc⟩
    · refine p.passes_before_invariant tEnd listen none (p.Memory)
        (fun g g' hm _ hs _ => hm.step (stepsTo_memoryStep hs))
        (fun _ => memory_of_opening listen h) q hq
    · exact stepsTo_memoryStep (p.mem_passes tEnd listen none hq).2

/-- A run whose model has a random disturbance. -/
def disturbedPropagator : Propagator :=
  { samplePropagator with
    dynamics := { body := default,
                  torques := [.disturbance { intensity := 1.0e-6, seed := 7, gen := default,
                                             current := default }] } }

theorem disturbed_run_memory :
    (disturbedPropagator.propagate sampleState 1.0 []).summary.isSome = true ∧
    (∃ s d, sampleState.copy = .ok s ∧ disturbedPropagator.dynamics.reset = .ok d ∧
      ∀ q ∈ (disturbedPropagator.runPasses 1.0 none sampleState []).head?, q.before.state = s ∧
        Tracked.runFrom (DynamicsModel.initialControl s) d =
          (.ok q.before.control, q.before.dynamics)) ∧
    ∀ q ∈ disturbedPropagator.runPasses 1.0 none sampleState [],
      disturbedPropagator.Memory q.before ∧
        disturbedPropagator.MemoryStep q.before q.after q.fault := by
  have hsome : (disturbedPropagator.propagate sampleState 1.0 []).summary.isSome = true := by
    decide +kernel
  exact ⟨hsome, disturbedPropagator.memory_moves_on_accepted_steps 1.0 none
    (Option.getD_of_ne_none (Option.isSome_iff_ne_none.1 hsome) default).symm⟩

end Propagator

end Spacecraft
