import Spacecraft.Proofs.Dynamics.Parallel
import Spacecraft.Proofs.Propagation.Summary

/-!
# Running again

A run starts by putting every model back at its first draw (`DynamicsModel.reset`) and setting
up the control memory at its starting state. What a run then does to the dynamics (the first
estimate of the law, the advances after accepted steps) moves generators that a reset puts back,
and latches a commanded target if one waits. With no target waiting, a run leaves dynamics
that restart as the dynamics it started with restart (`reset_propagate`), and a restarted model
restarts to itself. So a second run on the dynamics the first left makes every decision the
first made: the same accepted states, summary, control memory and dynamics
(`propagate_rerun`), for simulations too, serial or parallel (`Simulation.run_rerun`).
`runs_repeat_and_pool_agrees` states this together with what a worker pool leaves unchanged:
the derivative, and the run of a simulation that asks for parallel evaluation.

A target commanded before a first run is the one thing that run changes for good: the run
latches it at its first accepted step, and a second run, which finds no target waiting, holds
the attitude instead (`waiting_target_breaks_rerun`).
-/

namespace Spacecraft

open Tracked

/-- A restarted sensor, spelled out: the explicit form keeps the generator of its seed
unevaluated. -/
theorem Sensor.reset_eq (s : Sensor) : s.reset = ⟨s.noise, s.seed, Pcg.ofSeed s.seed⟩ := rfl

@[simp] theorem Sensor.reset_reset (s : Sensor) : s.reset.reset = s.reset := by
  rw [reset_eq s.reset, reset_eq s]

@[simp] theorem Policy.reset_reset (p : Policy) : p.reset.reset = p.reset := by
  cases p with
  | sensedBdot r => simp only [reset, FieldRateSensing.reset, Sensor.reset_reset]
  | _ => rfl

@[simp] theorem Condition.reset_reset (c : Condition) : c.reset.reset = c.reset := by
  cases c with
  | spinRateBelow threshold g =>
    cases g with
    | none => rfl
    | some g => simp only [reset, Sensor.reset_reset]
  | _ => rfl

namespace TorqueLaw

@[simp] theorem reset_reset (law : TorqueLaw) : law.reset.reset = law.reset := by
  simp [reset, Function.comp_def]

/-- A restarted law is its skeleton with its own guidance. -/
theorem reset_eq_skeleton (law : TorqueLaw) :
    law.reset = { law.skeleton with guidance := law.guidance } := rfl

/-- Two laws of one skeleton and one guidance restart alike. -/
theorem reset_eq_of_skeleton {law law' : TorqueLaw} (hs : law'.skeleton = law.skeleton)
    (hg : law'.guidance = law.guidance) : law'.reset = law.reset := by
  rw [reset_eq_skeleton, reset_eq_skeleton, hs, hg]

theorem awaiting_of_guidance {law law' : TorqueLaw} (hg : law'.guidance = law.guidance) :
    law'.awaiting = law.awaiting := by
  rw [awaiting, awaiting, hg]

theorem keeps_guidance_onPhase {α : Type} (i : Nat) (m : Tracked Policy α) :
    Keeps guidance (onPhase i m) := fun _ => rfl

theorem keeps_guidance_onTransition {α : Type} (j : Nat) (m : Tracked Condition α) :
    Keeps guidance (onTransition j m) := fun _ => rfl

theorem keeps_guidance_estimateAt (i : Nat) (s : SatState) : Keeps guidance (estimateAt i s) :=
  keeps_guidance_onPhase i _

theorem keeps_guidance_initialState (s : SatState) : Keeps guidance (initialState s) :=
  keeps_initialState_of (keeps_guidance_estimateAt 0 s)

/-- Setting up the law state of a run changes nothing that a restart keeps. -/
theorem reset_initialState (s : SatState) (law : TorqueLaw) :
    (runFrom (initialState s) law).2.reset = law.reset :=
  reset_eq_of_skeleton (keeps_initialState s law) (keeps_guidance_initialState s law)

/-- With no commanded target waiting, an advance leaves the guidance as it is. -/
theorem guidance_advance {law : TorqueLaw} (h : law.awaiting = false) (t : Float) (s : SatState)
    (b : Body) (ls : LawState) : (runFrom (advance t s b ls) law).2.guidance = law.guidance := by
  rw [advance_eq, runFrom_get_bind]
  exact keepsAt_lift_bind fun reference => keepsAt_lift_bind fun _ => keepsAt_lift_bind fun _ =>
    keepsAt_bind ((runFrom_guidanceStep law t s ls).2 h) fun _ =>
      (keeps_estimateStep_of fun _ => keeps_guidance_onPhase _ _).bind fun _ =>
        keeps_fire_of (fun j _ _ _ _ => keeps_guidance_onTransition j _)
          keeps_guidance_estimateAt t s ls reference _ _

/-- With no commanded target waiting, an advance changes nothing that a restart keeps, and
leaves no target waiting. -/
theorem reset_advance {law : TorqueLaw} (h : law.awaiting = false) (t : Float) (s : SatState)
    (b : Body) (ls : LawState) :
    (runFrom (advance t s b ls) law).2.reset = law.reset ∧
      (runFrom (advance t s b ls) law).2.awaiting = false :=
  ⟨reset_eq_of_skeleton (keeps_advance t s b ls law) (guidance_advance h t s b ls),
    (awaiting_of_guidance (guidance_advance h t s b ls)).trans h⟩

end TorqueLaw

namespace TorqueModel

/-- A disturbance that moves on keeps its half-width and seed, so it restarts alike. -/
theorem reset_of_advance {m m' : TorqueModel} (h : m.advance = .ok m') : m'.reset = m.reset := by
  cases m with
  | disturbance d =>
    simp only [advance, Disturbance.advance] at h
    obtain ⟨d', hd, rfl⟩ := Outcome.map_eq_ok h
    obtain ⟨⟨current, gen⟩, -, hd⟩ := Outcome.bind_eq_ok hd
    cases hd
    rfl
  | _ => cases h; rfl

/-- A restarted torque model restarts to itself. -/
theorem reset_of_reset {m m' : TorqueModel} (h : m.reset = .ok m') : m'.reset = .ok m' := by
  cases m with
  | disturbance d =>
    simp only [reset, Disturbance.restart] at h
    obtain ⟨d', hd, rfl⟩ := Outcome.map_eq_ok h
    obtain ⟨⟨current, gen⟩, hu, hd⟩ := Outcome.bind_eq_ok hd
    cases hd
    simp only [reset, Disturbance.restart, hu]
    rfl
  | _ => cases h; rfl

theorem mapM_reset_of_mapM_advance {l l' : List TorqueModel} (h : l.mapM advance = .ok l') :
    l'.mapM reset = l.mapM reset := by
  induction l generalizing l' with
  | nil => cases h; rfl
  | cons m l ih =>
    rw [List.mapM_cons] at h
    obtain ⟨m', hm, h⟩ := Outcome.bind_eq_ok h
    obtain ⟨l'', hl, h⟩ := Outcome.bind_eq_ok h
    cases h
    rw [List.mapM_cons, List.mapM_cons, reset_of_advance hm, ih hl]

theorem mapM_reset_of_mapM_reset {l l' : List TorqueModel} (h : l.mapM reset = .ok l') :
    l'.mapM reset = .ok l' := by
  induction l generalizing l' with
  | nil => cases h; rfl
  | cons m l ih =>
    rw [List.mapM_cons] at h
    obtain ⟨m', hm, h⟩ := Outcome.bind_eq_ok h
    obtain ⟨l'', hl, h⟩ := Outcome.bind_eq_ok h
    cases h
    rw [List.mapM_cons, reset_of_reset hm, ih hl]
    rfl

end TorqueModel

namespace DynamicsModel

/-- Whether the model's law holds a commanded target waiting to be latched. -/
def awaiting (m : DynamicsModel) : Bool := m.law.any TorqueLaw.awaiting

/-- Two models that differ only in what a restart puts back restart alike. -/
theorem reset_congr {m m' : DynamicsModel}
    (ht : m'.torques.mapM TorqueModel.reset = m.torques.mapM TorqueModel.reset)
    (hl : m'.law.map TorqueLaw.reset = m.law.map TorqueLaw.reset) (hbody : m'.body = m.body)
    (hforces : m'.forces = m.forces) (hexecutor : m'.executor = m.executor) :
    m'.reset = m.reset := by
  simp only [reset, ht, hl, hbody, hforces, hexecutor]

/-- A restarted model restarts to itself, with the same target waiting or none. -/
theorem reset_of_reset {m m0 : DynamicsModel} (h : m.reset = .ok m0) :
    m0.reset = .ok m0 ∧ m0.awaiting = m.awaiting := by
  obtain ⟨body, forces, torques, law, executor⟩ := m
  unfold reset at h
  obtain ⟨ts, hts, h⟩ := Outcome.bind_eq_ok h
  cases h
  refine ⟨?_, ?_⟩
  · simp only [reset, TorqueModel.mapM_reset_of_mapM_reset hts, Option.map_map,
      Function.comp_def, TorqueLaw.reset_reset]
    rfl
  · cases law <;> rfl

/-- Setting up the control memory of a run changes nothing that a restart keeps. -/
theorem reset_initialControl (s : SatState) (m : DynamicsModel) :
    (runFrom (initialControl s) m).2.reset = m.reset ∧
      (runFrom (initialControl s) m).2.awaiting = m.awaiting := by
  rw [runFrom_initialControl]
  obtain ⟨body, forces, torques, _ | law, executor⟩ := m
  · exact ⟨rfl, rfl⟩
  · have hg := TorqueLaw.keeps_guidance_initialState s law
    refine ⟨reset_congr rfl ?_ rfl rfl rfl, ?_⟩
    · simp [TorqueLaw.reset_initialState]
    · simp only [awaiting, Option.any_some]
      exact TorqueLaw.awaiting_of_guidance hg

/-- With no commanded target waiting, the advance after an accepted step changes nothing that a
restart keeps, and leaves no target waiting. -/
theorem reset_advance {m : DynamicsModel} (hq : m.awaiting = false) (t : Float) (s : SatState)
    (c : Option LawState) :
    (runFrom (advance t s c) m).2.reset = m.reset ∧
      (runFrom (advance t s c) m).2.awaiting = false := by
  obtain ⟨body, forces, torques, law, executor⟩ := m
  simp only [advance, runFrom_get_bind, runFrom_lift_bind]
  rcases hts : torques.mapM TorqueModel.advance with _ | ts
  · exact ⟨rfl, hq⟩
  simp only [runFrom_bind, runFrom_set]
  have htorques := TorqueModel.mapM_reset_of_mapM_advance hts
  -- the law's memory moves on only when there is a law and a memory to move
  rcases law with _ | law <;> rcases c with _ | ls
  · exact ⟨reset_congr htorques rfl rfl rfl rfl, hq⟩
  · exact ⟨reset_congr htorques rfl rfl rfl rfl, hq⟩
  · exact ⟨reset_congr htorques rfl rfl rfl rfl, hq⟩
  · have hlaw : law.awaiting = false := hq
    obtain ⟨hreset, hquiet⟩ := TorqueLaw.reset_advance hlaw t s body ls
    simp only [onLaw, runFrom_map, runFrom_focus, Option.getD_some]
    exact ⟨reset_congr htorques (by simp [hreset]) rfl rfl rfl, hquiet⟩

end DynamicsModel

namespace Propagator

variable (p : Propagator) (tEnd : Float) (listen : Option Nat) (interrupt : Option Interrupt)

/-- A step of a run with no commanded target waiting changes nothing in the dynamics that a
restart puts back, and leaves no target waiting. -/
theorem stepsTo_reset {g g' : Progress} {f : Option Fault} (hs : StepsTo p tEnd g g' f)
    (hq : g.dynamics.awaiting = false) :
    g'.dynamics.reset = g.dynamics.reset ∧ g'.dynamics.awaiting = false := by
  cases hs with
  | retryFault _ => exact ⟨rfl, hq⟩
  | rebuildFault _ _ => exact ⟨rfl, hq⟩
  | @advanceFault o h k s e d _ _ ha =>
    have hd := DynamicsModel.reset_advance hq (landing tEnd g.state.time h) s g.control
    rw [ha] at hd
    exact hd
  | @accepted o h k s c d obs stop fault _ _ ha _ =>
    have hd := DynamicsModel.reset_advance hq (landing tEnd g.state.time h) s g.control
    rw [ha] at hd
    exact hd

/-- With no commanded target waiting, the dynamics a run leaves restart as the dynamics it
started with. -/
theorem reset_propagate (hq : p.dynamics.awaiting = false) (initial : SatState)
    (observers : List Observer) :
    (p.propagate initial tEnd observers listen interrupt).dynamics.reset = p.dynamics.reset := by
  unfold propagate
  by_cases h1 : tEnd < initial.time
  · rw [if_pos h1]
  rw [if_neg h1]
  by_cases h2 : (listen == some 0) = true
  · rw [if_pos h2]
  rw [if_neg h2]
  rcases initial.copy with e | s
  · rfl
  dsimp only
  rcases hd : p.dynamics.reset with e | d
  · exact hd
  dsimp only
  obtain ⟨hd0, hq0⟩ := DynamicsModel.reset_of_reset hd
  obtain ⟨hreset1, hq1⟩ := DynamicsModel.reset_initialControl s d
  rcases hc : runFrom (DynamicsModel.initialControl s) d with ⟨_ | c, d1⟩
  all_goals rw [hc] at hreset1 hq1
  all_goals dsimp only at hreset1 hq1 ⊢
  · rw [hreset1, hd0]
  · -- the closing leaves the dynamics where the loop left them, and every step of the loop
    -- keeps the restart of the dynamics and no target waiting
    rw [apply_ite RunRecord.dynamics, ite_self]
    dsimp only
    have h1 : d1.reset = .ok d ∧ d1.awaiting = false :=
      ⟨hreset1.trans hd0, hq1.trans (hq0.trans hq)⟩
    split
    · exact h1.1
    split
    · exact h1.1
    refine (p.loop_invariant tEnd listen interrupt
      (fun g => g.dynamics.reset = .ok d ∧ g.dynamics.awaiting = false)
      (fun _ _ _ ⟨hr, hw⟩ _ hs => ?_) h1).1
    exact ⟨(stepsTo_reset p tEnd hs hw).1.trans hr, (stepsTo_reset p tEnd hs hw).2⟩

/-- A run that does not restart its dynamics leaves them as they were. -/
theorem dynamics_propagate_of_not_restarted {initial : SatState} {observers : List Observer}
    (h : ∀ s d, ¬ tEnd < initial.time → listen ≠ some 0 → initial.copy = .ok s →
      p.dynamics.reset ≠ .ok d) :
    (p.propagate initial tEnd observers listen interrupt).dynamics = p.dynamics := by
  unfold propagate
  by_cases h1 : tEnd < initial.time
  · rw [if_pos h1]
  rw [if_neg h1]
  by_cases h2 : (listen == some 0) = true
  · rw [if_pos h2]
  rw [if_neg h2]
  rcases hc : initial.copy with e | s
  · rfl
  dsimp only
  rcases hd : p.dynamics.reset with e | d
  · rfl
  · exact absurd hd (h s d h1 (by simpa using h2) hc)

/-- Once a run gets past the checks that do not look at its dynamics and restarts them, it
depends on them only through their restart. -/
theorem propagate_withDynamics {initial s : SatState} {observers : List Observer}
    {d d' : DynamicsModel} (h1 : ¬ tEnd < initial.time) (h2 : listen ≠ some 0)
    (hc : initial.copy = .ok s) (hd : p.dynamics.reset = .ok d) (hd' : d'.reset = .ok d) :
    { p with dynamics := d' }.propagate initial tEnd observers listen interrupt =
      p.propagate initial tEnd observers listen interrupt := by
  have h2' : (listen == some 0) = false := by simpa using h2
  unfold propagate
  simp only [h1, h2', Bool.false_eq_true, if_false, hc, hd, hd', loop_withDynamics]

/-- With no commanded target waiting, a second run on the dynamics a first run left, from the
same start to the same end with the same observers, is the first run again. -/
theorem propagate_rerun (hq : p.dynamics.awaiting = false) (initial : SatState)
    (observers : List Observer) :
    { p with dynamics := (p.propagate initial tEnd observers listen interrupt).dynamics }.propagate
      initial tEnd observers listen interrupt = p.propagate initial tEnd observers listen interrupt := by
  by_cases hgo : ∃ s d, ¬ tEnd < initial.time ∧ listen ≠ some 0 ∧ initial.copy = .ok s ∧
      p.dynamics.reset = .ok d
  · obtain ⟨s, d, h1, h2, hc, hd⟩ := hgo
    exact p.propagate_withDynamics tEnd listen interrupt h1 h2 hc hd
      ((p.reset_propagate tEnd listen interrupt hq initial observers).trans hd)
  · -- a run that never restarts its dynamics leaves them as they were
    rw [p.dynamics_propagate_of_not_restarted tEnd listen interrupt
      fun s d h1 h2 hc hd => hgo ⟨s, d, h1, h2, hc, hd⟩]

theorem dynamics_run (initial : SatState) (observers : List Observer) :
    (p.run initial tEnd observers).dynamics = (p.propagate initial tEnd observers).dynamics := by
  unfold run
  dsimp only
  split <;> rfl

/-- A run to completion repeats as `propagate_rerun` says. -/
theorem run_rerun (hq : p.dynamics.awaiting = false) (initial : SatState)
    (observers : List Observer) :
    { p with dynamics := (p.run initial tEnd observers).dynamics }.run initial tEnd observers =
      p.run initial tEnd observers := by
  rw [dynamics_run]
  simp only [run]
  rw [p.propagate_rerun tEnd none none hq initial observers]

end Propagator

namespace Simulation

/-- With no commanded target waiting, a second run of a simulation on the dynamics the first run
left is the first run again, whether the simulation asks for parallel evaluation or not: the
pool a parallel run puts in is taken out again, and the run with it in repeats. -/
theorem run_rerun (sim : Simulation) (observers : List Observer) (pool : Pool)
    (hq : sim.propagator.dynamics.awaiting = false) :
    { sim with propagator := { sim.propagator with dynamics := (sim.run observers pool).dynamics } }.run
      observers pool = sim.run observers pool := by
  unfold run
  split_ifs with hpar
  · -- the run with the pool in repeats, and leaves the pool in its dynamics
    have hexec := Propagator.executor_run
      { sim.propagator with dynamics := { sim.propagator.dynamics with executor := some pool } }
      sim.endTime sim.initial (Observer.newRecorder :: observers)
    have hrerun := Propagator.run_rerun
      { sim.propagator with dynamics := { sim.propagator.dynamics with executor := some pool } }
      sim.endTime hq sim.initial (Observer.newRecorder :: observers)
    generalize Propagator.run
      { sim.propagator with dynamics := { sim.propagator.dynamics with executor := some pool } }
      sim.initial sim.endTime (Observer.newRecorder :: observers) = r0 at hexec hrerun ⊢
    obtain ⟨summary, escaped, interrupted, obs, control,
      ⟨body, forces, torques, law, executor⟩, calls⟩ := r0
    cases hexec
    simp only [endTime] at hrerun ⊢
    rw [hrerun]
  · exact sim.propagator.run_rerun sim.endTime hq sim.initial _

end Simulation

/-- Runs repeat and a pool changes nothing: with no commanded target waiting, a second run on
the dynamics a first run left is the first run again, for a propagator and for a simulation;
the derivative evaluated through a pool is the serial one, fault for fault; and a simulation
that asks for parallel evaluation runs as the serial one does. -/
theorem runs_repeat_and_pool_agrees :
    (∀ (p : Propagator) (initial : SatState) (tEnd : Float) (observers : List Observer)
        (listen : Option Nat), p.dynamics.awaiting = false →
      { p with dynamics := (p.propagate initial tEnd observers listen).dynamics }.propagate
        initial tEnd observers listen = p.propagate initial tEnd observers listen) ∧
    (∀ (sim : Simulation) (observers : List Observer) (pool : Pool),
      sim.propagator.dynamics.awaiting = false →
      { sim with propagator :=
          { sim.propagator with dynamics := (sim.run observers pool).dynamics } }.run
        observers pool = sim.run observers pool) ∧
    (∀ (e : Option Pool) (m : DynamicsModel) (t : Float) (s : SatState) (control : LawState),
      (m.withExecutor e).derivative t s control = m.derivative t s control) ∧
    (∀ (sim : Simulation) (observers : List Observer) (pool : Pool),
      sim.propagator.dynamics.executor = none →
      sim.run observers pool =
        sim.propagator.run sim.initial sim.endTime (Observer.newRecorder :: observers)) :=
  ⟨fun p initial tEnd observers listen hq => p.propagate_rerun tEnd listen none hq initial observers,
    fun sim observers pool hq => sim.run_rerun observers pool hq,
    DynamicsModel.derivative_withExecutor,
    Simulation.run_parallel⟩

/-- The sample simulation, built around the sample propagator and its start. -/
def sampleSimulation : Simulation :=
  { (default : Simulation) with propagator := Propagator.samplePropagator,
                                initial := Propagator.sampleState }

theorem sample_runs_repeat :
    Propagator.samplePropagator.dynamics.awaiting = false ∧
    { Propagator.samplePropagator with
        dynamics := (Propagator.samplePropagator.propagate Propagator.sampleState 1.0 []
          none).dynamics }.propagate Propagator.sampleState 1.0 [] none =
      Propagator.samplePropagator.propagate Propagator.sampleState 1.0 [] none ∧
    sampleSimulation.propagator.dynamics.awaiting = false ∧
    { sampleSimulation with propagator :=
        { sampleSimulation.propagator with
          dynamics := (sampleSimulation.run [] default).dynamics } }.run [] default =
      sampleSimulation.run [] default ∧
    sampleSimulation.propagator.dynamics.executor = none ∧
    sampleSimulation.run [] default =
      sampleSimulation.propagator.run sampleSimulation.initial sampleSimulation.endTime
        [Observer.newRecorder] :=
  ⟨rfl, runs_repeat_and_pool_agrees.1 _ _ _ _ _ rfl, rfl,
    runs_repeat_and_pool_agrees.2.1 _ _ _ rfl, rfl, runs_repeat_and_pool_agrees.2.2.2 _ _ _ rfl⟩

/-- The sample propagator under a zero torque, with commanded guidance whose target waits
before the first run. -/
def commandedPropagator : Propagator :=
  { Propagator.samplePropagator with
    dynamics :=
      { body := default
        law := some
          { phases := [⟨"hold", .zero⟩]
            guidance := some (.commanded (some ⟨[0.0, 1.0, 0.0, 0.0], Vec3.zero⟩)) } } }

/-- A target commanded before a first run is latched by that run and is gone from the dynamics
it leaves: a first run of one step ends with the target in its control memory, and a second
run on the dynamics the first left holds the attitude instead. -/
theorem waiting_target_breaks_rerun :
    commandedPropagator.dynamics.awaiting = true ∧
    ((commandedPropagator.propagate Propagator.sampleState 0.5 []).control.bind
      LawState.guidance).map GuidanceMemory.overridden = some true ∧
    (({ commandedPropagator with
        dynamics := (commandedPropagator.propagate Propagator.sampleState 0.5 []).dynamics }.propagate
      Propagator.sampleState 0.5 []).control.bind LawState.guidance).map
        GuidanceMemory.overridden = some false := by
  decide +kernel

end Spacecraft
