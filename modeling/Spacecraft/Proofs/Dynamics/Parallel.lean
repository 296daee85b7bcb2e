import Mathlib
import Spacecraft.Proofs.Dynamics.Diagnostics
import Spacecraft.Proofs.Propagation.Run
import Spacecraft.Simulation

/-!
# Evaluation by a worker pool

A worker pool completes the tasks it is given in an order of its own, but hands the results
back sorted by the place of their tasks, so that the first task in submission order that
failed raises its failure. Whatever the order of completion, that is the serial map of the
function over the tasks (`Pool.map_eq_mapM`): the results are the same floats in the same
order, and a failure is the same failure.

So the forces, the torques and the state derivative of a model do not depend on its pool
(`derivative_withExecutor`), and neither does anything a run computes from them: a run with a
pool is the run without one, the pool carried along in the dynamics it leaves
(`propagate_withExecutor`). A simulation that asks for parallel evaluation runs exactly as the
serial simulation does (`run_parallel`).
-/

namespace Spacecraft

open Tracked

/-- Reading a list at every place below its length gives the list back. -/
theorem List.filterMap_range_getElem? {α β : Type} (l : List α) (h : α → β) :
    (List.range l.length).filterMap (fun i => l[i]?.map h) = l.map h := by
  induction l with
  | nil => rfl
  | cons a l ih =>
    rw [List.length_cons, List.range_succ_eq_map, List.filterMap_cons, List.filterMap_map]
    simp only [List.getElem?_cons_zero, Option.map_some, List.map_cons, Function.comp_def,
      List.getElem?_cons_succ]
    rw [ih]

namespace Pool

variable {α β : Type}

/-- The results of the tasks, each with the place of its task, in submission order. -/
def indexed (f : α → Outcome β) (tasks : List α) : List (Nat × Outcome β) :=
  (List.range tasks.length).filterMap fun i => tasks[i]?.map fun a => (i, f a)

theorem mem_indexed {f : α → Outcome β} {tasks : List α} {x : Nat × Outcome β}
    (h : x ∈ indexed f tasks) : ∃ a, tasks[x.1]? = some a ∧ x.2 = f a := by
  obtain ⟨i, -, hi⟩ := List.mem_filterMap.1 h
  obtain ⟨a, ha, rfl⟩ := Option.map_eq_some_iff.1 hi
  exact ⟨a, ha, rfl⟩

/-- The results in submission order are in order of their places. -/
theorem pairwise_indexed (f : α → Outcome β) (tasks : List α) :
    (indexed f tasks).Pairwise fun x y => x.1 ≤ y.1 := by
  refine List.pairwise_filterMap.2 (List.pairwise_lt_range.imp fun {i j} hij => ?_)
  intro x hx y hy
  obtain ⟨_, -, rfl⟩ := Option.map_eq_some_iff.1 hx
  obtain ⟨_, -, rfl⟩ := Option.map_eq_some_iff.1 hy
  exact hij.le

/-- The results as the pool collects them are those of the tasks in some order. -/
theorem perm_indexed (pool : Pool) (f : α → Outcome β) (tasks : List α) :
    ((pool.completion tasks.length).filterMap fun i => tasks[i]?.map fun a => (i, f a)).Perm
      (indexed f tasks) :=
  (pool.completion_perm tasks.length).filterMap _

/-- Sorting the results as they completed by the places of their tasks restores submission
order: no two results share a place. -/
theorem mergeSort_completed (pool : Pool) (f : α → Outcome β) (tasks : List α) :
    ((pool.completion tasks.length).filterMap fun i => tasks[i]?.map fun a => (i, f a)).mergeSort
      (fun x y => x.1 ≤ y.1) = indexed f tasks := by
  have hsorted := @List.pairwise_mergeSort _ (fun x y : Nat × Outcome β => decide (x.1 ≤ y.1))
    (fun _ _ _ hxy hyz => by simp only [decide_eq_true_eq] at *; omega)
    (fun x y => by simp only [Bool.or_eq_true, decide_eq_true_eq]; omega)
    ((pool.completion tasks.length).filterMap fun i => tasks[i]?.map fun a => (i, f a))
  simp only [decide_eq_true_eq] at hsorted
  have hperm := (List.mergeSort_perm _ fun x y : Nat × Outcome β => decide (x.1 ≤ y.1)).trans
    (perm_indexed pool f tasks)
  refine hperm.eq_of_pairwise (fun x y hx hy hxy hyx => ?_) hsorted (pairwise_indexed f tasks)
  -- two results at one place come from the same task
  obtain ⟨a, ha, hxa⟩ := mem_indexed (hperm.subset hx)
  obtain ⟨b, hb, hyb⟩ := mem_indexed hy
  have hkey : x.1 = y.1 := le_antisymm hxy hyx
  rw [hkey, hb, Option.some.injEq] at ha
  rw [Prod.ext_iff, hxa, hyb, ha]
  exact ⟨hkey, rfl⟩

/-- Whatever order a pool completes its tasks in, mapping through it is the serial map. -/
theorem map_eq_mapM (pool : Pool) (f : α → Outcome β) (tasks : List α) :
    pool.map f tasks = tasks.mapM f := by
  have hsnd : (indexed f tasks).map Prod.snd = tasks.map f := by
    rw [indexed, List.map_filterMap]
    simp only [Option.map_map, Function.comp_def]
    exact List.filterMap_range_getElem? tasks f
  rw [map, mergeSort_completed, hsnd, List.mapM_map]
  rfl

end Pool

namespace DynamicsModel

/-- The model with its worker pool replaced. -/
def withExecutor (e : Option Pool) (m : DynamicsModel) : DynamicsModel := { m with executor := e }

@[simp] theorem withExecutor_withExecutor (e e' : Option Pool) (m : DynamicsModel) :
    (m.withExecutor e).withExecutor e' = m.withExecutor e' := rfl

theorem withExecutor_executor (m : DynamicsModel) : m.withExecutor m.executor = m := rfl

/-- Evaluating through a pool or one model after another gives the same values. -/
theorem evaluate_eq_mapM {α β : Type} (m : DynamicsModel) (f : α → Outcome β) (models : List α) :
    m.evaluate f models = models.mapM f := by
  unfold evaluate
  split
  · split_ifs
    · rfl
    · exact Pool.map_eq_mapM _ f models
  · rfl

theorem openLoop_withExecutor (e : Option Pool) (m : DynamicsModel) (t : Float) (s : SatState) :
    (m.withExecutor e).openLoop t s = m.openLoop t s := by
  simp only [openLoop, evaluate_eq_mapM]
  rfl

theorem contributions_withExecutor (e : Option Pool) (m : DynamicsModel) (t : Float)
    (s : SatState) (control : LawState) :
    (m.withExecutor e).contributions t s control = m.contributions t s control := by
  simp only [contributions, openLoop_withExecutor]
  rfl

/-- The derivative does not depend on the pool: the same floats, or the same failure. -/
theorem derivative_withExecutor (e : Option Pool) (m : DynamicsModel) (t : Float) (s : SatState)
    (control : LawState) :
    (m.withExecutor e).derivative t s control = m.derivative t s control := by
  simp only [derivative, contributions_withExecutor]

theorem reset_withExecutor (e : Option Pool) (m : DynamicsModel) :
    (m.withExecutor e).reset = m.reset.map (withExecutor e) := by
  simp only [reset, withExecutor]
  rcases m.torques.mapM TorqueModel.reset with _ | torques <;> rfl

theorem runFrom_initialControl_withExecutor (e : Option Pool) (s : SatState) (m : DynamicsModel) :
    runFrom (initialControl s) (m.withExecutor e) =
      ((runFrom (initialControl s) m).1, (runFrom (initialControl s) m).2.withExecutor e) := by
  rw [runFrom_initialControl, runFrom_initialControl]
  rcases m with ⟨body, forces, torques, _ | law, executor⟩ <;> rfl

theorem runFrom_advance_withExecutor (e : Option Pool) (t : Float) (s : SatState)
    (c : Option LawState) (m : DynamicsModel) :
    runFrom (advance t s c) (m.withExecutor e) =
      ((runFrom (advance t s c) m).1, (runFrom (advance t s c) m).2.withExecutor e) := by
  obtain ⟨body, forces, torques, law, executor⟩ := m
  simp only [advance, withExecutor, runFrom_get_bind, runFrom_lift_bind]
  rcases torques.mapM TorqueModel.advance with _ | torques
  · rfl
  · simp only [runFrom_bind, runFrom_set]
    rcases law with _ | law <;> rcases c with _ | ls
    all_goals simp only [onLaw, runFrom_map, runFrom_focus, runFrom_pure]

end DynamicsModel

/-- Where a run stands, with the pool of its dynamics replaced. -/
def Progress.withExecutor (e : Option Pool) (g : Progress) : Progress :=
  { g with dynamics := g.dynamics.withExecutor e }

/-- How a loop ended, with the pool of its dynamics replaced. -/
def Ending.withExecutor (e : Option Pool) (en : Ending) : Ending :=
  { en with progress := en.progress.withExecutor e }

/-- What a run left, with the pool of its dynamics replaced. -/
def RunRecord.withExecutor (e : Option Pool) (r : RunRecord) : RunRecord :=
  { r with dynamics := r.dynamics.withExecutor e }

namespace Propagator

variable (p : Propagator) (tEnd : Float) (listen : Option Nat) (interrupt : Option Interrupt)
  (e : Option Pool)

theorem rate_withExecutor (d : DynamicsModel) (inertia : Mat3) (control : Option LawState) :
    rate (d.withExecutor e) inertia control = rate d inertia control := by
  funext tau y
  simp only [rate, DynamicsModel.derivative_withExecutor]

theorem advanceOnce_withExecutor (g : Progress) :
    p.advanceOnce tEnd (g.withExecutor e) =
      ((p.advanceOnce tEnd g).1.withExecutor e, (p.advanceOnce tEnd g).2) := by
  obtain ⟨state, control, dynamics, observers, step, steps, rejected, stop⟩ := g
  unfold advanceOnce Progress.withExecutor
  dsimp only
  simp only [rate_withExecutor, DynamicsModel.runFrom_advance_withExecutor]
  -- the step makes the same four decisions with and without the pool: the trials, the
  -- rebuilt state, its checks and the advance of the dynamics
  split
  next _ h => simp only [h]
  next o hUsed refusals h =>
    simp only [h]
    split
    next => rfl
    next s _ =>
      split
      next => rfl
      next => split <;> rfl

theorem halt_withExecutor (g : Progress) :
    p.halt tEnd (g.withExecutor e) = (p.halt tEnd g).map (Ending.withExecutor e) := by
  obtain ⟨state, control, dynamics, observers, step, steps, rejected, stop⟩ := g
  unfold halt Progress.withExecutor
  split_ifs <;> rfl

theorem after_withExecutor (g : Progress) (f : Option Fault) :
    after listen interrupt (g.withExecutor e) f = (after listen interrupt g f).map (Ending.withExecutor e) := by
  cases f with
  | some _ => rfl
  | none =>
    unfold after Progress.withExecutor
    dsimp only
    split_ifs <;> rfl

/-- The loop of a run with a pool is the loop without it, the pool carried along. -/
theorem loop_withExecutor (fuel : Nat) (g : Progress) :
    p.loop tEnd listen interrupt fuel (g.withExecutor e) =
      (p.loop tEnd listen interrupt fuel g).withExecutor e := by
  induction fuel generalizing g with
  | zero => rfl
  | succ fuel ih =>
    rw [loop_succ, loop_succ, halt_withExecutor]
    cases p.halt tEnd g with
    | some _ => rfl
    | none =>
      dsimp only [Option.map_none]
      rw [advanceOnce_withExecutor, after_withExecutor]
      cases after listen interrupt (p.advanceOnce tEnd g).1 (p.advanceOnce tEnd g).2 with
      | some _ => rfl
      | none => exact ih _

section Dynamics

/-! The steps of a run read the method and the limits of the propagator; the dynamics they
work on are those of the progress, not those the propagator was built with. -/

variable (d : DynamicsModel)

theorem attemptHalving_withDynamics (f : RateFunction) (t : Float) (y : List Float)
    (fuel : Nat) (h : Float) (refusals : Nat) :
    { p with dynamics := d }.attemptHalving f t y fuel h refusals =
      p.attemptHalving f t y fuel h refusals := by
  induction fuel generalizing h refusals with
  | zero => rfl
  | succ fuel ih => simp only [attemptHalving, ih]

theorem advanceOnce_withDynamics (g : Progress) :
    { p with dynamics := d }.advanceOnce tEnd g = p.advanceOnce tEnd g := by
  simp only [advanceOnce, attemptHalving_withDynamics]
  rfl

theorem loop_withDynamics (fuel : Nat) (g : Progress) :
    { p with dynamics := d }.loop tEnd listen interrupt fuel g = p.loop tEnd listen interrupt fuel g := by
  induction fuel generalizing g with
  | zero => rfl
  | succ fuel ih =>
    rw [loop_succ, loop_succ, advanceOnce_withDynamics, ih]
    rfl

end Dynamics

/-- A run with a pool is the run without one, the pool carried along in the dynamics it
leaves. -/
theorem propagate_withExecutor (initial : SatState) (observers : List Observer) :
    { p with dynamics := p.dynamics.withExecutor e }.propagate initial tEnd observers listen
        interrupt =
      (p.propagate initial tEnd observers listen interrupt).withExecutor e := by
  unfold propagate
  by_cases hlate : tEnd < initial.time
  · rw [if_pos hlate, if_pos hlate]
    rfl
  by_cases hl : (listen == some 0) = true
  · rw [if_neg hlate, if_neg hlate, if_pos hl, if_pos hl]
    rfl
  rw [if_neg hlate, if_neg hlate, if_neg hl, if_neg hl]
  rcases initial.copy with _ | s
  · rfl
  dsimp only
  rw [DynamicsModel.reset_withExecutor]
  rcases p.dynamics.reset with _ | d
  · rfl
  dsimp only [Except.map]
  rw [DynamicsModel.runFrom_initialControl_withExecutor]
  rcases Tracked.runFrom (DynamicsModel.initialControl s) d with ⟨_ | c, d'⟩
  · rfl
  dsimp only
  rw [apply_ite (RunRecord.withExecutor e)]
  rcases (startEach s [] observers).2 with _ | _
  · by_cases hi : (interrupt == some (.told 0)) = true
    · simp only [hi, if_true]
      rfl
    simp only [hi, Bool.false_eq_true, if_false]
    rw [loop_withDynamics]
    -- the loop starts from the progress without the pool, the pool put in
    have hloop := loop_withExecutor p tEnd listen interrupt e (p.limits.maxSteps.toNat + 1)
      { state := s, control := c, dynamics := d', observers := (startEach s [] observers).1,
        step := p.integrator.initialStep s.time tEnd,
        calls := roundCalls .start (fun o => !(o.start s).isOk) 0 observers }
    rw [Progress.withExecutor] at hloop
    dsimp only at hloop
    rw [hloop]
    rfl
  · rfl

theorem run_withExecutor (initial : SatState) (observers : List Observer) :
    { p with dynamics := p.dynamics.withExecutor e }.run initial tEnd observers =
      (p.run initial tEnd observers).withExecutor e := by
  unfold run
  rw [propagate_withExecutor]
  rcases p.propagate initial tEnd observers with
    ⟨summary, escaped, interrupted, observers, control, dynamics, calls⟩
  dsimp only [RunRecord.withExecutor]
  split <;> rfl

/-- A run leaves the dynamics with the pool they started with. -/
theorem executor_run (initial : SatState) (observers : List Observer) :
    (p.run initial tEnd observers).dynamics.executor = p.dynamics.executor := by
  have h := run_withExecutor p tEnd p.dynamics.executor initial observers
  rw [DynamicsModel.withExecutor_executor] at h
  rw [h]
  rfl

end Propagator

namespace Simulation

/-- A simulation that asks for parallel evaluation runs as the serial simulation does, whatever
order its pool completes the evaluations in: the same states, summary, control memory and
dynamics. -/
theorem run_parallel (sim : Simulation) (observers : List Observer) (pool : Pool)
    (hserial : sim.propagator.dynamics.executor = none) :
    sim.run observers pool =
      sim.propagator.run sim.initial sim.endTime (Observer.newRecorder :: observers) := by
  unfold run
  split_ifs
  · have h := sim.propagator.run_withExecutor sim.endTime (some pool) sim.initial
      (Observer.newRecorder :: observers)
    rw [DynamicsModel.withExecutor] at h
    rw [h]
    have hnone := sim.propagator.executor_run sim.endTime sim.initial
      (Observer.newRecorder :: observers)
    rw [hserial] at hnone
    -- putting the pool in and taking it out again gives the serial run back
    generalize sim.propagator.run sim.initial sim.endTime (Observer.newRecorder :: observers) = r
      at hnone ⊢
    obtain ⟨summary, escaped, interrupted, observers, control,
      ⟨body, forces, torques, law, executor⟩, calls⟩ := r
    cases hnone
    rfl
  · rfl

end Simulation

end Spacecraft
