import Mathlib
import Spacecraft.Proofs.Propagation.Retry
import Spacecraft.Proofs.Dynamics.Parallel

/-!
# The dynamics never refuse a step

Only the error test of the adaptive method raises `Fault.stepRejected`. Every other
computation of a trial (the state rebuilt from a flat array, the forces, the open-loop
torques, the command of the torque law and Euler's equations) fails, when it fails, with a
fault of another kind. `NoRefusal o` says so of one outcome. It is closed under `pure`,
`bind`, `map`, `if` and `mapM`, so each function of the dynamics has it from the functions it
calls, and the rate function of a run has it at every time and flat state (`rate_noRefusal`).

So a run of the fixed-step method never retries a step: its first trial is the one taken,
with the step the run asks for and no refusal counted (`trials_rungeKutta`).
-/

namespace Spacecraft

/-- An outcome that is not the refusal of a trial step: a success, or a failure with a fault
of another kind. -/
def NoRefusal {α : Type} (o : Outcome α) : Prop := ∀ f, o = .error f → f.isRefusal = false

attribute [simp] Fault.isRefusal

@[simp] theorem Fault.default_eq : (default : Fault) = .invalidArgument "" := rfl

section Combinators

variable {α β : Type}

@[simp] theorem noRefusal_ok (a : α) : NoRefusal (.ok a : Outcome α) := by
  intro f h
  cases h

@[simp] theorem noRefusal_pure (a : α) : NoRefusal (pure a : Outcome α) := noRefusal_ok a

@[simp] theorem noRefusal_error (f : Fault) :
    NoRefusal (.error f : Outcome α) ↔ f.isRefusal = false := by
  constructor
  · intro h
    exact h f rfl
  · intro h f' e
    cases e
    exact h

@[simp] theorem noRefusal_throw (f : Fault) :
    NoRefusal (throw f : Outcome α) ↔ f.isRefusal = false :=
  noRefusal_error f

@[simp] theorem noRefusal_bind (x : Outcome α) (g : α → Outcome β) :
    NoRefusal (x >>= g) ↔ NoRefusal x ∧ ∀ a, x = .ok a → NoRefusal (g a) := by
  cases x with
  | error f =>
    show NoRefusal (.error f : Outcome β) ↔ _
    rw [noRefusal_error, noRefusal_error]
    exact ⟨fun h => ⟨h, fun _ h' => by cases h'⟩, fun h => h.1⟩
  | ok a =>
    show NoRefusal (g a) ↔ _
    exact ⟨fun h => ⟨noRefusal_ok a, fun _ ha => by cases ha; exact h⟩, fun h => h.2 a rfl⟩

@[simp] theorem noRefusal_map (x : Outcome α) (g : α → β) :
    NoRefusal (g <$> x) ↔ NoRefusal x := by
  cases x with
  | error f => exact (noRefusal_error f).trans (noRefusal_error f).symm
  | ok a => exact iff_of_true (noRefusal_ok _) (noRefusal_ok _)

@[simp] theorem noRefusal_ite (c : Prop) [Decidable c] (x y : Outcome α) :
    NoRefusal (if c then x else y) ↔ (c → NoRefusal x) ∧ (¬ c → NoRefusal y) := by
  split_ifs with h <;> simp [h]

/-- Mapping a function that never refuses over a list never refuses. -/
theorem noRefusal_mapM {f : α → Outcome β} (hf : ∀ a, NoRefusal (f a)) :
    ∀ l : List α, NoRefusal (l.mapM f)
  | [] => noRefusal_pure _
  | a :: l => by
    rw [List.mapM_cons]
    simp [hf a, noRefusal_mapM hf l]

end Combinators

/-- A checked division refuses a step only if its fault is a refusal. -/
theorem checkedDiv_noRefusal {K : Type} [Scalar K] {fault : Fault} (h : fault.isRefusal = false)
    (a b : K) : NoRefusal (checkedDiv fault a b) := by
  unfold checkedDiv
  split
  · exact (noRefusal_error fault).2 h
  · exact noRefusal_ok _

@[simp] theorem kernelDiv_checked_noRefusal {K : Type} [Scalar K] (a b : K) :
    NoRefusal (checkedDiv Fault.kernelDivision a b) :=
  checkedDiv_noRefusal rfl a b

@[simp] theorem divOrFault_checked_noRefusal {K : Type} [Scalar K] (a b : K) :
    NoRefusal (checkedDiv Fault.floatDivision a b) :=
  checkedDiv_noRefusal rfl a b

@[simp] theorem kernelDiv_noRefusal (a b : Float) : NoRefusal (kernelDiv a b) :=
  kernelDiv_checked_noRefusal a b

@[simp] theorem divOrFault_noRefusal (a b : Float) : NoRefusal (divOrFault a b) :=
  divOrFault_checked_noRefusal a b

/-! ### Attitude and state -/

namespace Quat

@[simp] theorem ofList_noRefusal (cs : List Float) : NoRefusal (ofList cs) := by
  unfold ofList
  split
  · simp
  · split <;> simp

@[simp] theorem normalizeList_noRefusal (cs : List Float) : NoRefusal (normalizeList cs) := by
  simp [normalizeList]

@[simp] theorem normalize_noRefusal (q : Quat) : NoRefusal q.normalize := by
  simp [normalize]

@[simp] theorem toDcm_noRefusal (q : Quat) : NoRefusal q.toDcm := by
  simp [toDcm, toDcmList]

@[simp] theorem ofDcm_noRefusal (m : Mat3) : NoRefusal (ofDcm m) := by
  simp [ofDcm]

end Quat

namespace SatState

@[simp] theorem checkLength_noRefusal (label : String) (cs : List Float) (n : Nat) :
    NoRefusal (checkLength label cs n) := by
  unfold checkLength
  split <;> simp

@[simp] theorem make_noRefusal (position velocity quaternion angularVelocity : List Float)
    (mass : Float) (inertia : List (List Float)) (time : Float) :
    NoRefusal (make position velocity quaternion angularVelocity mass inertia time) := by
  unfold make
  -- a list of the wrong shape is refused as an argument, never as a step
  rcases Mat3.ofLists? inertia with _ | m
  · simp
  rcases Vec3.ofList? position with _ | p <;> rcases Vec3.ofList? velocity with _ | v <;>
    rcases Vec3.ofList? angularVelocity with _ | w <;> simp

@[simp] theorem ofArray_noRefusal (a : List Float) (inertia : List (List Float)) (time : Float) :
    NoRefusal (ofArray a inertia time) := by
  unfold ofArray
  split <;> simp

@[simp] theorem ofFlat_noRefusal (y : List Float) (inertia : Mat3) (t : Float) :
    NoRefusal (ofFlat y inertia t) := by
  unfold ofFlat
  split <;> simp

@[simp] theorem toBody_noRefusal (s : SatState) (v : Vec3) : NoRefusal (s.toBody v) := by
  simp [toBody, dcm]

end SatState

/-! ### Forces -/

namespace ZonalSeries

@[simp] theorem acceleration_noRefusal {K : Type} [Scalar K] (S : ZonalSeries K) (p : K × K × K) :
    NoRefusal (S.acceleration p) := by
  simp [acceleration, pointMass, j2Term, j3Term, j4Term]

end ZonalSeries

namespace GravityField

@[simp] theorem acceleration_noRefusal (g : GravityField) (p : Vec3) :
    NoRefusal (g.acceleration p) := by
  simp [acceleration]

@[simp] theorem field_noRefusal (g : GravityField) (t : Float) (p : Vec3) :
    NoRefusal (g.field t p) := by
  simp [field]

end GravityField

namespace Atmosphere

@[simp] theorem field_noRefusal (a : Atmosphere) (t : Float) (p : Vec3) :
    NoRefusal (a.field t p) := by
  simp [field, density, atAltitude, belowRange]

end Atmosphere

namespace Eclipse

@[simp] theorem illumination_noRefusal (p sun : Vec3) (model : ShadowModel) (radius : Float) :
    NoRefusal (illumination p sun model radius) := by
  cases model <;> simp [illumination, visibleFraction]

end Eclipse

namespace ForceModel

@[simp] theorem force_noRefusal (f : ForceModel) (t : Float) (s : SatState) (b : Body) :
    NoRefusal (f.force t s b) := by
  cases f with
  | thirdBody body epoch => cases body <;> simp [force]
  | _ => simp [force, radiationAt]

end ForceModel

/-! ### Torques and the torque law -/

namespace Dipole

@[simp] theorem field_noRefusal (d : Dipole) (t : Float) (p : Vec3) : NoRefusal (d.field t p) := by
  simp [field, fieldFixed]

end Dipole

namespace TorqueModel

@[simp] theorem torque_noRefusal (m : TorqueModel) (t : Float) (s : SatState) (b : Body) :
    NoRefusal (m.torque t s b) := by
  cases m <;> simp [torque]

end TorqueModel

namespace Command

@[simp] theorem make_noRefusal (attitude rates : List Float) : NoRefusal (make attitude rates) := by
  unfold make
  simp only [noRefusal_bind, Quat.normalizeList_noRefusal, true_and]
  intro _ _
  split <;> simp

@[simp] theorem target_noRefusal (c : Command) : NoRefusal c.target := by
  unfold target
  split <;> simp

end Command

namespace Guidance

@[simp] theorem initialMemory_noRefusal (g : Guidance) (s : Option SatState) :
    NoRefusal (g.initialMemory s) := by
  unfold initialMemory
  split <;> simp [Command.hold]

@[simp] theorem target_noRefusal (g : Guidance) (t : Float) (s : SatState) (m : GuidanceMemory) :
    NoRefusal (g.target t s m) := by
  unfold target
  split
  · split <;> simp [Command.hold]
  all_goals simp [Command.hold]

end Guidance

@[simp] theorem PdGains.torque_noRefusal (g : PdGains) (s : SatState) (c : Option Command)
    (integral : Vec3) : NoRefusal (g.torque s c integral) := by
  unfold torque attitudeError
  cases c <;> simp

@[simp] theorem FieldRateSensing.heldTorque_noRefusal (r : FieldRateSensing) (t : Float)
    (s : SatState) (e : Option FieldRateEstimate) : NoRefusal (r.heldTorque t s e) := by
  cases e <;> simp [heldTorque]

@[simp] theorem Policy.torque_noRefusal (p : Policy) (t : Float) (s : SatState) (b : Body)
    (c : Option Command) (integral : Vec3) : NoRefusal (p.torque t s b c integral) := by
  cases p <;> simp [torque, bdotDipole]

namespace TorqueLaw

@[simp] theorem policyAt_noRefusal (law : TorqueLaw) (i : Nat) : NoRefusal (law.policyAt i) := by
  unfold policyAt
  split <;> simp

@[simp] theorem reference_noRefusal (law : TorqueLaw) (t : Float) (s : SatState) (ls : LawState) :
    NoRefusal (law.reference t s ls) := by
  unfold reference
  split
  · simp
  · split <;> simp

@[simp] theorem command_noRefusal (law : TorqueLaw) (t : Float) (s : SatState) (b : Body)
    (ls : LawState) : NoRefusal (law.command t s b ls) := by
  unfold command
  simp only [noRefusal_bind, policyAt_noRefusal, true_and]
  intro p _
  cases p <;> simp

end TorqueLaw

/-! ### Euler's equations and the derivative -/

@[simp] theorem Linear.solve_noRefusal (m : Mat3) (b : Vec3) : NoRefusal (Linear.solve m b) := by
  unfold Linear.solve
  split
  simp

@[simp] theorem RigidBody.angularAcceleration_noRefusal (inertia : Mat3) (w torque : Vec3) :
    NoRefusal (RigidBody.angularAcceleration inertia w torque) := by
  simp [RigidBody.angularAcceleration, RigidBody.eulerPrincipal, RigidBody.eulerGeneral]

namespace DynamicsModel

@[simp] theorem checked_noRefusal (source : String) (t : Float) (v : List Float) :
    NoRefusal (checked source t v) := by
  unfold checked
  split
  · split <;> simp
  · simp

theorem evaluate_noRefusal {α β : Type} (m : DynamicsModel) {f : α → Outcome β}
    (hf : ∀ a, NoRefusal (f a)) (models : List α) : NoRefusal (m.evaluate f models) := by
  rw [evaluate_eq_mapM]
  exact noRefusal_mapM hf models

@[simp] theorem openLoop_noRefusal (m : DynamicsModel) (t : Float) (s : SatState) :
    NoRefusal (m.openLoop t s) := by
  unfold openLoop
  simp [evaluate_noRefusal, noRefusal_mapM]

@[simp] theorem contributions_noRefusal (m : DynamicsModel) (t : Float) (s : SatState)
    (control : LawState) : NoRefusal (m.contributions t s control) := by
  unfold contributions
  simp only [noRefusal_bind, openLoop_noRefusal, true_and]
  intro _ _
  split <;> simp

@[simp] theorem derivative_noRefusal (m : DynamicsModel) (t : Float) (s : SatState)
    (control : LawState) : NoRefusal (m.derivative t s control) := by
  simp [derivative, rateOf]

end DynamicsModel

/-- The right-hand side of a run's state equation never refuses: only the adaptive method
does. -/
theorem rate_noRefusal (d : DynamicsModel) (inertia : Mat3) (control : Option LawState)
    (t : Float) (y : List Float) : NoRefusal (Propagator.rate d inertia control t y) := by
  simp [Propagator.rate]

namespace Integrator

/-- A trial of the fixed-step method fails only where its rate function fails, so it is
never refused when the rate function never is. -/
theorem attempt_rungeKutta_noRefusal {f : RateFunction} (hf : ∀ t y, NoRefusal (f t y))
    (stepSize t : Float) (y : List Float) (h : Float) :
    NoRefusal ((rungeKutta stepSize).attempt f t y h) := by
  simp [attempt, hf]

theorem refuses_eq_false {i : Integrator} {f : RateFunction} {t : Float} {y : List Float}
    {h : Float} (hn : NoRefusal (i.attempt f t y h)) : i.refuses f t y h = false := by
  unfold refuses
  split
  · next e he => exact hn e he
  · rfl

/-- No trial of the fixed-step method is refused. -/
theorem refusals_rungeKutta {f : RateFunction} (hf : ∀ t y, NoRefusal (f t y))
    (stepSize t : Float) (y : List Float) (h : Float) (n : Nat) :
    (rungeKutta stepSize).refusals f t y h n = 0 := by
  cases n with
  | zero => rfl
  | succ n =>
    rw [refusals, refuses_eq_false (attempt_rungeKutta_noRefusal hf stepSize t y h)]
    rfl

end Integrator

namespace Propagator

/-- A step of the fixed-step method is its first trial: the step the run asks for, taken
without a refusal. -/
theorem trials_rungeKutta {p : Propagator} {stepSize : Float}
    (hi : p.integrator = .rungeKutta stepSize) (tEnd : Float) (g : Progress) :
    p.trials tEnd g =
      (p.integrator.attempt (rate g.dynamics g.state.inertia g.control) g.state.time
        g.state.toArray (firstTrial tEnd g)).map (fun o => (o, firstTrial tEnd g, 0)) := by
  have hr := Integrator.refusals_rungeKutta (rate_noRefusal g.dynamics g.state.inertia g.control)
    stepSize g.state.time g.state.toArray (firstTrial tEnd g) (p.limits.maxRejections.toNat + 1)
  rw [trials, attemptHalving_eq, hi, hr, ← hi]
  simp

end Propagator

end Spacecraft
