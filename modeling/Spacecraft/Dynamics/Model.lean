import Spacecraft.Dynamics.Force
import Spacecraft.Dynamics.Torque
import Spacecraft.Control.Law
import Spacecraft.Numeric.Solve
import Spacecraft.Attitude.Quaternion

/-!
# The coupled orbit and attitude model

A `DynamicsModel` holds the satellite body, the force models, the open-loop torque models,
an optional torque law and an optional worker pool. At a time and state the forces are
evaluated and each checked to be three finite components, then the torques; a worker pool,
when there is one, evaluates a list of models at once and hands the values back in order.
The law's torque, read from the control memory, comes last; without control memory the law
first sets one up from the state, which reads its sensors. The state derivative is

    ṙ = v,   v̇ = ΣF / m,   q̇ = ½ q ⊗ [0, ω],   ω̇ = I⁻¹ (Στ − ω × I ω),   ṁ = 0,

with the sums taken from zero in the order of the contributions.

Between accepted steps the torque models move on (a random disturbance draws its next
value) and then the law's memory does; `reset` puts every model back to its first draw.
-/

/-! ## Worker pools

A pool of worker threads maps a fallible function over a list of tasks: every task is
submitted at once and runs to its end, and the tasks complete in an order the pool chooses.
Each result comes back tagged with the place of its task, and the results are handed back in
the order the tasks were submitted, so that the first task in that order that failed raises
its failure.
-/

namespace Spacecraft

/-- A pool of worker threads, given by the order in which it completes `n` submitted tasks:
some order of all of them. -/
structure Pool where
  completion : Nat → List Nat
  completion_perm : ∀ n, (completion n).Perm (List.range n)

namespace Pool

/-- The pool that completes its tasks in the order they were submitted. -/
def inOrder : Pool := ⟨List.range, fun _ => List.Perm.refl _⟩

instance : Inhabited Pool := ⟨inOrder⟩

/-- The results of `f` over the tasks as the pool hands them back: collected as the tasks
complete, each with the place of its task, then put back in the order of submission. -/
def map {α β : Type} (pool : Pool) (f : α → Outcome β) (tasks : List α) : Outcome (List β) :=
  let finished := (pool.completion tasks.length).filterMap fun i => tasks[i]?.map fun a => (i, f a)
  ((finished.mergeSort fun a b => a.1 ≤ b.1).map Prod.snd).mapM id

end Pool

end Spacecraft

/-! ## Rigid-body motion

Attitude kinematics `q̇ = ½ q ⊗ [0, ω]`, Euler's equations `I ω̇ = M - ω × (I ω)` for a general
inertia tensor (by a linear solve) and for principal axes (component form, where a zero
principal moment is a division by zero), and Newton's law for the translation.
-/

namespace Spacecraft

namespace RigidBody

/-- The time derivative of the attitude quaternion for a body angular velocity. -/
def quaternionRate (q : Quat) (w : Vec3) : Quat :=
  ⟨0.5 * (-w.x * q.x - w.y * q.y - w.z * q.z),
   0.5 * (w.x * q.w + w.z * q.y - w.y * q.z),
   0.5 * (w.y * q.w - w.z * q.x + w.x * q.z),
   0.5 * (w.z * q.w + w.y * q.x - w.x * q.y)⟩

/-- The gyroscopic torque `ω × (I ω)`. -/
def gyroscopic (inertia : Mat3) (w : Vec3) : Vec3 := w.cross (inertia.mulVec w)

/-- Angular acceleration from Euler's equations with a general inertia tensor, the system
solved by `gesv`'s LU factorization with partial pivoting. -/
def eulerGeneral (w moment : Vec3) (inertia : Mat3) : Outcome Vec3 :=
  Linear.solve inertia (moment - gyroscopic inertia w)

/-- Angular acceleration for a body in its principal axes; a zero principal moment is a
division by zero. -/
def eulerPrincipal (w moment principal : Vec3) : Outcome Vec3 := do
  let ax ← kernelDiv (moment.x - (principal.z - principal.y) * w.y * w.z) principal.x
  let ay ← kernelDiv (moment.y - (principal.x - principal.z) * w.z * w.x) principal.y
  let az ← kernelDiv (moment.z - (principal.y - principal.x) * w.x * w.y) principal.z
  pure ⟨ax, ay, az⟩

/-- Newton's second law, `F / m` per component. -/
def translational (force : Vec3) (mass : Float) : Vec3 := force.divScalar mass

/-- Angular acceleration for a spin and a total torque: the principal-axis form when every
off-diagonal entry of the inertia tensor is zero, the linear solve otherwise. -/
def angularAcceleration (inertia : Mat3) (w torque : Vec3) : Outcome Vec3 :=
  if inertia.isDiagonal then eulerPrincipal w torque inertia.diagonal
  else eulerGeneral w torque inertia

end RigidBody

end Spacecraft

namespace Spacecraft

/-- A force [N] or torque [N·m] with the name of the model that produced it. -/
structure Contribution where
  source : String
  vector : Vec3
deriving Inhabited

/-- The time derivative of a state, laid out as the state. -/
structure StateRate where
  position : Vec3
  velocity : Vec3
  quaternion : Quat
  angularVelocity : Vec3
  mass : Float
deriving Inhabited

/-- The fourteen rates in the order of `SatState.toArray`. -/
def StateRate.toArray (r : StateRate) : List Float :=
  r.position.toList ++ r.velocity.toList ++ r.quaternion.toList ++ r.angularVelocity.toList ++
    [r.mass]

/-- The sum of the vectors of some contributions, from zero in their order. -/
def Contribution.total (cs : List Contribution) : Vec3 :=
  cs.foldl (fun acc c => acc + c.vector) Vec3.zero

/-- The models that move the satellite. -/
structure DynamicsModel where
  body : Body
  forces : List ForceModel := []
  torques : List TorqueModel := []
  law : Option TorqueLaw := none
  executor : Option Pool := none
deriving Inhabited

namespace DynamicsModel

/-- A contribution as three finite components; any other shape, or a component that is not
finite, is divergence at `t`. -/
def checked (source : String) (t : Float) (v : List Float) : Outcome Contribution :=
  match v with
  | [x, y, z] =>
    if x.isFinite && y.isFinite && z.isFinite then pure ⟨source, ⟨x, y, z⟩⟩
    else throw (.divergence ("Contributor " ++ source ++ " returned a non-finite value") (some t))
  | _ => throw (.divergence ("Contributor " ++ source ++ " returned shape " ++
      shapeText v.length) (some t))

/-- The values of some models at a point: through the worker pool when there is one and
there are at least two models, otherwise one after another. -/
def evaluate {α β : Type} (m : DynamicsModel) (f : α → Outcome β) (models : List α) :
    Outcome (List β) :=
  match m.executor with
  | some pool => if models.length < 2 then models.mapM f else pool.map f models
  | none => models.mapM f

/-- The forces and the open-loop torques at `t` and `s`: every force is evaluated and then
each is checked, and then the same for the torques. -/
def openLoop (m : DynamicsModel) (t : Float) (s : SatState) :
    Outcome (List Contribution × List Contribution) := do
  let forceValues ← m.evaluate (fun f => f.force t s m.body) m.forces
  let forces ← (m.forces.zip forceValues).mapM fun (f, v) => checked f.name t v.toList
  let torqueValues ← m.evaluate (fun c => c.torque t s m.body) m.torques
  let torques ← (m.torques.zip torqueValues).mapM fun (c, v) => checked c.name t v.toList
  pure (forces, torques)

/-- The forces and torques at `t` and `s`, with the law read from `control`. -/
def contributions (m : DynamicsModel) (t : Float) (s : SatState) (control : LawState) :
    Outcome (List Contribution × List Contribution) := do
  let (forces, torques) ← m.openLoop t s
  match m.law with
  | none => pure (forces, torques)
  | some law => do
    let tau ← law.command t s m.body control
    let c ← checked law.name t tau
    pure (forces, torques ++ [c])

/-- The state derivative at `s` under some forces and torques. -/
def rateOf (s : SatState) (forces torques : List Contribution) : Outcome StateRate := do
  let spin ← RigidBody.angularAcceleration s.inertia s.angularVelocity (Contribution.total torques)
  pure { position := s.velocity
         velocity := RigidBody.translational (Contribution.total forces) s.mass
         quaternion := RigidBody.quaternionRate s.quaternion s.angularVelocity
         angularVelocity := spin
         mass := 0.0 }

/-- The state derivative at `t` and `s`. -/
def derivative (m : DynamicsModel) (t : Float) (s : SatState) (control : LawState) :
    Outcome StateRate := do
  let (forces, torques) ← m.contributions t s control
  rateOf s forces torques

/-- A computation on the torque law of the model. -/
def onLaw {α : Type} (m : Tracked TorqueLaw α) : Tracked DynamicsModel α :=
  Tracked.focus (fun d => d.law.getD default) (fun d law => { d with law := some law }) m

/-- The control memory at the start of a run, if the model has a law. -/
def initialControl (s : SatState) : Tracked DynamicsModel (Option LawState) := do
  match (← get).law with
  | none => pure none
  | some _ => some <$> onLaw (TorqueLaw.initialState s)

/-- The forces and torques at `t` and `s` as a caller outside a run asks for them, with or
without control memory: without it, a law first sets up the memory of a run starting at `s`,
after the forces and the open-loop torques have been evaluated. -/
def contributionsAt (t : Float) (s : SatState) (control : Option LawState) :
    Tracked DynamicsModel (List Contribution × List Contribution) := do
  let (forces, torques) ← Tracked.lift ((← get).openLoop t s)
  let control ← match control with
    | some ls => pure (some ls)
    | none => initialControl s
  let m ← get
  match m.law, control with
  | some law, some ls => Tracked.lift do
    let tau ← law.command t s m.body ls
    let c ← checked law.name t tau
    pure (forces, torques ++ [c])
  | _, _ => pure (forces, torques)

/-- The sum of the forces at `t` and `s` [N], asked for without control memory. -/
def totalForce (t : Float) (s : SatState) : Tracked DynamicsModel Vec3 := do
  let (forces, _) ← contributionsAt t s none
  pure (Contribution.total forces)

/-- The state derivative at `t` and `s` as a caller outside a run asks for it. -/
def computeDerivative (t : Float) (s : SatState) (control : Option LawState) :
    Tracked DynamicsModel StateRate := do
  let (forces, torques) ← contributionsAt t s control
  Tracked.lift (rateOf s forces torques)

/-- Every model back at its first draw, the law's sensors at their seeds. -/
def reset (m : DynamicsModel) : Outcome DynamicsModel := do
  let torques ← m.torques.mapM TorqueModel.reset
  pure { m with torques, law := m.law.map TorqueLaw.reset }

/-- After an accepted step ending at `t` in `s`: the torque models move on, then the law's
memory. -/
def advance (t : Float) (s : SatState) (control : Option LawState) :
    Tracked DynamicsModel (Option LawState) := do
  let m ← get
  let torques ← Tracked.lift (m.torques.mapM TorqueModel.advance)
  set { m with torques }
  match m.law, control with
  | some _, some ls => some <$> onLaw (TorqueLaw.advance t s m.body ls)
  | _, c => pure c

end DynamicsModel

end Spacecraft
