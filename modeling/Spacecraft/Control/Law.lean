import Spacecraft.Control.Policy
import Spacecraft.Guidance.Pointing

/-!
# Phase-scheduled torque laws

A torque law is an ordered list of phases, each with a control policy, and a table of
transitions `(source, condition, target)`. One phase is active at a time. Every transition
moves to a later phase, so the active index never decreases, and a phase that no row leaves
is terminal.

The memory the law carries between accepted steps is a `LawState`: the active phase and
when it began, the time of the last accepted step, the integral of the attitude error, the
guidance memory and the sensor memory of an estimating policy. `TorqueLaw.command` only
reads it; `TorqueLaw.advance` is taken once per accepted step, so rejected trial steps never
touch it. The sensors inside the law (a magnetometer of a policy, a gyrometer of a
condition) and the pending target of commanded guidance are part of the law itself, so the
steps that read or latch them are `Tracked` computations over the law.
-/

namespace Spacecraft

/-- The control memory carried between accepted steps. -/
structure LawState where
  phaseIndex : Nat := 0
  phaseStart : Float := 0.0
  time : Float := 0.0
  integral : Vec3 := Vec3.zero
  guidance : Option GuidanceMemory := none
  estimate : Option FieldRateEstimate := none
deriving Inhabited

/-- A condition checked after an accepted step. -/
inductive Condition where
  /-- The spin rate, or a gyrometer's reading of it, is below a threshold [rad/s]. -/
  | spinRateBelow (threshold : Float) (gyrometer : Option Sensor)
  /-- The active phase has lasted at least a duration [s]. -/
  | elapsedInPhase (duration : Float)
  /-- The angle to the guidance target is below a threshold [rad]. -/
  | attitudeErrorBelow (threshold : Float)
  /-- The time has reached a given time [s]. -/
  | timeAfter (time : Float)
deriving Inhabited

namespace Condition

/-- Whether the condition holds at `t` and `s`, with the law state before the step and
the guidance reference. A gyrometer reading moves the gyrometer on. -/
def isMet (t : Float) (s : SatState) (ls : LawState) (reference : Option Command) :
    Tracked Condition Bool := do
  match ← get with
  | .spinRateBelow threshold none => pure (s.spinRate < threshold)
  | .spinRateBelow threshold (some g) =>
    Tracked.focus (fun _ => g) (fun _ g => .spinRateBelow threshold (some g)) do
      let w ← Sensor.read (pure s.angularVelocity)
      pure (w.norm < threshold)
  | .elapsedInPhase duration => pure (t - ls.phaseStart ≥ duration)
  | .attitudeErrorBelow threshold =>
    match reference with
    | none => pure false
    | some c => do
      let target ← Tracked.lift c.target
      pure ((Quat.error s.quaternion target).angle < threshold)
  | .timeAfter time => pure (t ≥ time)

/-- The condition restarted for a new run. -/
def reset : Condition → Condition
  | .spinRateBelow threshold (some g) => .spinRateBelow threshold (some g.reset)
  | c => c

end Condition

/-- A named phase of a torque law. -/
structure Phase where
  name : String
  policy : Policy
deriving Inhabited

/-- A row of the transition table: leave `source` for `target` when `condition` holds. -/
structure Transition where
  source : Int
  condition : Condition
  target : Int
deriving Inhabited

/-- A phase-scheduled torque law. -/
structure TorqueLaw where
  phases : List Phase
  transitions : List Transition := []
  guidance : Option Guidance := none
  name : String := "torque_law"
deriving Inhabited

namespace TorqueLaw

/-- The refusal of a transition table: a row must join two existing phases and move
forwards. -/
def checkTable (phaseCount : Nat) : List Transition → Outcome Unit
  | [] => pure ()
  | row :: rows => do
    let n : Int := phaseCount
    let arrow := toString row.source ++ " -> " ++ toString row.target
    unless 0 ≤ row.source && row.source < n && 0 ≤ row.target && row.target < n do
      throw (.configuration ("Transition " ++ arrow ++ " references a phase outside 0.." ++
        toString (n - 1)))
    unless row.source < row.target do
      throw (.configuration ("Transition " ++ arrow ++ " must move to a later phase"))
    checkTable phaseCount rows

/-- A law of at least one phase whose transitions are valid. -/
def make (phases : List Phase) (transitions : List Transition := []) (guidance : Option Guidance := none)
    (name : String := "torque_law") : Outcome TorqueLaw := do
  if phases.isEmpty then throw (.configuration "Torque law needs at least one phase")
  checkTable phases.length transitions
  pure { phases, transitions, guidance, name }

/-- The policy of a phase. -/
def policyAt (law : TorqueLaw) (i : Nat) : Outcome Policy :=
  match law.phases[i]? with
  | some p => pure p.policy
  | none => throw (.indexOutOfRange "tuple index out of range")

/-- A computation on the policy of phase `i`. -/
def onPhase {α : Type} (i : Nat) (m : Tracked Policy α) : Tracked TorqueLaw α :=
  Tracked.focus (fun law => (law.phases[i]?.map (·.policy)).getD .zero)
    (fun law p => { law with
      phases := law.phases.mapIdx fun j ph => if j = i then { ph with policy := p } else ph })
    m

/-- A computation on the condition of transition row `j`. -/
def onTransition {α : Type} (j : Nat) (m : Tracked Condition α) : Tracked TorqueLaw α :=
  Tracked.focus (fun law => (law.transitions[j]?.map (·.condition)).getD (.timeAfter 0.0))
    (fun law c => { law with
      transitions := law.transitions.mapIdx fun k row =>
        if k = j then { row with condition := c } else row })
    m

/-- The sensor memory with which phase `i` starts, read at the state's time. -/
def estimateAt (i : Nat) (s : SatState) : Tracked TorqueLaw (Option FieldRateEstimate) :=
  onPhase i (Policy.initialEstimate s.time s)

/-- The law restarted for a new run: every sensor goes back to its seed. -/
def reset (law : TorqueLaw) : TorqueLaw :=
  { law with
    phases := law.phases.map fun ph => { ph with policy := ph.policy.reset }
    transitions := law.transitions.map fun row => { row with condition := row.condition.reset } }

/-- The law state at the start of a run, with the first phase active. -/
def initialState (s : SatState) : Tracked TorqueLaw LawState := do
  let law ← get
  let memory ← match law.guidance with
    | none => pure none
    | some g => some <$> Tracked.lift (g.initialMemory (some s))
  let estimate ← estimateAt 0 s
  pure { phaseIndex := 0, phaseStart := s.time, time := s.time, guidance := memory, estimate }

/-- Whether no transition leaves phase `i`. -/
def isTerminal (law : TorqueLaw) (i : Int) : Bool :=
  law.transitions.all (·.source != i)

/-- The guidance command the active phase tracks, if the law has guidance. -/
def reference (law : TorqueLaw) (t : Float) (s : SatState) (ls : LawState) :
    Outcome (Option Command) :=
  match law.guidance with
  | none => pure none
  | some g => do
    let memory ← match ls.guidance with
      | some m => pure m
      | none => g.initialMemory (some s)
    some <$> g.target t s memory

/-- The body torque commanded at a time and state. An estimating policy applies the dipole
it holds; the others follow the guidance reference. -/
def command (law : TorqueLaw) (t : Float) (s : SatState) (b : Body) (ls : LawState) :
    Outcome (List Float) := do
  match ← law.policyAt ls.phaseIndex with
  | .sensedBdot r => Vec3.toList <$> r.heldTorque t s ls.estimate
  | p => do
    let c ← law.reference t s ls
    p.torque t s b c ls.integral

/-- The first row among `rows` that leaves the active phase and whose condition holds
fires: the target phase starts at `t` with a zero integral and its own first sensor
memory. Without one the law stays in its phase with the state `advanced`. -/
def fire (t : Float) (s : SatState) (ls : LawState) (reference : Option Command)
    (advanced : LawState) : List (Nat × Transition) → Tracked TorqueLaw LawState
  | [] => pure advanced
  | (j, row) :: rows => do
    if row.source != (ls.phaseIndex : Int) then
      fire t s ls reference advanced rows
    else
      let met ← onTransition j (Condition.isMet t s ls reference)
      if met then
        let estimate ← estimateAt row.target.toNat s
        pure { advanced with
          phaseIndex := row.target.toNat, phaseStart := t, integral := Vec3.zero, estimate }
      else
        fire t s ls reference advanced rows

/-- The law state after an accepted step ending at `t` in `s`: the integral and the sensor
memory move on, the guidance latches, and at most one transition fires. -/
def advance (t : Float) (s : SatState) (b : Body) (ls : LawState) :
    Tracked TorqueLaw LawState := do
  let law ← get
  let reference ← Tracked.lift (law.reference t s ls)
  let policy ← Tracked.lift (law.policyAt ls.phaseIndex)
  let integral ← Tracked.lift (policy.updateIntegral (t - ls.time) s reference ls.integral)
  let memory ← match law.guidance, ls.guidance with
    | some g, some m => do
      let (m, g) ← Tracked.lift (g.advance t s m)
      modify fun law => { law with guidance := some g }
      pure (some m)
    | _, m => pure m
  let estimate ← match ls.estimate with
    | some e =>
      if policy.isEstimating then some <$> onPhase ls.phaseIndex (Policy.updateEstimate t s b e)
      else pure (some e)
    | none => pure none
  let advanced := { ls with time := t, integral, guidance := memory, estimate }
  fire t s ls reference advanced (List.range law.transitions.length |>.zip law.transitions)

/-- B-dot detumbling until the spin drops below a threshold, then attitude tracking. -/
def detumbleThenPoint (detumbler : Policy) (guidance : Option Guidance := none)
    (spinThreshold : Float := 0.01) (controller : PdGains := {})
    (gyrometer : Option Sensor := none) : TorqueLaw :=
  { phases := [⟨"detumble", detumbler⟩, ⟨"point", .pd controller⟩]
    transitions := [⟨0, .spinRateBelow spinThreshold gyrometer, 1⟩]
    guidance, name := "detumble_then_point" }

end TorqueLaw

end Spacecraft
