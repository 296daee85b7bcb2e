import Spacecraft.Dynamics.Model
import Spacecraft.Propagation.Integrator
import Spacecraft.Propagation.Observer

/-!
# Propagation runs

A run drives an integrator over the coupled dynamics from a starting state to an end time,
one accepted step at a time:

1. at a step boundary, stop if an observer asked for it, and count the step against the
   step limit (reaching it is divergence);
2. try a step from the last accepted state, no longer than what is left of the run; an
   adaptive method that refuses it is retried from the same point with half the step, and
   more than `maxRejections` refusals in a row are divergence;
3. a step that ends within `10⁻⁶ h` of the end time ends exactly on it; the new state is
   rebuilt from the flat array (a quaternion of length below `10⁻¹²` is divergence) and
   must be finite and within `maxPositionNorm` of the centre of the Earth;
4. the dynamics move on (disturbance draws, the law's memory), and the observers are told.

A run ends as `completed` when it reaches the end time, `cancelled` when asked to stop or
when its consumer stops listening after a given number of states, `diverged` or
`domainError` on those faults and `failed` on any other. Every observer is closed however
it ends; a failure while closing makes a run without a fault `failed`, and is the fault
that escapes unless the consumer had stopped listening. The number of passes through the
loop is at most the step limit plus one, which bounds the recursion.

An interrupt (a keyboard interrupt, a request to exit) is no error of the library, and no part
of a run catches it. One that arrives while the observers are told of the run leaves the
reason as the run began, `completed`, stores no fault, and escapes once the observers are
closed, unless a failure to close replaces it. One that arrives while an observer is closed
ends the closing there, and the run reports nothing. The run keeps the calls it makes to its
observers, in order.
-/

namespace Spacecraft

/-- Why a run stopped. -/
inductive Termination where
  | completed
  | diverged
  | domainError
  | cancelled
  | failed
deriving Inhabited, BEq, DecidableEq

namespace Termination

/-- The name of a reason. -/
def name : Termination → String
  | .completed => "completed"
  | .diverged => "diverged"
  | .domainError => "domain-error"
  | .cancelled => "cancelled"
  | .failed => "failed"

/-- The reason a fault ends a run with. -/
def ofFault : Fault → Termination
  | .divergence .. => .diverged
  | .outsideDomain .. => .domainError
  | _ => .failed

end Termination

/-- A call of a run to one of its observers, by the observer's place in the run's list. -/
inductive Call where
  /-- Told that the run starts. -/
  | start (place : Nat)
  /-- Told of an accepted state, and whether it is the last one. -/
  | notice (place : Nat) (isLast : Bool)
  /-- Closed. -/
  | close (place : Nat)
deriving DecidableEq

/-- The place of the observer a call is made to. -/
def Call.place : Call → Nat
  | .start i | .notice i _ | .close i => i

/-- Where an interrupt reaches a run. -/
inductive Interrupt where
  /-- Once the observers were told of the `n`-th accepted state, or that the run starts for
  `n = 0`. -/
  | told (n : Nat)
  /-- While the observer at place `i` is closed. -/
  | closing (i : Nat)
deriving DecidableEq

/-- What a run reports. -/
structure RunSummary where
  startTime : Float
  endTime : Float
  steps : Nat
  rejectedSteps : Nat
  reason : Termination
  error : Option Fault := none
deriving Inhabited

/-- A run succeeded when it completed. -/
def RunSummary.success (s : RunSummary) : Bool := s.reason == .completed

/-- The limits of a run. -/
structure RunLimits where
  maxSteps : Int := 10000000
  maxRejections : Int := 20
  maxPositionNorm : Float := 1.0e10
deriving Inhabited

/-- The dynamics, the method and the limits of a run. -/
structure Propagator where
  dynamics : DynamicsModel
  integrator : Integrator
  limits : RunLimits := {}
deriving Inhabited

/-- Where a run stands between two steps. -/
structure Progress where
  state : SatState
  control : Option LawState
  dynamics : DynamicsModel
  observers : List Observer
  step : Float
  steps : Nat := 0
  rejected : Nat := 0
  stopRequested : Bool := false
  /-- The calls made to the observers so far. -/
  calls : List Call := []
deriving Inhabited

/-- How the loop of a run ended. -/
structure Ending where
  progress : Progress
  reason : Termination
  error : Option Fault := none
  /-- The consumer stopped listening. -/
  abandoned : Bool := false
  /-- An interrupt ended the loop. -/
  interrupted : Bool := false
deriving Inhabited

/-- What a run leaves behind: its summary (none if it never started or an interrupt ended its
closing), the fault that escapes it or whether an interrupt does, the observers, the control
memory, the dynamics and the calls made to the observers. -/
structure RunRecord where
  summary : Option RunSummary
  escaped : Option Fault
  interrupted : Bool := false
  observers : List Observer
  control : Option LawState
  dynamics : DynamicsModel
  calls : List Call := []
deriving Inhabited

/-- The smallest quaternion length a flat state may have. -/
def minQuaternionNorm : Float := 1.0e-12

/-- The state of a flat array at `t`; a collapsed quaternion is divergence. -/
def SatState.ofFlat (y : List Float) (inertia : Mat3) (t : Float) : Outcome SatState :=
  if normList ((y.drop 6).take 4) < minQuaternionNorm then
    throw (.divergence "Quaternion collapsed to zero length" (some t))
  else SatState.ofArray y inertia.toLists t

namespace Propagator

/-- The right-hand side of the flat state equation with the control memory held fixed. -/
def rate (d : DynamicsModel) (inertia : Mat3) (control : Option LawState) : RateFunction :=
  fun tau y => do
    let s ← SatState.ofFlat y inertia tau
    let r ← d.derivative tau s (control.getD {})
    pure r.toArray

/-- A step of at most `h` from `t` and `y`, halving on refusal: the outcome, the step
taken and the number of refusals. -/
def attemptHalving (p : Propagator) (f : RateFunction) (t : Float) (y : List Float) :
    Nat → Float → Nat → Outcome (StepOutcome × Float × Nat)
  | 0, h, refusals => do
    let o ← p.integrator.attempt f t y h
    pure (o, h, refusals)
  | fuel + 1, h, refusals =>
    match p.integrator.attempt f t y h with
    | .ok o => pure (o, h, refusals)
    | .error (.stepRejected ..) =>
      if (refusals + 1 : Int) > p.limits.maxRejections then
        throw (.divergence (toString (refusals + 1) ++ " consecutive step rejections") (some t))
      else attemptHalving p f t y fuel (h / 2) (refusals + 1)
    | .error e => throw e

/-- A new state checked: finite and not too far out. -/
def checkState (p : Propagator) (s : SatState) : Outcome Unit := do
  unless s.isFinite do throw (.divergence "State became non-finite" (some s.time))
  if s.radius > p.limits.maxPositionNorm then
    throw (.divergence ("Position norm " ++ Notation.scientific 3 s.radius ++ " m exceeds " ++
      Notation.scientific 3 p.limits.maxPositionNorm ++ " m") (some s.time))

/-- The observers told of an accepted step, those before a failure keeping what they saw. -/
def noticeEach (s : SatState) (isLast : Bool) (done : List Observer) :
    List Observer → Bool → (List Observer × Bool × Option Fault)
  | [], stop => (done, stop, none)
  | o :: rest, stop =>
    match o.notice s isLast with
    | .ok n => noticeEach s isLast (done ++ [n.observer]) rest (stop || n.stop)
    | .error f => (done ++ o :: rest, stop, some f)

/-- The observers told that a run starts, those before a failure keeping what they saw. -/
def startEach (s : SatState) (done : List Observer) :
    List Observer → List Observer × Option Fault
  | [] => (done, none)
  | o :: rest =>
    match o.start s with
    | .ok o => startEach s (done ++ [o]) rest
    | .error f => (done ++ o :: rest, some f)

/-- The calls of one round over the observers from place `i` on: each is called in turn, up to
and including the first whose call fails. -/
def roundCalls (call : Nat → Call) (fails : Observer → Bool) (i : Nat) :
    List Observer → List Call
  | [] => []
  | o :: rest => call i :: if fails o then [] else roundCalls call fails (i + 1) rest

/-- One accepted step from where the run stands, or the fault that stops it. The dynamics
are kept in the progress also when the step fails after moving them on. -/
def advanceOnce (p : Propagator) (tEnd : Float) (g : Progress) :
    Progress × Option Fault :=
  let t := g.state.time
  let left := tEnd - t
  let h := if left < g.step then left else g.step
  let inertia := g.state.inertia
  let f := rate g.dynamics inertia g.control
  let fuel := p.limits.maxRejections.toNat + 1
  match attemptHalving p f t g.state.toArray fuel h 0 with
  | .error e => (g, some e)
  | .ok (o, hUsed, refusals) =>
    let g := { g with rejected := g.rejected + refusals }
    let tNew := if tEnd - (t + hUsed) ≤ 1.0e-6 * hUsed then tEnd else t + hUsed
    match SatState.ofFlat o.state inertia tNew with
    | .error e => (g, some e)
    | .ok s =>
      match p.checkState s with
      | .error e => (g, some e)
      | .ok () =>
        let (r, dynamics) := Tracked.runFrom (DynamicsModel.advance tNew s g.control) g.dynamics
        let g := { g with dynamics }
        match r with
        | .error e => (g, some e)
        | .ok control =>
          let g := { g with state := s, control, steps := g.steps + 1, step := o.nextStep }
          let isLast := s.time ≥ tEnd
          let (observers, stop, failure) := noticeEach s isLast [] g.observers g.stopRequested
          let calls := g.calls ++
            roundCalls (.notice · isLast) (fun o => !(o.notice s isLast).isOk) 0 g.observers
          ({ g with observers, stopRequested := stop, calls }, failure)

/-- The loop of a run. `listen` is the number of accepted states the consumer takes before
it stops listening, if it stops. -/
def loop (p : Propagator) (tEnd : Float) (listen : Option Nat) (interrupt : Option Interrupt) :
    Nat → Progress → Ending
  | 0, g => { progress := g, reason := .completed }
  | fuel + 1, g =>
    if !(g.state.time < tEnd) then { progress := g, reason := .completed }
    else if g.stopRequested then { progress := g, reason := .cancelled }
    else if (g.steps : Int) ≥ p.limits.maxSteps then
      let e : Fault := .divergence ("Step limit of " ++ toString p.limits.maxSteps ++ " reached")
        (some g.state.time)
      { progress := g, reason := .diverged, error := some e }
    else
      match p.advanceOnce tEnd g with
      | (g, some e) => { progress := g, reason := Termination.ofFault e, error := some e }
      | (g, none) =>
        if interrupt == some (.told g.steps) then
          { progress := g, reason := .completed, interrupted := true }
        else if listen == some g.steps then
          { progress := g, reason := .cancelled, abandoned := true }
        else loop p tEnd listen interrupt fuel g

/-- What closing the observers gives: the calls made, the first failure to close, and whether
an interrupt stopped the closing. -/
structure Closing where
  calls : List Call
  failure : Option Fault
  interrupted : Bool := false

/-- Closes the observers from place `i` on, in order, keeping the first failure; an interrupt
while an observer is closed ends the closing there. -/
def closeFrom (interrupt : Option Interrupt) (first : Option Fault) (i : Nat) :
    List Observer → Closing
  | [] => { calls := [], failure := first }
  | o :: rest =>
    if interrupt == some (.closing i) then
      { calls := [.close i], failure := first, interrupted := true }
    else
      let c := closeFrom interrupt (first <|> o.close) (i + 1) rest
      { c with calls := .close i :: c.calls }

/-- Closes the observers in order. -/
def closeAll (observers : List Observer) (interrupt : Option Interrupt) : Closing :=
  closeFrom interrupt none 0 observers

/-- A run from `initial` to `tEnd` with the given observers, and the interrupt that reaches
it, if one does. The end time must not come before the start. -/
def propagate (p : Propagator) (initial : SatState) (tEnd : Float) (observers : List Observer)
    (listen : Option Nat := none) (interrupt : Option Interrupt := none) : RunRecord :=
  let untouched : RunRecord :=
    { summary := none, escaped := none, observers, control := none, dynamics := p.dynamics }
  if tEnd < initial.time then
    { untouched with escaped := some (.invalidArgument ("t_end=" ++ Notation.shortest tEnd ++
        " precedes the initial time " ++ Notation.shortest initial.time)) }
  else if listen == some 0 then untouched
  else
  match initial.copy with
  | .error e => { untouched with escaped := some e }
  | .ok initial =>
  match p.dynamics.reset with
  | .error e => { untouched with escaped := some e }
  | .ok dynamics =>
    let (c, dynamics) := Tracked.runFrom (DynamicsModel.initialControl initial) dynamics
    match c with
    | .error e => { untouched with escaped := some e, dynamics := dynamics }
    | .ok control =>
      let step := p.integrator.initialStep initial.time tEnd
      let g : Progress := { state := initial, control, dynamics, observers, step }
      let (started, failure) := startEach initial [] observers
      let calls := roundCalls .start (fun o => !(o.start initial).isOk) 0 observers
      let g := { g with observers := started, calls }
      let ending : Ending := match failure with
        | some e => { progress := g, reason := Termination.ofFault e, error := some e }
        | none =>
          if interrupt == some (.told 0) then
            { progress := g, reason := .completed, interrupted := true }
          else p.loop tEnd listen interrupt (p.limits.maxSteps.toNat + 1) g
      let g := ending.progress
      let closing := closeAll g.observers interrupt
      let calls := g.calls ++ closing.calls
      if closing.interrupted then
        { summary := none, escaped := none, interrupted := true, observers := g.observers,
          control := g.control, dynamics := g.dynamics, calls }
      else
      let (reason, error) := match closing.failure, ending.error with
        | some c, none => (Termination.failed, some c)
        | _, e => (ending.reason, e)
      let escaped := match ending.error with
        | some e => some e
        | none => if ending.abandoned then none else closing.failure
      let summary : RunSummary := { startTime := initial.time, endTime := g.state.time,
                                    steps := g.steps, rejectedSteps := g.rejected, reason, error }
      { summary := some summary, escaped,
        interrupted := ending.interrupted && closing.failure.isNone, observers := g.observers,
        control := g.control, dynamics := g.dynamics, calls }

/-- A run to completion: divergence and domain faults end it but stay in the summary; any
other fault escapes. -/
def run (p : Propagator) (initial : SatState) (tEnd : Float) (observers : List Observer) :
    RunRecord :=
  let r := p.propagate initial tEnd observers
  match r.escaped with
  | some (.divergence ..) | some (.outsideDomain ..) => { r with escaped := none }
  | _ => r

end Propagator

end Spacecraft
