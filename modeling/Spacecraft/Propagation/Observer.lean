import Spacecraft.Propagation.Ephemeris

/-!
# Step observers

An observer is told once when a run starts (`start`), after every accepted step
(`notice`, with whether the step was the last one) and once when the run ends for any
reason (`close`). It never sees rejected trial steps. Any of the three may fail, and
`notice` may ask the run to stop at the next step boundary.

* A recorder keeps an ephemeris: the starting state (unless it is not later than what is
  recorded already) and every accepted state.
* A watchdog counts accepted steps; from `cancelAfter` steps on it asks the run to stop,
  and from `failAfter` steps on it fails.
* A decimating observer passes every `every`-th step and the last step on to another.
* A deferred observer passes copies of the states on to another but keeps that observer's
  failures, reporting the first of them only when it is closed. Closing a deferred
  observer that never received anything does nothing.
* An observer may also fail when it is closed.
-/

namespace Spacecraft

/-- An observer of accepted steps. -/
inductive Observer where
  /-- Records the run in an ephemeris. -/
  | recorder (log : Ephemeris)
  /-- Counts steps, asking for a stop or failing after given counts. -/
  | watchdog (seen : Nat) (cancelAfter failAfter : Option Nat)
  /-- Fails with the given text when it is closed. -/
  | failingClose (text : String)
  /-- Passes every `every`-th step and the last step on. -/
  | decimating (every : Nat) (count : Nat) (inner : Observer)
  /-- Passes everything on and keeps the failures until it is closed. -/
  | deferred (inner : Observer) (started : Bool) (failures : List Fault)
deriving Inhabited

/-- What noticing a step gives: the observer afterwards and whether it asks to stop. -/
structure Notice where
  observer : Observer
  stop : Bool := false

namespace Observer

/-- A recorder with an empty ephemeris. -/
def newRecorder : Observer := .recorder {}

/-- A decimating observer; the factor must be at least one. -/
def decimate (inner : Observer) (every : Int) : Outcome Observer :=
  if every < 1 then
    throw (.invalidArgument ("Decimation factor must be >= 1, got " ++ toString every))
  else pure (.decimating every.toNat 0 inner)

/-- A deferred observer over another. -/
def defer (inner : Observer) : Observer := .deferred inner false []

/-- The observer told that a run starts in `s`. -/
def start (o : Observer) (s : SatState) : Outcome Observer :=
  match o with
  | .recorder log =>
    match log.last? with
    | some last => if last.time < s.time then recorder <$> log.append s else pure o
    | none => recorder <$> log.append s
  | .watchdog .. | .failingClose _ => pure o
  | .decimating every _ inner => decimating every 0 <$> inner.start s
  | .deferred inner _ failures => do
    match inner.start (← s.copy) with
    | .ok inner => pure (.deferred inner true failures)
    | .error f => pure (.deferred inner true (failures ++ [f]))

/-- The observer told of an accepted step ending in `s`. -/
def notice (o : Observer) (s : SatState) (isLast : Bool) : Outcome Notice :=
  match o with
  | .recorder log => do pure { observer := .recorder (← log.append s) }
  | .watchdog seen cancelAfter failAfter => do
    let seen := seen + 1
    let stop := match cancelAfter with
      | some n => decide (seen ≥ n)
      | none => false
    if let some n := failAfter then
      if seen ≥ n then
        throw (.observerFailure ("handler failed at step " ++ toString seen))
    pure { observer := .watchdog seen cancelAfter failAfter, stop }
  | .failingClose _ => pure { observer := o }
  | .decimating every count inner => do
    let count := count + 1
    if isLast || count % every == 0 then
      let n ← inner.notice s isLast
      pure { n with observer := .decimating every count n.observer }
    else pure { observer := .decimating every count inner }
  | .deferred inner _ failures => do
    match inner.notice (← s.copy) isLast with
    | .ok n => pure { n with observer := .deferred n.observer true failures }
    | .error f => pure { observer := .deferred inner true (failures ++ [f]) }

/-- The observer closed: the first failure it reports, if any. -/
def close (o : Observer) : Option Fault :=
  match o with
  | .recorder _ | .watchdog .. => none
  | .failingClose text => some (.observerFailure text)
  | .decimating _ _ inner => inner.close
  | .deferred inner started failures =>
    if !started then none
    else match failures with
      | f :: _ => some f
      | [] => inner.close

/-- The ephemeris of a recorder, also behind a decimating or deferred observer. -/
def ephemeris? : Observer → Option Ephemeris
  | .recorder log => some log
  | .decimating _ _ inner => inner.ephemeris?
  | .deferred inner _ _ => inner.ephemeris?
  | _ => none

end Observer

end Spacecraft
