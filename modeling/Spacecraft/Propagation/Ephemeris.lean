import Spacecraft.Dynamics.State
import Spacecraft.Text.Notation

/-!
# Ephemerides

An ephemeris is the record of accepted states of a run, in strictly increasing time; it
keeps copies (`SatState.copy`) of the states it is given. Its table has one row per state
and the columns `time`, position `x y z`, velocity `vx vy vz`, quaternion `q0 … q3`,
angular velocity `wx wy wz`, the Z-Y-X Euler angles `roll pitch yaw`, `altitude` and
`mass`; `csv` writes it as comma-separated text.
-/

namespace Spacecraft

/-- Accepted states in strictly increasing time. -/
structure Ephemeris where
  entries : Array SatState := #[]
deriving Inhabited

namespace Ephemeris

/-- The number of recorded states. -/
def size (e : Ephemeris) : Nat := e.entries.size

/-- Whether nothing has been recorded. -/
def isEmpty (e : Ephemeris) : Bool := e.entries.isEmpty

/-- The last recorded state. -/
def last? (e : Ephemeris) : Option SatState := e.entries.back?

/-- The times of the recorded states. -/
def times (e : Ephemeris) : List Float := e.entries.toList.map (·.time)

/-- Records a copy of a state, which must be later than the last one. -/
def append (e : Ephemeris) (s : SatState) : Outcome Ephemeris := do
  let snapshot ← s.copy
  match e.last? with
  | some last =>
    if s.time > last.time then pure { entries := e.entries.push snapshot }
    else throw (.invalidArgument ("Ephemeris time must increase: " ++ Notation.shortest s.time ++
      " after " ++ Notation.shortest last.time))
  | none => pure { entries := e.entries.push snapshot }

/-- The column names of the table. -/
def columns : List String :=
  ["time", "x", "y", "z", "vx", "vy", "vz", "q0", "q1", "q2", "q3", "wx", "wy", "wz",
    "roll", "pitch", "yaw", "altitude", "mass"]

/-- The table row of a state. -/
def row (s : SatState) : Outcome (List Float) := do
  let (roll, pitch, yaw) ← s.quaternion.toEuler
  pure ([s.time] ++ s.position.toList ++ s.velocity.toList ++ s.quaternion.toList ++
    s.angularVelocity.toList ++ [roll, pitch, yaw, s.altitude, s.mass])

/-- The table of the recorded states, one row per state. -/
def table (e : Ephemeris) : Outcome (List (List Float)) := e.entries.toList.mapM row

/-- The table as comma-separated text: a header line of the column names, then one line per
state with every value in its shortest round-trip cell form; every line ends with a line
feed. -/
def csv (e : Ephemeris) : Outcome String := do
  let rows ← e.table
  let line (cells : List String) := ",".intercalate cells ++ "\n"
  pure (String.join (line columns :: rows.map fun r => line (r.map Notation.cell.float)))

end Ephemeris

end Spacecraft
