import Spacecraft.CommandLine.Arguments
import Spacecraft.Simulation
import Spacecraft.Json.Parse

/-!
# Running the command line

`run` reads the configuration file as JSON, builds the simulation, runs it over the
configured duration and, when an output path is given, writes the ephemeris there as
comma-separated text. It returns 0 when the run completes, 1 when it stops early, and 2
when the file is not a JSON object or does not describe a valid run. Reading the command
line itself stops with status 2 when the line is refused and with status 0 after help or
the version.

Files are given to `execute` as a lookup from path to text, and what it writes comes back
in the result, so the whole session is a function of its inputs.
-/

namespace Spacecraft

namespace CommandLine

/-- How a command ends: with the status it returns, or stopped while its arguments were
read. -/
inductive Exit where
  | returned (code : Nat)
  | stopped (code : Nat)
deriving Inhabited, BEq

/-- What a command leaves behind: how it ended, the files it wrote and the fault that
escaped it, if one did. -/
structure Completion where
  exit : Exit
  written : List (String × String) := []
  failure : Option Fault := none
deriving Inhabited

/-- The suffix of the last component of a path: from its last dot on, unless that dot
starts the component. -/
def pathSuffix (path : String) : String :=
  let name := ((path.splitOn "/").getLast?).getD ""
  match name.splitOn "." with
  | [] | [_] => ""
  | parts =>
    let last := parts.getLast?.getD ""
    if name.length == last.length + 1 then "" else "." ++ last

/-- Whether a fault refuses the configuration, rather than stopping the program. -/
def Fault.refusesConfiguration : Fault → Bool
  | .configuration _ => true
  | _ => false

/-- The run a configuration text describes. -/
def runWith (o : RunOptions) (configText : String) : Completion :=
  match Json.parse configText with
  | some (.obj fields) =>
    match RunConfig.ofJson (.obj fields) >>= Simulation.ofConfig with
    | .error f =>
      if Fault.refusesConfiguration f then { exit := .returned 2 }
      else { exit := .returned 1, failure := some f }
    | .ok sim =>
      let record := sim.run []
      let ephemeris := (record.observers.head?.bind Observer.ephemeris?).getD {}
      let success := (record.summary.map RunSummary.success).getD false
      let exit := Exit.returned (if success then 0 else 1)
      match record.escaped with
      | some f => { exit, failure := some f }
      | none =>
        match o.output with
        | none => { exit }
        | some path =>
          if pathSuffix path == ".parquet" then { exit }
          else match ephemeris.csv with
            | .ok text => { exit, written := [(path, text)] }
            | .error f => { exit, failure := some f }
  | _ => { exit := .returned 2 }

/-- A whole session: the command line read, the configuration file looked up, the run. -/
def execute (argv : List String) (readFile : String → Option String) : Completion :=
  match parse argv with
  | .error _ => { exit := .stopped 2 }
  | .ok .help | .ok .version => { exit := .stopped 0 }
  | .ok (.run o) =>
    match readFile o.config with
    | none => { exit := .returned 1, failure := some (.missingFile o.config) }
    | some text => runWith o text

end CommandLine

end Spacecraft
