import Spacecraft.CommandLine.Session

/-!
# The `satsim` program

Reads the command line, the configuration file and writes the output file; everything
between is `CommandLine.runWith`.
-/

open Spacecraft CommandLine

/-- The usage text. -/
def usageText : String :=
  "usage: satsim [-h] [--version] {run} ...\n\n" ++
  "Coupled orbit/attitude satellite simulator\n\n" ++
  "  run CONFIG [--output PATH] [--log-level {DEBUG,INFO,WARNING,ERROR}]\n" ++
  "             [--log-file PATH] [--progress]\n"

/-- The directory part of a path, if it has one. -/
def parentOf (path : String) : Option String :=
  match (path.splitOn "/").dropLast with
  | [] => none
  | parts => let dir := "/".intercalate parts
    if dir.isEmpty then none else some dir

def main (args : List String) : IO UInt32 := do
  match parse args with
  | .error e =>
    IO.eprintln (usageText ++ "satsim: error: " ++ e)
    return 2
  | .ok .help =>
    IO.println usageText
    return 0
  | .ok .version =>
    IO.println versionText
    return 0
  | .ok (.run o) =>
    let text ← IO.FS.readFile o.config
    let c := runWith o text
    for (path, contents) in c.written do
      if let some dir := parentOf path then IO.FS.createDirAll dir
      IO.FS.writeFile path contents
    match c.failure with
    | some f =>
      IO.eprintln f.message
      return 1
    | none =>
      match c.exit with
      | .returned n | .stopped n => return n.toUInt32
