/-!
# Command-line arguments

The command line is `satsim run CONFIG [--output PATH] [--log-level LEVEL]
[--log-file PATH] [--progress]`, with `-h`/`--help` and, before the command, `--version`.

Arguments are read from left to right. A long option may be shortened to any prefix that
names one option only, and may carry its value after `=`; an option that takes a value
takes the next argument unless that one starts with `-`. After `--` every argument is a
positional one. Asking for help or for the version stops the reading at once; an invalid
log level or a missing value is refused where it stands, while unknown options and extra
positional arguments are refused only at the end, after a missing configuration path.
Every refusal exits with status 2.
-/

namespace Spacecraft

namespace CommandLine

/-- The options of the `run` command. -/
structure RunOptions where
  config : String
  output : Option String := none
  logLevel : String := "INFO"
  logFile : Option String := none
  progress : Bool := false
deriving Inhabited

/-- What a command line asks for. -/
inductive Invocation where
  /-- Run a simulation. -/
  | run (options : RunOptions)
  /-- Print the usage text and stop. -/
  | help
  /-- Print the version and stop. -/
  | version
deriving Inhabited

/-- The program's name and version. -/
def versionText : String := "satsim 0.1.0"

/-- The log levels the `--log-level` option takes. -/
def logLevels : List String := ["DEBUG", "INFO", "WARNING", "ERROR"]

/-- A long option: its name and whether it takes a value. -/
structure LongOption where
  name : String
  takesValue : Bool

/-- The long options of the `run` command. -/
def runOptions : List LongOption :=
  [⟨"--output", true⟩, ⟨"--log-level", true⟩, ⟨"--log-file", true⟩, ⟨"--progress", false⟩,
    ⟨"--help", false⟩]

/-- The long options before the command. -/
def topOptions : List LongOption := [⟨"--help", false⟩, ⟨"--version", false⟩]

/-- The option a long argument names: an exact name, or the one name it is a prefix of. -/
def resolve (options : List LongOption) (word : String) : Except String (Option LongOption) :=
  match options.find? (·.name == word) with
  | some o => pure (some o)
  | none =>
    match options.filter (fun o => word.length > 2 && o.name.startsWith word) with
    | [] => pure none
    | [o] => pure (some o)
    | several => throw ("ambiguous option: " ++ word ++ " could match " ++
        ", ".intercalate (several.map (·.name)))

/-- An argument split at its first `=`. -/
def splitValue (arg : String) : String × Option String :=
  match arg.splitOn "=" with
  | [name] => (name, none)
  | name :: rest => (name, some ("=".intercalate rest))
  | [] => (arg, none)

/-- Whether an argument is a negative number such as `-1` or `-.5`. -/
def isNegativeNumber (arg : String) : Bool :=
  match arg.toList with
  | '-' :: rest =>
    let (whole, afterWhole) := (rest.takeWhile Char.isDigit, rest.dropWhile Char.isDigit)
    match afterWhole with
    | [] => !whole.isEmpty
    | '.' :: frac => !frac.isEmpty && frac.all Char.isDigit
    | _ => false
  | _ => false

/-- Whether an argument reads as an option rather than a value: it starts with `-`, and is
neither a lone `-` nor a negative number. -/
def isOptionLike (arg : String) : Bool :=
  arg.startsWith "-" && arg != "-" && !isNegativeNumber arg

/-- The state of reading the arguments of `run`. -/
structure RunReading where
  options : RunOptions := { config := "" }
  positional : List String := []
  unknown : List String := []

/-- The options with a value given to one of the options that take one. -/
def setValue (r : RunReading) (name value : String) : Except String RunReading :=
  let opts := r.options
  match name with
  | "--output" => pure { r with options := { opts with output := some value } }
  | "--log-file" => pure { r with options := { opts with logFile := some value } }
  | _ =>
    if logLevels.contains value then pure { r with options := { opts with logLevel := value } }
    else throw ("argument --log-level: invalid choice: '" ++ value ++
      "' (choose from 'DEBUG', 'INFO', 'WARNING', 'ERROR')")

/-- Reads the arguments of `run`; `literal` is set after `--`. Nothing is read when help
is asked for. -/
def readRun (r : RunReading) (literal : Bool) : List String → Except String (Option RunReading)
  | [] => pure (some r)
  | arg :: rest =>
    if literal || !isOptionLike arg then
      readRun { r with positional := r.positional ++ [arg] } literal rest
    else if arg == "--" then readRun r true rest
    else if arg == "-h" then pure none
    else if arg.startsWith "--" then do
      let (word, attached) := splitValue arg
      match ← resolve runOptions word with
      | none => readRun { r with unknown := r.unknown ++ [arg] } literal rest
      | some o =>
        if o.name == "--help" then pure none
        else if !o.takesValue then
          match attached with
          | some _ => throw ("argument " ++ o.name ++ ": ignored explicit argument")
          | none => readRun { r with options := { r.options with progress := true } } literal rest
        else
          match attached, rest with
          | some v, rest => do readRun (← setValue r o.name v) literal rest
          | none, v :: more =>
            if isOptionLike v then throw ("argument " ++ o.name ++ ": expected one argument")
            else do readRun (← setValue r o.name v) literal more
          | none, [] => throw ("argument " ++ o.name ++ ": expected one argument")
    else readRun { r with unknown := r.unknown ++ [arg] } literal rest

/-- What a command line asks for, or why it is refused. -/
def parse (argv : List String) : Except String Invocation :=
  go [] argv
where
  /-- Reads the arguments before the command. -/
  go (unknown : List String) : List String → Except String Invocation
    | [] => throw "the following arguments are required: command"
    | arg :: rest =>
      if arg == "-h" then pure .help
      else if arg.startsWith "--" && arg != "--" then do
        let (word, _) := splitValue arg
        match ← resolve topOptions word with
        | some o => pure (if o.name == "--help" then .help else .version)
        | none => go (unknown ++ [arg]) rest
      else if isOptionLike arg then go (unknown ++ [arg]) rest
      else if arg != "run" then
        throw ("argument command: invalid choice: '" ++ arg ++ "' (choose from 'run')")
      else do
        match ← readRun {} false rest with
        | none => pure .help
        | some r =>
          match r.positional with
          | [] => throw "the following arguments are required: config"
          | config :: extra =>
            let unknown := unknown ++ r.unknown ++ extra
            if unknown.isEmpty then pure (.run { r.options with config })
            else throw ("unrecognized arguments: " ++ " ".intercalate unknown)

end CommandLine

end Spacecraft
