import Spacecraft.Text.Notation
import Spacecraft.Numeric.Binary64

/-!
# Faults

Every way an operation of this library can refuse its input or stop. A fault is a cause
with the data its message needs; `Fault.message` gives the wording, so the texts live in
one place. Faults raised while evaluating a model at a point carry the time and position of
that evaluation. An `Outcome` is a value or a fault; a `Tracked` computation also keeps the
state it reached when it fails.
-/

namespace Spacecraft

/-- Why an operation stopped. -/
inductive Fault where
  /-- An argument outside what the operation accepts. -/
  | invalidArgument (text : String)
  /-- A run description that cannot be built. -/
  | configuration (text : String)
  /-- A model evaluated outside its valid domain, at an optional time and position. -/
  | outsideDomain (text : String) (time : Option Float) (position : Option (List Float))
  /-- The integrated state became non-finite, unbounded or uncontrollable. -/
  | divergence (text : String) (time : Option Float)
  /-- An adaptive step failed its local error test. -/
  | stepRejected (time step errorNorm : Float)
  /-- A division by zero; the text tells a float division from a kernel's. -/
  | divisionByZero (text : String)
  /-- An index past the end of a sequence. -/
  | indexOutOfRange (text : String)
  /-- A linear system whose matrix is singular. -/
  | singularMatrix
  /-- An eigenvalue iteration that ran out of steps. -/
  | noConvergence
  /-- A step observer that failed. -/
  | observerFailure (text : String)
  /-- A number outside the range an operation can represent. -/
  | overflow (text : String)
  /-- An operation that a model does not have. -/
  | missingAttribute (text : String)
  /-- A file that does not exist. -/
  | missingFile (path : String)
deriving Inhabited

namespace Fault

/-- The division by zero of two floats. -/
def floatDivision : Fault := .divisionByZero "float division by zero"

/-- The division by zero inside a compiled kernel. -/
def kernelDivision : Fault := .divisionByZero "division by zero"

/-- The details appended to the message of a domain fault. -/
def domainDetails (time : Option Float) (position : Option (List Float)) : List String :=
  (time.map fun t => "t=" ++ Notation.fixed 6 t ++ " s").toList ++
    (position.map fun p => "r=" ++ Notation.row 3 p ++ " m").toList

/-- The message of a fault. -/
def message : Fault → String
  | .invalidArgument t => t
  | .configuration t => t
  | .outsideDomain t time position =>
    match domainDetails time position with
    | [] => t
    | ds => t ++ " (" ++ ", ".intercalate ds ++ ")"
  | .divergence t time =>
    match time with
    | some s => t ++ " (t=" ++ Notation.fixed 6 s ++ " s)"
    | none => t
  | .stepRejected time step err =>
    "Step rejected at t=" ++ Notation.fixed 6 time ++ " s with h=" ++ Notation.scientific 3 step ++
      " s (error norm " ++ Notation.scientific 3 err ++ ")"
  | .divisionByZero t => t
  | .indexOutOfRange t => t
  | .singularMatrix => "Singular matrix"
  | .noConvergence => "Eigenvalues did not converge"
  | .observerFailure t => t
  | .overflow t => t
  | .missingAttribute t => t
  | .missingFile path => "[Errno 2] No such file or directory: '" ++ path ++ "'"

end Fault

/-- A computation that may stop with a fault. -/
abbrev Outcome (α : Type) := Except Fault α

/-- Divides, refusing a zero divisor with the given fault. -/
def checkedDiv {K : Type} [Scalar K] (fault : Fault) (a b : K) : Outcome K :=
  if Scalar.isZero b then .error fault else .ok (a / b)

/-- Divides two floats, refusing a zero divisor as float division does. -/
def divOrFault (a b : Float) : Outcome Float := checkedDiv Fault.floatDivision a b

/-- Divides two floats, refusing a zero divisor as a compiled kernel does. -/
def kernelDiv (a b : Float) : Outcome Float := checkedDiv Fault.kernelDivision a b

/-- The first `n` entries of a list read by index: a short list is refused at its first
missing index. -/
def takeIndexed (xs : List Float) (n : Nat) : Outcome (List Float) :=
  if xs.length < n then
    .error (.indexOutOfRange ("index " ++ toString xs.length ++
      " is out of bounds for axis 0 with size " ++ toString xs.length))
  else .ok (xs.take n)

end Spacecraft

/-! ## Computations that keep their progress when they fail

Sensors and random disturbances own seeded generators, and a draw moves the generator on
even when the computation that asked for it fails afterwards. `Tracked σ α` is a fallible
computation over a state `σ` whose state is kept on failure as well as on success:
`ExceptT Fault (StateM σ)`, run from a state it gives the outcome and the state reached.
-/

namespace Spacecraft

/-- A fallible computation over a state that keeps the state reached when it fails. -/
abbrev Tracked (σ : Type) (α : Type) : Type := ExceptT Fault (StateM σ) α

namespace Tracked

variable {σ τ α : Type}

/-- A plain outcome, leaving the state alone. -/
def lift (o : Outcome α) : Tracked σ α := ExceptT.mk (pure o)

/-- The outcome of a computation run from a state, with the state it reached. -/
def runFrom (m : Tracked σ α) (s : σ) : Outcome α × σ := Id.run (m.run.run s)

/-- A computation on one part of a larger state: `view` picks the part out and `update`
puts the part reached back, whether the computation succeeded or not. -/
def focus (view : σ → τ) (update : σ → τ → σ) (m : Tracked τ α) : Tracked σ α :=
  ExceptT.mk fun s =>
    let (r, inner) := runFrom m (view s)
    pure (r, update s inner)

end Tracked

end Spacecraft
