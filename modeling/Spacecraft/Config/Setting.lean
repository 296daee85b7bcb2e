import Spacecraft.Json.Value
import Spacecraft.Fault
import Spacecraft.Text.Numeral

/-!
# Settings read from a configuration document

A run is described by a JSON document of sections, each an object of settings. A setting
has a kind that says which JSON values it takes:

* a number takes a float or an integer (read as the nearest float);
* an optional number also takes `null`;
* a whole number takes an integer or a boolean, which counts as 0 or 1 and is kept as
  written;
* a flag takes a boolean, a text a string, an optional text also `null`;
* a list takes any array, kept as written: its entries are checked when the run is
  validated.

A section is read in three passes: keys it does not know are refused, all of them at once
and in sorted order; integers given for number settings are turned into floats; and every
value is checked against the kind of its setting. Later checks on values (ranges, list
lengths) belong to the validation of the whole run.

The number reading of a validated value (`number`) is more liberal: it also takes
booleans and numerals written as text.
-/

namespace Spacecraft

/-- A whole-number setting as written: an integer, or a boolean standing for 0 or 1. -/
inductive Whole where
  | int (n : Int)
  | flag (b : Bool)
deriving Inhabited

namespace Whole

/-- The number the setting stands for. -/
def value : Whole → Int
  | .int n => n
  | .flag b => if b then 1 else 0

/-- The setting as a JSON value, as it was written. -/
def toJson : Whole → Json
  | .int n => .int n
  | .flag b => .bool b

/-- The setting as a message quotes it. -/
def text (w : Whole) : String := Json.literal w.toJson

end Whole

/-- What JSON values a setting takes. -/
inductive SettingKind where
  | number
  | optionalNumber
  | whole
  | flag
  | text
  | optionalText
  | list
deriving Inhabited, BEq

/-- One setting of a section of type `σ`: its key, its kind and how a value of that kind is
stored; `store` gives nothing for a value of another kind. -/
structure Setting (σ : Type) where
  key : String
  kind : SettingKind
  store : Json → σ → Option σ

namespace Setting

variable {σ : Type}

/-- A number setting. -/
def number (key : String) (put : σ → Float → σ) : Setting σ :=
  ⟨key, .number, fun j s => match j with
    | .float x => some (put s x)
    | _ => none⟩

/-- A number setting that may be `null`. -/
def optionalNumber (key : String) (put : σ → Option Float → σ) : Setting σ :=
  ⟨key, .optionalNumber, fun j s => match j with
    | .float x => some (put s (some x))
    | .null => some (put s none)
    | _ => none⟩

/-- A whole-number setting. -/
def whole (key : String) (put : σ → Whole → σ) : Setting σ :=
  ⟨key, .whole, fun j s => match j with
    | .int n => some (put s (.int n))
    | .bool b => some (put s (.flag b))
    | _ => none⟩

/-- A flag setting. -/
def flag (key : String) (put : σ → Bool → σ) : Setting σ :=
  ⟨key, .flag, fun j s => match j with
    | .bool b => some (put s b)
    | _ => none⟩

/-- A text setting. -/
def text (key : String) (put : σ → String → σ) : Setting σ :=
  ⟨key, .text, fun j s => match j with
    | .str t => some (put s t)
    | _ => none⟩

/-- A text setting that may be `null`. -/
def optionalText (key : String) (put : σ → Option String → σ) : Setting σ :=
  ⟨key, .optionalText, fun j s => match j with
    | .str t => some (put s (some t))
    | .null => some (put s none)
    | _ => none⟩

/-- A list setting. -/
def list (key : String) (put : σ → List Json → σ) : Setting σ :=
  ⟨key, .list, fun j s => match j with
    | .arr xs => some (put s xs)
    | _ => none⟩

end Setting

/-- The float nearest to an integer; an integer beyond the float range is refused. -/
def floatOfInt (n : Int) : Outcome Float :=
  let x := Binary64.ofInt n
  if x.isFinite then pure x else throw (.overflow "int too large to convert to float")

/-- The keys of `keys` that are not in `known`, sorted. -/
def unknownKeys (keys known : List String) : List String :=
  ((keys.filter (fun k => !known.contains k)).eraseDups).mergeSort (fun a b => decide (a ≤ b))

/-- A section read from its JSON value over the defaults: `null` gives the defaults. -/
def readSection {σ : Type} (part : String) (defaults : σ) (settings : List (Setting σ))
    (data : Json) : Outcome σ := do
  match data with
  | .null => pure defaults
  | .obj fields =>
    let unknown := unknownKeys (fields.map (·.1)) (settings.map (·.key))
    unless unknown.isEmpty do
      throw (.configuration ("Unknown keys in '" ++ part ++ "': " ++ ", ".intercalate unknown))
    let kindOf (k : String) : SettingKind :=
      ((settings.find? (·.key == k)).map (·.kind)).getD .list
    let coerced ← fields.mapM fun (k, v) => do
      match v, kindOf k with
      | .int n, .number => pure (k, Json.float (← floatOfInt n))
      | .int n, .optionalNumber => pure (k, Json.float (← floatOfInt n))
      | v, _ => pure (k, v)
    let invalid : Fault := .configuration ("Invalid value in '" ++ part ++ "'")
    coerced.foldlM (fun s (k, v) =>
      match settings.find? (·.key == k) with
      | some setting => match setting.store v s with
        | some s => pure s
        | none => throw invalid
      | none => throw invalid) defaults
  | other =>
    throw (.configuration ("Section '" ++ part ++ "' must be an object, got " ++ other.kindName))

/-- The number a validated value stands for: a float, an integer, a boolean (0 or 1) or a
numeral written as text; anything else is refused with the setting's label. -/
def number (label : String) (j : Json) : Outcome Float :=
  let refuse : Outcome Float :=
    throw (.configuration (label ++ " must be a number, got " ++ Json.literal j))
  match j with
  | .float x => pure x
  | .int n => floatOfInt n
  | .bool b => pure (if b then 1.0 else 0.0)
  | .str s => match Numeral.read? s with
    | some x => pure x
    | none => refuse
  | _ => refuse

/-- The numbers of a list of exactly `n` entries. -/
def numbers (label : String) (n : Nat) (j : Json) : Outcome (List Float) :=
  match j with
  | .arr xs =>
    if xs.length = n then xs.mapM (number label)
    else throw (.configuration (label ++ " must be a list of " ++ toString n ++ " numbers, got " ++
      Json.literal j))
  | _ => throw (.configuration (label ++ " must be a list of " ++ toString n ++ " numbers, got " ++
      Json.literal j))

mutual
/-- Whether a document holds an undefined number anywhere. -/
def Json.hasNaN : Json → Bool
  | .float x => x.isNaN
  | .arr xs => Json.hasNaNItems xs
  | .obj fs => Json.hasNaNFields fs
  | _ => false

/-- Whether some item holds an undefined number. -/
def Json.hasNaNItems : List Json → Bool
  | [] => false
  | x :: rest => x.hasNaN || Json.hasNaNItems rest

/-- Whether some field value holds an undefined number. -/
def Json.hasNaNFields : List (String × Json) → Bool
  | [] => false
  | (_, v) :: rest => v.hasNaN || Json.hasNaNFields rest
end

end Spacecraft
