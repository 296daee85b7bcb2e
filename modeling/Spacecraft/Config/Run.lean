import Spacecraft.Config.Sections
import Spacecraft.Time.Epoch

/-!
# A run description

The description of one run: its epoch, its duration, the sections, whether contributors
are evaluated in parallel, and a name. It is read from a JSON object in a fixed order
(unknown top-level keys, epoch, initial state, duration, then the sections from the
integrator to the body), so the first problem met is the one reported, and then validated
section by section (duration, integrator, forces, torques, guidance, body, initial state).
Its JSON form gives back every value as it was stored and is accepted again as it is.
-/

namespace Spacecraft

/-- The description of one run. -/
structure RunConfig where
  epoch : Epoch := Epoch.j2000
  duration : Float := 600.0
  integrator : IntegratorSettings := {}
  forces : ForceSettings := {}
  torques : TorqueSettings := {}
  guidance : GuidanceSettings := {}
  body : BodySettings := {}
  start : StartSettings := .circular {}
  parallel : Bool := false
  name : String := "satsim"
deriving Inhabited

/-- Whether a JSON value counts as true: everything but `null`, `false`, zero, the empty
string and the empty list or object. -/
def Json.truthy : Json → Bool
  | .null => false
  | .bool b => b
  | .int n => n != 0
  | .float x => x != 0.0
  | .str s => !s.isEmpty
  | .arr xs => !xs.isEmpty
  | .obj fs => !fs.isEmpty

namespace RunConfig

/-- The top-level keys of a run description. -/
def keys : List String :=
  ["epoch", "duration", "integrator", "forces", "torques", "guidance", "body", "initial_state",
    "parallel_contributors", "name"]

/-- The epoch a value names: absent or `null` is the J2000 epoch. -/
def readEpoch : Option Json → Outcome Epoch
  | none | some .null => pure Epoch.j2000
  | some j =>
    let bad : Outcome Epoch := refuse ("Invalid epoch " ++ Json.literal j)
    match j with
    | .str s => match Epoch.parse s with
      | .ok e => pure e
      | .error _ => bad
    | _ => bad

/-- A run description read from a JSON object, before validation. -/
def read (data : Json) : Outcome RunConfig := do
  let unknown := unknownKeys data.keys keys
  unless unknown.isEmpty do
    refuse ("Unknown configuration keys: " ++ ", ".intercalate unknown)
  let epoch ← readEpoch (data.get? "epoch")
  let start ← StartSettings.read ((data.get? "initial_state").getD .null)
  let duration ← number "duration" ((data.get? "duration").getD (.float 600.0))
  let part {σ : Type} [Inhabited σ] (key : String) (defaults : σ) (settings : List (Setting σ)) :=
    readSection key defaults settings ((data.get? key).getD .null)
  let integrator ← part "integrator" {} IntegratorSettings.settings
  let forces ← part "forces" {} ForceSettings.settings
  let torques ← part "torques" {} TorqueSettings.settings
  let guidance ← part "guidance" {} GuidanceSettings.settings
  let body ← part "body" {} BodySettings.settings
  let parallel := ((data.get? "parallel_contributors").map Json.truthy).getD false
  let name := ((data.get? "name").map Json.plainText).getD "satsim"
  pure { epoch, duration, integrator, forces, torques, guidance, body, start, parallel, name }

/-- Checks every section, the duration first. -/
def validate (c : RunConfig) : Outcome Unit := do
  if c.duration ≤ 0.0 then refuse ("duration must be positive, got " ++ Notation.shortest c.duration)
  c.integrator.validate
  c.forces.validate
  c.torques.validate
  c.guidance.validate
  let _ ← c.body.toBody
  c.start.validate

/-- A validated run description read from a JSON object. -/
def ofJson (data : Json) : Outcome RunConfig := do
  let c ← read data
  c.validate
  pure c

/-- The description as a JSON object, with the epoch in ISO 8601 form. -/
def toJson (c : RunConfig) : Json :=
  .obj [("epoch", .str c.epoch.isoText), ("duration", .float c.duration),
    ("integrator", c.integrator.toJson), ("forces", c.forces.toJson), ("torques", c.torques.toJson),
    ("guidance", c.guidance.toJson), ("body", c.body.toJson), ("initial_state", c.start.toJson),
    ("parallel_contributors", .bool c.parallel), ("name", .str c.name)]

/-- The description as JSON text, indented by two spaces. -/
def toJsonText (c : RunConfig) : String := Json.pretty 2 0 c.toJson

/-- Whether writing the description out and reading it back gives an equal description:
it does unless an undefined number, which equals nothing, appears in it. -/
def roundTrips (c : RunConfig) : Bool := !c.toJson.hasNaN

end RunConfig

end Spacecraft
