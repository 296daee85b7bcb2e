import Mathlib
import Spacecraft.Config.Run
import Spacecraft.Proofs.Time.IsoText
import Spacecraft.Proofs.Json.Text
import Spacecraft.Proofs.Config.Validation

/-!
# A run description written out and read back

A run description that reading and validation accept comes back unchanged from its JSON form
and from its indented JSON text (`RunConfig.roundTrip_of_ofJson`). Three facts carry it.
Each section reads its own JSON form back, whatever its values (`readSection_integrator` and
the others, `StartSettings.read_toJson`), and so does a whole description whose epoch is in
its ranges (`RunConfig.read_toJson`); the epoch goes through its ISO text by
`Epoch.parse_isoText`. An epoch that reading accepts is in its ranges
(`RunConfig.epoch_valid_of_read`). And the JSON form of a validated description has no
object with a repeated key, so that its text reads back as the same document
(`RunConfig.toJson_keysDistinct`, then `Json.parse_pretty`). The lists a description keeps as
it read them (scenario steps, inertia rows, vectors and attitudes) could hold any document,
but validation reads each of them as numbers, so no object hides in them.

Equality here is equality of the stored values, with an undefined float equal to itself:
the round trip gives back the same floats, not only floats that compare equal.
-/

namespace Spacecraft

/-! ## Each section reads its own JSON form back -/

theorem readSection_integrator (part : String) (defaults : IntegratorSettings) (c : IntegratorSettings) :
    readSection part defaults IntegratorSettings.settings c.toJson = .ok c := by
  obtain ⟨m, st, a, r, mn, mx, rej, steps, norm⟩ := c
  cases rej <;> cases steps <;>
    simp [readSection, IntegratorSettings.toJson, IntegratorSettings.settings, unknownKeys,
      Setting.text, Setting.number, Setting.whole, Whole.toJson, List.find?, List.foldlM_cons,
      List.mapM_cons] <;> rfl

theorem readSection_forces (part : String) (defaults : ForceSettings) (c : ForceSettings) :
    readSection part defaults ForceSettings.settings c.toJson = .ok c := by
  obtain ⟨g, deg, dr, sr, sh, sun, moon⟩ := c
  cases deg <;>
    simp [readSection, ForceSettings.toJson, ForceSettings.settings, unknownKeys,
      Setting.text, Setting.flag, Setting.whole, Whole.toJson, List.find?, List.foldlM_cons,
      List.mapM_cons] <;> rfl

theorem readSection_torques (part : String) (defaults : TorqueSettings) (c : TorqueSettings) :
    readSection part defaults TorqueSettings.settings c.toJson = .ok c := by
  obtain ⟨law, sc, si, gg, rm, rd, seed, dt, kp, kd, ki, mt, ds, bg, btc, bsp, mn, gn⟩ := c
  cases law <;> cases seed <;> cases mt <;>
    simp [readSection, TorqueSettings.toJson, TorqueSettings.settings, unknownKeys,
      Setting.text, Setting.optionalText, Setting.list, Setting.number, Setting.optionalNumber,
      Setting.flag, Setting.whole, Whole.toJson, List.find?, List.foldlM_cons,
      List.mapM_cons] <;> rfl

theorem readSection_guidance (part : String) (defaults : GuidanceSettings) (c : GuidanceSettings) :
    readSection part defaults GuidanceSettings.settings c.toJson = .ok c := by
  obtain ⟨mode, q⟩ := c
  simp [readSection, GuidanceSettings.toJson, GuidanceSettings.settings, unknownKeys,
      Setting.text, Setting.list, List.find?, List.foldlM_cons, List.mapM_cons]
  rfl

theorem readSection_body (part : String) (defaults : BodySettings) (c : BodySettings) :
    readSection part defaults BodySettings.settings c.toJson = .ok c := by
  obtain ⟨m, i, d, dc, da, rc, ra, rd, md, n⟩ := c
  simp [readSection, BodySettings.toJson, BodySettings.settings, unknownKeys,
      Setting.text, Setting.list, Setting.number, List.find?, List.foldlM_cons, List.mapM_cons]
  rfl

theorem StartSettings.read_toJson (st : StartSettings) : StartSettings.read st.toJson = .ok st := by
  cases st with
  | cartesian c =>
    obtain ⟨p, v, q, w⟩ := c
    simp [StartSettings.read, StartSettings.toJson, Json.has, Json.get?, readSection,
      StartSettings.cartesianSettings, unknownKeys, Setting.list, List.find?, List.foldlM_cons,
      List.mapM_cons]
    rfl
  | circular c =>
    obtain ⟨alt, inc, raan, u, q, w⟩ := c
    simp [StartSettings.read, StartSettings.toJson, Json.has, Json.get?, readSection,
      StartSettings.circularSettings, unknownKeys, Setting.list, Setting.number, List.find?,
      List.foldlM_cons, List.mapM_cons]
    rfl
  | elements c =>
    obtain ⟨a, ecc, inc, raan, argp, nu, q, w⟩ := c
    simp [StartSettings.read, StartSettings.toJson, Json.has, Json.get?, readSection,
      StartSettings.elementsSettings, unknownKeys, Setting.list, Setting.number, List.find?,
      List.foldlM_cons, List.mapM_cons]
    rfl

theorem RunConfig.read_toJson {c : RunConfig} (hv : c.epoch.Valid) : RunConfig.read c.toJson = .ok c := by
  simp [RunConfig.read, RunConfig.toJson, Json.keys, unknownKeys, RunConfig.keys, Json.get?,
    List.find?, RunConfig.readEpoch, Epoch.parse_isoText hv, StartSettings.read_toJson, number,
    readSection_integrator, readSection_forces, readSection_torques, readSection_guidance,
    readSection_body, Json.truthy, Json.plainText]

open Json

/-! ## The JSON form of a validated description has distinct keys -/

/-- A value that reads as a number is a scalar. -/
theorem keysDistinct_of_number {label : String} {j : Json} {x : Float} (h : number label j = .ok x) :
    j.KeysDistinct := by
  cases j with
  | arr items => cases h
  | obj fields => cases h
  | _ => trivial

theorem keysDistinct_of_numbers {label : String} {n : Nat} {j : Json} {xs : List Float}
    (h : numbers label n j = .ok xs) : j.KeysDistinct := by
  cases j with
  | arr items =>
    simp only [numbers] at h
    obtain ⟨-, h⟩ := Outcome.ite_else_throw_eq_ok h
    show ItemsKeysDistinct items
    rw [itemsKeysDistinct_iff]
    intro x hx
    obtain ⟨y, hy⟩ := Outcome.mapM_eq_ok h x hx
    exact keysDistinct_of_number hy
  | obj fields => cases h
  | _ => trivial

theorem keysDistinct_obj {fields : List (String × Json)} (hkeys : (fields.map (·.1)).Nodup)
    (hvalues : ∀ f ∈ fields, f.2.KeysDistinct) : (Json.obj fields).KeysDistinct :=
  ⟨hkeys, (fieldsKeysDistinct_iff fields).2 hvalues⟩

/-- A value that may be absent, written `null` when it is. -/
theorem keysDistinct_getD_null {α : Type} {f : α → Json} (hf : ∀ a, (f a).KeysDistinct)
    (o : Option α) : ((o.map f).getD .null).KeysDistinct := by
  cases o with
  | none => trivial
  | some a => exact hf a

theorem Whole.keysDistinct (w : Whole) : w.toJson.KeysDistinct := by
  cases w <;> trivial

namespace TorqueSettings

/-- A scenario step that passes its check holds numbers only. -/
theorem keysDistinct_of_checkStep {step : Json} (h : checkStep step = .ok ()) : step.KeysDistinct := by
  unfold checkStep at h
  split at h
  · rename_i start duration direction
    obtain ⟨times, htimes, h⟩ := Outcome.bind_eq_ok h
    obtain ⟨dir, hdir, -⟩ := Outcome.bind_eq_ok h
    have htimes := keysDistinct_of_numbers htimes
    simp only [KeysDistinct, ItemsKeysDistinct] at htimes ⊢
    exact ⟨htimes.1, htimes.2.1, keysDistinct_of_numbers hdir, trivial⟩
  · simp [refuse] at h

theorem toJson_keysDistinct {c : TorqueSettings} (h : c.validate = .ok ()) : c.toJson.KeysDistinct := by
  have hsteps := (validate_ok h).1
  refine keysDistinct_obj (by simp only [List.map_cons, List.map_nil]; decide) ?_
  simp only [List.mem_cons, List.not_mem_nil, or_false, forall_eq_or_imp, forall_eq]
  have hscenario : ∀ x ∈ c.scenario, x.KeysDistinct := fun x hx =>
    keysDistinct_of_checkStep (hsteps x hx)
  simp only [KeysDistinct, Whole.keysDistinct, itemsKeysDistinct_iff, and_true, true_and]
  exact ⟨keysDistinct_getD_null (f := .str) (fun _ => trivial) _, hscenario,
    keysDistinct_getD_null (f := .float) (fun _ => trivial) _⟩

end TorqueSettings

theorem IntegratorSettings.toJson_keysDistinct (c : IntegratorSettings) : c.toJson.KeysDistinct := by
  refine keysDistinct_obj (by simp only [List.map_cons, List.map_nil]; decide) ?_
  simp [KeysDistinct, Whole.keysDistinct]

theorem ForceSettings.toJson_keysDistinct (c : ForceSettings) : c.toJson.KeysDistinct := by
  refine keysDistinct_obj (by simp only [List.map_cons, List.map_nil]; decide) ?_
  simp [KeysDistinct, Whole.keysDistinct]

theorem GuidanceSettings.toJson_keysDistinct {c : GuidanceSettings} (h : c.validate = .ok ()) :
    c.toJson.KeysDistinct := by
  simp only [GuidanceSettings.validate, refuse, Outcome.throw_bind] at h
  obtain ⟨-, h⟩ := Outcome.ite_else_throw_eq_ok h
  obtain ⟨q, hq, -⟩ := Outcome.bind_eq_ok h
  refine keysDistinct_obj (by simp only [List.map_cons, List.map_nil]; decide) ?_
  simp only [List.mem_cons, List.not_mem_nil, or_false, forall_eq_or_imp, forall_eq]
  exact ⟨trivial, keysDistinct_of_numbers hq⟩

theorem BodySettings.toJson_keysDistinct {c : BodySettings} {b : Body} (h : c.toBody = .ok b) :
    c.toJson.KeysDistinct := by
  simp only [toBody, refuse, Outcome.throw_bind] at h
  obtain ⟨-, h⟩ := Outcome.ite_else_throw_eq_ok h
  obtain ⟨inertia, hinertia, h⟩ := Outcome.bind_eq_ok h
  obtain ⟨dimensions, hdims, h⟩ := Outcome.bind_eq_ok h
  obtain ⟨dipole, hdipole, -⟩ := Outcome.bind_eq_ok h
  have hrows : ∀ row ∈ c.inertia, row.KeysDistinct := fun row hrow => by
    obtain ⟨r, hr⟩ := Outcome.mapM_eq_ok hinertia row hrow
    exact keysDistinct_of_numbers hr
  refine keysDistinct_obj (by simp only [List.map_cons, List.map_nil]; decide) ?_
  simp only [List.mem_cons, List.not_mem_nil, or_false, forall_eq_or_imp, forall_eq]
  exact ⟨trivial, (itemsKeysDistinct_iff _).2 hrows, keysDistinct_of_numbers hdims, trivial, trivial,
    trivial, trivial, keysDistinct_of_numbers hdipole, trivial, trivial⟩

namespace StartSettings

theorem keysDistinct_of_checkAttitude {q w : List Json} (h : checkAttitude q w = .ok ()) :
    (Json.arr q).KeysDistinct ∧ (Json.arr w).KeysDistinct := by
  simp only [checkAttitude, refuse, Outcome.throw_bind] at h
  obtain ⟨quaternion, hq, h⟩ := Outcome.bind_eq_ok h
  obtain ⟨-, h⟩ := Outcome.ite_else_throw_eq_ok h
  obtain ⟨rates, hw, -⟩ := Outcome.bind_eq_ok h
  exact ⟨keysDistinct_of_numbers hq, keysDistinct_of_numbers hw⟩

theorem toJson_keysDistinct {st : StartSettings} (h : st.validate = .ok ()) : st.toJson.KeysDistinct := by
  cases st with
  | cartesian c =>
    simp only [validate] at h
    obtain ⟨p, hp, h⟩ := Outcome.bind_eq_ok h
    obtain ⟨v, hv, h⟩ := Outcome.bind_eq_ok h
    obtain ⟨hq, hw⟩ := keysDistinct_of_checkAttitude h
    refine keysDistinct_obj (by simp only [List.map_cons, List.map_nil]; decide) ?_
    simp only [List.mem_cons, List.not_mem_nil, or_false, forall_eq_or_imp, forall_eq]
    exact ⟨keysDistinct_of_numbers hp, keysDistinct_of_numbers hv, hq, hw⟩
  | circular c =>
    simp only [validate, refuse, Outcome.throw_bind] at h
    obtain ⟨-, h⟩ := Outcome.ite_throw_eq_ok h
    obtain ⟨hq, hw⟩ := keysDistinct_of_checkAttitude h
    refine keysDistinct_obj (by simp only [List.map_cons, List.map_nil]; decide) ?_
    simp only [List.mem_cons, List.not_mem_nil, or_false, forall_eq_or_imp, forall_eq]
    exact ⟨trivial, trivial, trivial, trivial, hq, hw⟩
  | elements c =>
    simp only [validate, refuse, Outcome.throw_bind] at h
    obtain ⟨-, h⟩ := Outcome.ite_else_throw_eq_ok h
    obtain ⟨-, h⟩ := Outcome.ite_throw_eq_ok h
    obtain ⟨hq, hw⟩ := keysDistinct_of_checkAttitude h
    refine keysDistinct_obj (by simp only [List.map_cons, List.map_nil]; decide) ?_
    simp only [List.mem_cons, List.not_mem_nil, or_false, forall_eq_or_imp, forall_eq]
    exact ⟨trivial, trivial, trivial, trivial, trivial, trivial, hq, hw⟩

end StartSettings

namespace RunConfig

theorem toJson_keysDistinct {c : RunConfig} (h : c.validate = .ok ()) : c.toJson.KeysDistinct := by
  simp only [validate, refuse, Outcome.throw_bind] at h
  obtain ⟨-, h⟩ := Outcome.ite_throw_eq_ok h
  obtain ⟨u, -, h⟩ := Outcome.bind_eq_ok h
  obtain ⟨u, -, h⟩ := Outcome.bind_eq_ok h
  obtain ⟨u, htorques, h⟩ := Outcome.bind_eq_ok h
  obtain ⟨u, hguidance, h⟩ := Outcome.bind_eq_ok h
  obtain ⟨b, hbody, hstart⟩ := Outcome.bind_eq_ok h
  refine keysDistinct_obj (by simp only [List.map_cons, List.map_nil]; decide) ?_
  simp only [List.mem_cons, List.not_mem_nil, or_false, forall_eq_or_imp, forall_eq]
  exact ⟨trivial, trivial, c.integrator.toJson_keysDistinct, c.forces.toJson_keysDistinct,
    TorqueSettings.toJson_keysDistinct htorques, GuidanceSettings.toJson_keysDistinct hguidance,
    BodySettings.toJson_keysDistinct hbody, StartSettings.toJson_keysDistinct hstart, trivial, trivial⟩

/-- The epoch a description names is in its ranges. -/
theorem valid_of_readEpoch {j : Option Json} {e : Epoch} (h : readEpoch j = .ok e) : e.Valid := by
  unfold readEpoch at h
  split at h
  · cases h
    exact Epoch.valid_j2000
  · cases h
    exact Epoch.valid_j2000
  · dsimp only at h
    split at h
    · split at h
      · cases h
        exact Epoch.valid_of_parse (by assumption)
      · cases h
    · cases h

theorem epoch_valid_of_read {data : Json} {c : RunConfig} (h : read data = .ok c) : c.epoch.Valid := by
  simp only [read, refuse, Outcome.throw_bind] at h
  obtain ⟨-, h⟩ := Outcome.ite_else_throw_eq_ok h
  obtain ⟨epoch, hepoch, h⟩ := Outcome.bind_eq_ok h
  repeat (obtain ⟨_, _, h⟩ := Outcome.bind_eq_ok h)
  cases h
  exact valid_of_readEpoch hepoch

/-- A description that reading and validation accept is accepted again from its JSON form and
from its JSON text, as the same description: the same form of initial state, the same epoch
and offset, the same floats (an undefined one included) and the same lists. -/
theorem roundTrip_of_ofJson {data : Json} {c : RunConfig} (h : ofJson data = .ok c) :
    ofJson c.toJson = .ok c ∧ (Json.parse c.toJsonText).map ofJson = some (.ok c) := by
  obtain ⟨parsed, hread, h⟩ := Outcome.bind_eq_ok h
  obtain ⟨u, hvalid, h⟩ := Outcome.bind_eq_ok h
  cases h
  have hagain : ofJson c.toJson = .ok c := by
    rw [ofJson, read_toJson (epoch_valid_of_read hread)]
    change (c.validate >>= fun _ => pure c) = _
    rw [hvalid]
    rfl
  refine ⟨hagain, ?_⟩
  rw [toJsonText, parse_pretty 2 0 _ (toJson_keysDistinct hvalid), Option.map_some, hagain]

/-- The description that sets only an undefined duration comes back with it: the undefined
float is written `NaN` and read back as the same float. -/
theorem undefinedDuration_roundTrip :
    ∃ c, ofJson (.obj [("duration", .float (0.0 / 0.0))]) = .ok c ∧
      ofJson c.toJson = .ok c ∧ (Json.parse c.toJsonText).map ofJson = some (.ok c) := by
  have hread := ofJson_undefined_duration
  rcases hc : ofJson (.obj [("duration", .float (0.0 / 0.0))]) with e | c
  · rw [hc] at hread
    cases hread
  · exact ⟨c, rfl, roundTrip_of_ofJson hc⟩

end RunConfig

end Spacecraft
